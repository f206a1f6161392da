import FrontEnd.Ty

namespace FrontEnd

/-- What a variable holds: values of a type. -/
structure Storage where
  ty : Ty
  /-- Generated code releases the variable before it leaves the property. -/
  isRefCounted : Bool
  deriving DecidableEq

def Storage.of (ty : Ty) : Storage := ⟨ty, ty.isRefCounted⟩

instance : Coe Ty Storage := ⟨Storage.of⟩

structure Local where
  name : String
  storage : Storage
  deriving DecidableEq

namespace Local

def ty (l : Local) : Ty := l.storage.ty

def isRefCounted (l : Local) : Bool := l.storage.isRefCounted

end Local

/-- One more for the key; a key that is not counted yet counts from none. -/
def countUp (key : String) : List (String × Nat) → List (String × Nat)
  | [] => [(key, 1)]
  | (k, n) :: rest => if k = key then (k, n + 1) :: rest else (k, n) :: countUp key rest

/-- The locals made so far, and a counter for each stem that one was named for. -/
structure Locals where
  vars : List Local := []
  counters : List (String × Nat) := []

namespace Locals

def toList (ls : Locals) : List Local := ls.vars

def count (ls : Locals) (stem : String) : Nat := (ls.counters.lookup stem).getD 0

/-- The variable that `create` adds: its number is where the counter of its stem stands. -/
def next (ls : Locals) (stem : String) (ty : Ty) : Local :=
  ⟨stem ++ "_" ++ toString (ls.count stem), ty⟩

def create (ls : Locals) (stem : String) (ty : Ty) : Locals :=
  ⟨ls.vars ++ [ls.next stem ty], countUp stem ls.counters⟩

end Locals

end FrontEnd
