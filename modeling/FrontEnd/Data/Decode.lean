import FrontEnd.Data.Value

/-!
Reading typed data from values. A record may be written with its keys or as the list of its fields
in order; how strictly this is taken depends on where the value comes from.
-/
namespace FrontEnd

/-- What a source of values lets pass. -/
structure Reading where
  /-- A record may have keys that nobody asks for. -/
  unknownKeys : Bool
  /-- A record written as a list may have more items than fields. -/
  extraItems : Bool
  /-- The value that stands beside the name of a choice that holds nothing. -/
  isUnit : Value → Bool

namespace Reading

def isNull : Value → Bool
  | .null => true
  | _ => false

def isVoid : Value → Bool
  | .list [] | .record [] => true
  | _ => false

/-- Template contexts and lexer specifications. -/
def context : Reading := ⟨true, false, isNull⟩

def json : Reading := ⟨false, false, isNull⟩

def toml : Reading := ⟨false, true, isVoid⟩

end Reading

structure Fields where
  find? : String → Option Value
  /-- The record is written with keys, and not as a list. -/
  isKeyed : Bool

namespace Fields

/-- The fields of a value that is a record with some of the given keys. -/
def ofValue? (r : Reading) (keys : List String) : Value → Option Fields
  | .record entries =>
    if r.unknownKeys || entries.all (fun e => keys.contains e.1) then
      some ⟨fun key => entries.lookup key, true⟩
    else none
  | .list items =>
    if r.extraItems || items.length ≤ keys.length then
      some ⟨fun key => items[keys.idxOf key]?, false⟩
    else none
  | _ => none

variable {α : Type}

def required (f : Fields) (key : String) (read : Value → Option α) : Option α :=
  f.find? key >>= read

/-- Reads a field that may be left out of a keyed record, or be null. -/
def optional (f : Fields) (key : String) (read : Value → Option α) : Option (Option α) :=
  match f.find? key with
  | none => if f.isKeyed then some none else none
  | some .null => some none
  | some v => (read v).map some

def orDefault (f : Fields) (key : String) (default : α) (read : Value → Option α) : Option α :=
  match f.find? key with
  | none => some default
  | some v => read v

end Fields

namespace Value

variable {α : Type}

def text? : Value → Option String
  | text s => some s
  | _ => none

def bool? : Value → Option Bool
  | bool b => some b
  | _ => none

def natBelow? (limit : Nat) : Value → Option Nat
  | int (.ofNat n) => if n < limit then some n else none
  | _ => none

def size? : Value → Option Nat := natBelow? UInt64.size

def list? (read : Value → Option α) : Value → Option (List α)
  | list items => items.mapM read
  | _ => none

def choice? (r : Reading) (ofName? : String → Option α) : Value → Option α
  | text name => ofName? name
  | record [(name, v)] => if r.isUnit v then ofName? name else none
  | _ => none

end Value

end FrontEnd
