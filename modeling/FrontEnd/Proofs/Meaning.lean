import Mathlib.Logic.Function.Basic
import FrontEnd.Proofs.Nodes
import FrontEnd.Property.Code

/-!
What typed expressions mean, and what the code generated for them does, over any kind of values and
any operations on them. An expression has a value by itself; code has one after its statements have
run. Neither has a value where a variable is read that nothing was assigned to.
-/
namespace FrontEnd

universe u

/-- The component of a node that generated code has for the field. -/
def componentName (field : String) : String := "F_" ++ (Name.ofLower field).canonical

/-- The name that generated code has for the type of arrays of the element type. -/
def arrayName (element : Ty) : String := Ty.unqualified element.target ++ "_Array"

/-- The operations of typed expressions as functions on values, with components and array types by
the names that generated code has for them. -/
structure Interpretation (V : Type u) where
  bool : Bool → V
  int : Int64 → V
  find : String → V
  getSymbol : V → V
  component : V → (name : String) → V
  lookup : (env key : V) → (boundary : Option V) → (recursive : V) → (unique : Bool) → V
  call : (callee : String) → List V → V
  envNode : V → V
  array : (typeName : String) → List V → V

def Interpretation.literal {V : Type u} (I : Interpretation V) : Literal → V
  | .bool b => I.bool b
  | .int n => I.int n
  | .text s => I.find s

/-- The values of the variables that have been assigned. -/
abbrev Store (V : Type u) := String → Option V

def Store.assign {V : Type u} (σ : Store V) (x : String) (v : V) : Store V :=
  Function.update σ x (some v)

section

variable {V : Type u} (I : Interpretation V) (σ : Store V)

namespace Term

mutual

def eval : Term → Option V
  | bool b => some (I.bool b)
  | int n => some (I.int n)
  | find s => some (I.find s)
  | var x => σ x
  | getSymbol token => do
    let token ← token.eval
    some (I.getSymbol token)
  | field receiver name => do
    let receiver ← receiver.eval
    some (I.component receiver (componentName name))
  | lookup env key boundary recursive unique => do
    let env ← env.eval
    let key ← key.eval
    let boundary ← evalBoundary boundary
    let recursive ← recursive.eval
    some (I.lookup env key boundary recursive unique)
  | call callee args => do
    let args ← evalAll args
    some (I.call callee args)
  | envNode env => do
    let env ← env.eval
    some (I.envNode env)
  | array elementTy elements => do
    let elements ← evalAll elements
    some (I.array (arrayName elementTy) elements)

def evalBoundary : Option Term → Option (Option V)
  | none => some none
  | some t => do
    let v ← t.eval
    some (some v)

def evalAll : List Term → Option (List V)
  | [] => some []
  | t :: ts => do
    let v ← t.eval
    let vs ← evalAll ts
    some (v :: vs)

end

end Term

/-- Runs a statement; to retain a value does not change it. -/
def Statement.exec : Statement → Option (Store V)
  | assign x value => do
    let v ← value.eval I σ
    some (σ.assign x v)
  | retain x => do
    let _ ← σ x
    some σ

def Statement.execAll (statements : List Statement) : Option (Store V) :=
  statements.foldlM (Statement.exec I) σ

namespace Resolved

mutual

/-- The value of a typed expression: its operation applied to the values of its parts, where a body
has the variable bound to it. -/
def eval (σ : Store V) : Resolved → Option V
  | literal _ v => some (I.literal v)
  | var _ name => σ name
  | getSymbol _ token => do
    let token ← token.eval σ
    some (I.getSymbol token)
  | field _ receiver name => do
    let receiver ← receiver.eval σ
    some (I.component receiver (componentName name))
  | lookup _ e key boundary recursive unique => do
    let e ← e.eval σ
    let key ← key.eval σ
    let boundary ← evalBoundary σ boundary
    let recursive ← recursive.eval σ
    some (I.lookup e key boundary recursive unique)
  | call _ callee args => do
    let args ← evalAll σ args
    some (I.call callee args)
  | envNode _ e => do
    let e ← e.eval σ
    some (I.envNode e)
  | array _ elements elementTy => do
    let elements ← evalAll σ elements
    some (I.array (arrayName elementTy) elements)
  | bind _ e x body => do
    let v ← e.eval σ
    body.eval (σ.assign x.name v)

def evalBoundary (σ : Store V) : Option Resolved → Option (Option V)
  | none => some none
  | some r => do
    let v ← r.eval σ
    some (some v)

def evalAll (σ : Store V) : List Resolved → Option (List V)
  | [] => some []
  | r :: rs => do
    let v ← r.eval σ
    let vs ← evalAll σ rs
    some (v :: vs)

end

end Resolved

end

section

variable {V : Type u} (I : Interpretation V)

namespace Resolved

/-- The value of a node that binds nothing, from the values of its parts. Only a variable looks at
the store. -/
def combine (σ : Store V) : Resolved → List V → Option V
  | literal _ v, [] => some (I.literal v)
  | var _ name, [] => σ name
  | getSymbol _ _, [token] => some (I.getSymbol token)
  | field _ _ name, [receiver] => some (I.component receiver (componentName name))
  | lookup _ _ _ none _ unique, [e, key, recursive] => some (I.lookup e key none recursive unique)
  | lookup _ _ _ (some _) _ unique, [e, key, boundary, recursive] =>
    some (I.lookup e key (some boundary) recursive unique)
  | call _ callee _, args => some (I.call callee args)
  | envNode _ _, [e] => some (I.envNode e)
  | array _ _ elementTy, elements => some (I.array (arrayName elementTy) elements)
  | _, _ => none

theorem eq_bind_of_bound {r : Resolved} {l : Local} (hb : r.bound? = some l) :
    ∃ i e body, r = bind i e l body := by
  cases r with
  | bind i e x body =>
    cases hb
    exact ⟨i, e, body, rfl⟩
  | _ => cases hb

theorem eval_eq_combine (σ : Store V) {r : Resolved} (hb : r.bound? = none) :
    r.eval I σ = (evalAll I σ r.children).bind (r.combine I σ) := by
  cases r with
  | literal | var | call | array => rfl
  | getSymbol | field | envNode =>
    simp [eval, children, evalAll, combine, Option.bind_assoc]
  | lookup i e key boundary recursive unique =>
    cases boundary <;> simp [eval, evalBoundary, children, evalAll, combine, Option.bind_assoc]
  | bind => cases hb

theorem value_eq_combine (τ : Store V) {r : Resolved} (hb : r.bound? = none) :
    r.value.eval I τ = (Term.evalAll I τ (terms r.children)).bind (r.combine I τ) := by
  cases r with
  | literal i v => cases v <;> rfl
  | var | call | array => rfl
  | getSymbol | field | envNode =>
    simp [value, Term.eval, children, terms, Term.evalAll, combine, Option.bind_assoc]
  | lookup i e key boundary recursive unique =>
    cases boundary <;>
      simp [value, boundaryTerm, Term.eval, Term.evalBoundary, children, terms, Term.evalAll,
        combine, Option.bind_assoc]
  | bind => cases hb

theorem combine_congr {σ ρ : Store V} {r : Resolved} (vs : List V)
    (hv : ∀ x, r.varName? = some x → σ x = ρ x) : r.combine I σ vs = r.combine I ρ vs := by
  fun_cases combine I σ r vs
  case case2 name => exact hv name rfl
  all_goals simp_all [combine]

theorem combine_isSome {σ : Store V} {r : Resolved} {vs : List V} (hb : r.bound? = none)
    (hv : ∀ x, r.varName? = some x → (σ x).isSome = true)
    (hl : vs.length = r.children.length) : (r.combine I σ vs).isSome = true := by
  cases r with
  | literal =>
    rw [List.length_eq_zero_iff.mp hl]
    rfl
  | var i name =>
    rw [List.length_eq_zero_iff.mp hl]
    exact hv name rfl
  | getSymbol | field | envNode =>
    obtain ⟨v, rfl⟩ := List.length_eq_one_iff.mp hl
    rfl
  | lookup i e key boundary recursive unique =>
    cases boundary with
    | none =>
      match vs, hl with
      | [_, _, _], _ => rfl
    | some =>
      match vs, hl with
      | [_, _, _, _], _ => rfl
  | call | array => rfl
  | bind => cases hb

end Resolved

end

/-- The names of the locals in an expression do not get in each other's way. -/
structure Resolved.Hygienic (r : Resolved) : Prop where
  /-- Only one node carries a local of a given name. -/
  carried_once : r.nodes.Pairwise fun m n => ∀ x ∈ m.ownNames, x ∉ n.ownNames
  /-- No variable has the name of a result variable. -/
  result_unread : ∀ n ∈ r.nodes, ∀ l ∈ n.info.result, ∀ m ∈ r.nodes, m.varName? ≠ some l.name
  /-- A variable with the name of a bound local stands only in the body that it is bound in. -/
  bound_inside : ∀ n ∈ r.nodes, ∀ l ∈ n.bound?, l.name ∉ r.freeVars

end FrontEnd
