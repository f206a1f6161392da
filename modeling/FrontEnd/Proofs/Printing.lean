import FrontEnd.Expr.Printer
import FrontEnd.Proofs.Grammar

namespace FrontEnd.Expr

mutual

def nodes : Expr → List Expr
  | literal v => [literal v]
  | self => [self]
  | env => [env]
  | emptyEnv => [emptyEnv]
  | field receiver name => field receiver name :: receiver.nodes
  | array elements => array elements :: nodesAll elements
  | lookup e key recursive sequential unique =>
    lookup e key recursive sequential unique :: (e.nodes ++ key.nodes ++ recursive.nodes)
  | evalInEnv e body => evalInEnv e body :: (e.nodes ++ body.nodes)
  | orphan e => orphan e :: e.nodes
  | group envs => group envs :: envs.nodes
  | groupAll envs => groupAll envs :: nodesAll envs
  | isVisibleFrom referenced base =>
    isVisibleFrom referenced base :: (referenced.nodes ++ base.nodes)
  | envNode e => envNode e :: e.nodes

def nodesAll : List Expr → List Expr
  | [] => []
  | e :: es => e.nodes ++ nodesAll es

end

/-- The levels of an operand with as many levels of its own: parentheses add one. -/
def operandNesting (e : Expr) (levels : Nat) : Nat := if e.isAtomic then levels else levels + 1

mutual

/-- How many expressions are nested in one another in the written form. -/
def nesting : Expr → Nat
  | literal _ | self | env | emptyEnv => 1
  | field receiver _ => operandNesting receiver receiver.nesting
  | array elements => nestingAll elements + 1
  | lookup e key recursive _ _ =>
    let call := max (operandNesting e e.nesting) (operandNesting key key.nesting) + 1
    if recursive.isTrue then call
    else max (call + 1) (operandNesting recursive recursive.nesting) + 1
  | evalInEnv e body => max (operandNesting e e.nesting) (operandNesting body body.nesting) + 1
  | orphan e => operandNesting e e.nesting + 1
  | group envs => operandNesting envs envs.nesting + 1
  | groupAll envs => nestingAll envs + 1 + 1
  | isVisibleFrom referenced base =>
    max (operandNesting referenced referenced.nesting) (operandNesting base base.nesting) + 1
  | envNode e => operandNesting e e.nesting + 1

def nestingAll : List Expr → Nat
  | [] => 0
  | e :: es => max (operandNesting e e.nesting) (nestingAll es)

end

/-- What the written form of a constant is read as: of a text, what its escapes mean. -/
def readLiteral : Literal → Literal
  | .text s => .text (String.ofList (unescape (s.toList.flatMap Text.escapeChar)))
  | value => value

mutual

/-- What the written form is read as. Listed environments become an array, and a lookup of the first
entry is not sequential. -/
def readForm : Expr → Expr
  | literal value => literal (readLiteral value)
  | self => self
  | env => env
  | emptyEnv => emptyEnv
  | field receiver name => field receiver.readForm name
  | array elements => array (readFormAll elements)
  | lookup e key recursive sequential unique =>
    lookup e.readForm key.readForm recursive.readForm (sequential && !unique) unique
  | evalInEnv e body => evalInEnv e.readForm body.readForm
  | orphan e => orphan e.readForm
  | group envs => group envs.readForm
  | groupAll envs => group (array (readFormAll envs))
  | isVisibleFrom referenced base => isVisibleFrom referenced.readForm base.readForm
  | envNode e => envNode e.readForm

def readFormAll : List Expr → List Expr
  | [] => []
  | e :: es => e.readForm :: readFormAll es

end

def lookupOperation (sequential unique : Bool) : Operation :=
  if unique then .resolveUnique else if sequential then .getSequential else .get

/-- The expression is written as the operation before the operands. -/
inductive WrittenAs : Expr → Operation → List Expr → Prop
  | lookup (e key : Expr) (sequential unique : Bool) :
    WrittenAs (.lookup e key (ofBool true) sequential unique) (lookupOperation sequential unique)
      [e, key]
  | recursive (e key : Expr) {flag : Expr} (sequential unique : Bool)
    (hf : flag.isTrue = false) :
    WrittenAs (.lookup e key flag sequential unique) .recursive
      [.lookup e key (ofBool true) sequential unique, flag]
  | evalInEnv (e body : Expr) : WrittenAs (.evalInEnv e body) .evalInEnv [e, body]
  | orphan (e : Expr) : WrittenAs (.orphan e) .orphan [e]
  | group (envs : Expr) : WrittenAs (.group envs) .group [envs]
  | groupAll (envs : List Expr) : WrittenAs (.groupAll envs) .group [array envs]
  | isVisibleFrom (referenced base : Expr) :
    WrittenAs (.isVisibleFrom referenced base) .isVisibleFrom [referenced, base]
  | envNode (e : Expr) : WrittenAs (.envNode e) .envNode [e]

theorem isTrue_iff {e : Expr} : e.isTrue = true ↔ e = ofBool true := by
  constructor
  · intro h
    unfold isTrue at h
    split at h
    · rfl
    · cases h
  · rintro rfl
    rfl

theorem readForm_ofBool (b : Bool) : (ofBool b).readForm = ofBool b := by
  simp [ofBool, readForm, readLiteral]

theorem isTrue_ofBool : (ofBool true).isTrue = true := rfl

theorem operandNesting_of_atomic {e : Expr} (h : e.isAtomic = true) (levels : Nat) :
    operandNesting e levels = levels := if_pos h

theorem operandNesting_of_not_atomic {e : Expr} (h : e.isAtomic = false) (levels : Nat) :
    operandNesting e levels = levels + 1 := if_neg (Bool.eq_false_iff.mp h)

theorem asOperand_of_atomic {e : Expr} (h : e.isAtomic = true) (s : String) :
    asOperand e s = s := if_pos h

theorem asOperand_of_not_atomic {e : Expr} (h : e.isAtomic = false) (s : String) :
    asOperand e s = "(" ++ s ++ ")" := if_neg (Bool.eq_false_iff.mp h)

theorem lookupWord_eq_name (sequential unique : Bool) :
    lookupWord sequential unique = (lookupOperation sequential unique).name := by
  cases sequential <;> cases unique <;> rfl

def writtenOperands (es : List Expr) : List Char :=
  es.flatMap fun e => ' ' :: (asOperand e e.display).toList

theorem writtenOperands_nil : writtenOperands [] = [] := rfl

theorem writtenOperands_cons (e : Expr) (es : List Expr) :
    writtenOperands (e :: es) =
      ' ' :: ((asOperand e e.display).toList ++ writtenOperands es) := rfl

theorem intercalate_displayAll (e : Expr) (es : List Expr) :
    (" ".intercalate (displayAll (e :: es))).toList =
      (asOperand e e.display).toList ++ writtenOperands es := by
  induction es generalizing e with
  | nil => simp [displayAll, writtenOperands_nil]
  | cons x es ih =>
    have hparts : displayAll (e :: x :: es) =
        asOperand e e.display :: asOperand x x.display :: displayAll es := rfl
    rw [hparts, writtenOperands_cons, ← ih x, String.intercalate_cons_cons, String.toList_append,
      String.toList_append, List.append_assoc]
    rfl

theorem readFormAll_eq_map (es : List Expr) : readFormAll es = es.map readForm := by
  induction es with
  | nil => rfl
  | cons e es ih => rw [readFormAll, ih, List.map_cons]

theorem nodesAll_eq_flatMap (es : List Expr) : nodesAll es = es.flatMap nodes := by
  induction es with
  | nil => rfl
  | cons e es ih => rw [nodesAll, ih, List.flatMap_cons]

theorem display_recursive (e key : Expr) {flag : Expr} (sequential unique : Bool)
    (hf : flag.isTrue = false) :
    (lookup e key flag sequential unique).display =
      "recursive (" ++ (lookup e key (ofBool true) sequential unique).display ++ ") " ++
        asOperand flag flag.display := if_neg (Bool.eq_false_iff.mp hf)

namespace WrittenAs

variable {e : Expr} {op : Operation} {xs : List Expr}

theorem not_isAtomic (h : WrittenAs e op xs) : e.isAtomic = false := by
  cases h <;> rfl

theorem length_eq (h : WrittenAs e op xs) : xs.length = op.arity := by
  cases h with
  | lookup e key sequential unique => cases sequential <;> cases unique <;> rfl
  | recursive | evalInEnv | orphan | group | groupAll | isVisibleFrom | envNode => rfl

theorem nesting_eq (h : WrittenAs e op xs) : e.nesting = nestingAll xs + 1 := by
  cases h with
  | lookup => simp [nesting, nestingAll, isTrue_ofBool]
  | recursive e key sequential unique hf =>
    have hcall : (Expr.lookup e key (ofBool true) sequential unique).isAtomic = false := rfl
    simp [nesting, nestingAll, isTrue_ofBool, hf, operandNesting_of_not_atomic hcall]
  | groupAll envs =>
    have harray : (array envs).isAtomic = true := rfl
    simp [nesting, nestingAll, operandNesting_of_atomic harray]
  | evalInEnv | orphan | group | isVisibleFrom | envNode => simp [nesting, nestingAll]

theorem build_eq (h : WrittenAs e op xs) : op.build? (xs.map readForm) = some e.readForm := by
  cases h with
  | lookup e key sequential unique =>
    cases sequential <;> cases unique <;>
      simp [readForm, readForm_ofBool, lookupOperation, Operation.build?]
  | recursive | evalInEnv | orphan | group | groupAll | isVisibleFrom | envNode =>
    simp [readForm, Operation.build?]

theorem display_eq (h : WrittenAs e op xs) :
    e.display.toList = op.name.toList ++ writtenOperands xs := by
  -- Each form is written with the name of its operation; the texts are compared as written.
  cases h with
  | lookup e key sequential unique =>
    change (lookupWord sequential unique ++ " " ++ asOperand e e.display ++ " " ++
      asOperand key key.display).toList = _
    simp [lookupWord_eq_name, writtenOperands]
  | recursive e key sequential unique hf =>
    have hcall : (Expr.lookup e key (ofBool true) sequential unique).isAtomic = false := rfl
    rw [writtenOperands_cons, asOperand_of_not_atomic hcall, display_recursive e key _ _ hf]
    simp [writtenOperands, Operation.name]
  | evalInEnv e body =>
    change ("eval_in_env " ++ asOperand e e.display ++ " " ++
      asOperand body body.display).toList = _
    simp [writtenOperands, Operation.name]
  | orphan e =>
    change ("orphan " ++ asOperand e e.display).toList = _
    simp [writtenOperands, Operation.name]
  | group envs =>
    change ("group " ++ asOperand envs envs.display).toList = _
    simp [writtenOperands, Operation.name]
  | groupAll envs =>
    change ("group [" ++ " ".intercalate (displayAll envs) ++ "]").toList =
      Operation.group.name.toList ++ ' ' ::
        ("[" ++ " ".intercalate (displayAll envs) ++ "]").toList ++ []
    simp [Operation.name]
  | isVisibleFrom referenced base =>
    change ("is_visible_from " ++ asOperand referenced referenced.display ++ " " ++
      asOperand base base.display).toList = _
    simp [writtenOperands, Operation.name]
  | envNode e =>
    change ("env_node " ++ asOperand e e.display).toList = _
    simp [writtenOperands, Operation.name]

theorem field_mem_nodes (h : WrittenAs e op xs) {x receiver : Expr} {name : String} (hx : x ∈ xs)
    (hn : field receiver name ∈ x.nodes) : field receiver name ∈ e.nodes := by
  cases h with
  | lookup | recursive | evalInEnv | orphan | group | groupAll | isVisibleFrom | envNode =>
    simp only [List.mem_cons, List.not_mem_nil, or_false] at hx
    grind [nodes, ofBool]

end WrittenAs

/-- Induction over the written form: what holds of constants, words, field accesses and arrays, and
of an operation whenever it holds of its operands, holds of every expression. -/
@[elab_as_elim]
theorem written_induction {P : Expr → Prop} (literal : ∀ value, P (literal value))
    (word : ∀ p ∈ constants, P p.2) (field : ∀ receiver name, P receiver → P (field receiver name))
    (array : ∀ elements, (∀ x ∈ elements, P x) → P (array elements))
    (operation : ∀ e op xs, WrittenAs e op xs → (∀ x ∈ xs, P x) → P e) (e : Expr) : P e := by
  have ih (x : Expr) (_ : sizeOf x < sizeOf e) : P x :=
    written_induction literal word field array operation x
  have one {e op x} (hw : WrittenAs e op [x]) (hx : P x) : P e :=
    operation e op [x] hw (List.forall_mem_singleton.mpr hx)
  have two {e op x y} (hw : WrittenAs e op [x, y]) (hx : P x) (hy : P y) : P e :=
    operation e op [x, y] hw (List.forall_mem_cons.mpr ⟨hx, List.forall_mem_singleton.mpr hy⟩)
  match e with
  | .literal value => exact literal value
  | .self => exact word ("Self", .self) (by simp [constants])
  | .env => exact word ("Env", .env) (by simp [constants])
  | .emptyEnv => exact word ("EmptyEnv", .emptyEnv) (by simp [constants])
  | .field receiver name =>
    rw [Expr.field.sizeOf_spec] at ih
    exact field receiver name (ih receiver (by omega))
  | .array elements =>
    rw [Expr.array.sizeOf_spec] at ih
    refine array elements fun x hx => ih x ?_
    have hlt := List.sizeOf_lt_of_mem hx
    omega
  | .lookup e key flag sequential unique =>
    rw [lookup.sizeOf_spec] at ih
    -- With another flag the same lookup with the flag `true` is an operand, though it is no part.
    have hcall : P (.lookup e key (ofBool true) sequential unique) :=
      two (.lookup e key sequential unique) (ih e (by omega)) (ih key (by omega))
    cases hflag : flag.isTrue with
    | false => exact two (.recursive e key sequential unique hflag) hcall (ih flag (by omega))
    | true => exact isTrue_iff.mp hflag ▸ hcall
  | .evalInEnv e body =>
    rw [evalInEnv.sizeOf_spec] at ih
    exact two (.evalInEnv e body) (ih e (by omega)) (ih body (by omega))
  | .orphan e =>
    rw [orphan.sizeOf_spec] at ih
    exact one (.orphan e) (ih e (by omega))
  | .group envs =>
    rw [group.sizeOf_spec] at ih
    exact one (.group envs) (ih envs (by omega))
  | .groupAll envs =>
    rw [groupAll.sizeOf_spec] at ih
    refine one (.groupAll envs) (array envs fun x hx => ih x ?_)
    have hlt := List.sizeOf_lt_of_mem hx
    omega
  | .isVisibleFrom referenced base =>
    rw [isVisibleFrom.sizeOf_spec] at ih
    exact two (.isVisibleFrom referenced base) (ih referenced (by omega)) (ih base (by omega))
  | .envNode e =>
    rw [envNode.sizeOf_spec] at ih
    exact one (.envNode e) (ih e (by omega))
termination_by sizeOf e

end FrontEnd.Expr
