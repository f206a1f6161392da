import FrontEnd.Expr.Printer
import FrontEnd.Hierarchy
import FrontEnd.Property.Resolved

/-!
Typing of expressions. An expression is given a type against a hierarchy and the scope that a
session stands in, and the locals and array types that it needs are gathered on the way; what was
gathered stays when typing fails.
-/
namespace FrontEnd

inductive TypingFault where
  | mismatch (expected actual : Ty) (shown : String)
  | noAmbientEnv
  | fieldOfNonNode (field : String) (ty : Ty)
  | noSuchField (node field : String)
  | emptyArray
  | incompatibleElements (first second : Ty)
  | selfOutsideProperty
  /-- A lookup key is no symbol or token; an empty array literal has no type to tell. -/
  | lookupKey (actual : Option Ty)
  | unknownOwner (owner : String)
  | tooDeep
  | noRoot
  | undeclared (node : String)
  deriving DecidableEq

namespace TypingFault

def finding : TypingFault → Diagnostic
  | mismatch expected actual shown =>
    .error "E0201" ("expected type " ++ expected.display ++ ", got " ++ actual.display ++
      " for expression `" ++ shown ++ "`")
  | noAmbientEnv =>
    .error "E0202" ("This property has no implicit environment parameter: please use the " ++
      "eval_in_env construct to bind an environment first.")
  | fieldOfNonNode field ty =>
    .error "E0203" ("cannot access field " ++ field ++ " on a value of type " ++ ty.display)
  | noSuchField node field => .error "E0204" ("node type " ++ node ++ " has no field " ++ field)
  | emptyArray => .error "E0205" "cannot infer the element type of an empty array"
  | incompatibleElements first second =>
    .error "E0205" ("array elements have incompatible types " ++ first.display ++ " and " ++
      second.display)
  | selfOutsideProperty => .error "E0206" "Self is only available inside a property"
  | lookupKey actual =>
    .error "E0207" ("wrong type for lookup key: expected Symbol or Token, got " ++
      actual.elim "an empty array" Ty.display)
  | unknownOwner owner => .error "E0208" ("unknown owner node type " ++ owner)
  | tooDeep => .error "E0209" s!"expression nested more than {Expr.maxNesting} levels deep"
  | noRoot => .error "E0213" "no root node type is declared"
  | undeclared node => undeclaredNode node

end TypingFault

/-- What typing gathers: the locals made, and the array types met, each once. -/
structure Gathered where
  locals : Locals := {}
  arrayTypes : List Ty := []

namespace Gathered

def recordArray (g : Gathered) (ty : Ty) : Gathered :=
  if g.arrayTypes.contains ty then g else { g with arrayTypes := g.arrayTypes ++ [ty] }

def addLocal (g : Gathered) (stem : String) (ty : Ty) : Gathered :=
  { g with locals := g.locals.create stem ty }

end Gathered

structure Session where
  scope : Scope := {}
  /-- The surroundings outside each open scope, innermost first. -/
  outer : List Scope := []
  /-- How many expressions are being typed, one inside the other. -/
  depth : Nat := 0
  gathered : Gathered := {}

namespace Session

def enter (s : Session) (opening : Opening) : Session :=
  { s with scope := opening.apply s.scope, outer := s.scope :: s.outer }

def leave (s : Session) : Session :=
  match s.outer with
  | [] => s
  | scope :: outer => { s with scope, outer }

end Session

/-- A step of typing, which may fail and keeps what was gathered either way. -/
abbrev Construction := ExceptT TypingFault (StateM Session)

namespace Construction

def orFail {α : Type} (fault : TypingFault) : Option α → Construction α
  | some a => pure a
  | none => throw fault

def deeper {α : Type} (body : Construction α) : Construction α := ExceptT.mk do
  modify fun s => { s with depth := s.depth + 1 }
  let r ← body.run
  modify fun s => { s with depth := s.depth - 1 }
  pure r

/-- Does `body` inside a scope, which is left whatever becomes of `body`. -/
def within {α : Type} (opening : Opening) (body : Construction α) : Construction α :=
  ExceptT.mk do
    modify (·.enter opening)
    let r ← body.run
    modify Session.leave
    pure r

def recordArray (ty : Ty) : Construction Unit :=
  modify fun s => { s with gathered := s.gathered.recordArray ty }

def newLocal (stem : String) (ty : Ty) : Construction Local := do
  let l := (← get).gathered.locals.next stem ty
  modify fun s => { s with gathered := s.gathered.addLocal stem ty }
  pure l

/-- A call whose value is held by a new local. -/
def heldCall (callee stem : String) (args : List Resolved) (ty : Ty) : Construction Resolved := do
  let l ← newLocal stem ty
  pure (.call ⟨ty, some l⟩ callee args)

/-- The type of a constant; a text is the symbol it spells. -/
def literalTy : Literal → Ty
  | .bool _ => .bool
  | .int _ => .int
  | .text _ => .symbol

def selfNode : Construction Resolved := do
  let p ← orFail .selfOutsideProperty (← get).scope.property
  pure (.var ⟨.node p.owner, none⟩ "Self")

def ambientEnv : Construction Resolved := do
  let scope := (← get).scope
  if scope.hasAmbientEnv then pure (.var ⟨.lexicalEnv, none⟩ scope.envName)
  else throw .noAmbientEnv

def expect (h : Hierarchy) (expected : Option Ty) (e : Expr) (r : Resolved) :
    Construction Resolved :=
  match expected with
  | none => pure r
  | some ty => if h.isSubtype r.ty ty then pure r else throw (.mismatch ty r.ty e.display)

/-- Types `e` by `body`, one level deeper if there is one, and compares the outcome with what is
expected. -/
def nested (h : Hierarchy) (e : Expr) (expected : Option Ty) (body : Construction Resolved) :
    Construction Resolved := do
  if (← get).depth < Expr.maxNesting then expect h expected e (← deeper body)
  else throw .tooDeep

def elementTy (h : Hierarchy) : List Resolved → Construction Ty
  | [] => throw .emptyArray
  | r :: rs => rs.foldlM (fun ty r =>
      orFail (.incompatibleElements ty r.ty) (h.leastCommonSupertype? ty r.ty)) r.ty

/-- An array of typed elements, whose element type is the expected one or else inferred. -/
def arrayOf (h : Hierarchy) (expected : Option Ty) (elements : List Resolved) :
    Construction Resolved := do
  let ty ← match expected with
    | some ty => pure ty
    | none => elementTy h elements
  recordArray (.array ty)
  pure (.array ⟨.array ty, none⟩ elements ty)

/-- The symbol of a lookup key; a token stands for the symbol it carries. -/
def keySymbol (key : Resolved) : Construction Resolved :=
  match key.ty with
  | .symbol => pure key
  | .token => pure (.getSymbol ⟨.symbol, none⟩ key)
  | other => throw (.lookupKey (some other))

/-- The node before which the entries of a sequential lookup were made. -/
def boundaryNode (h : Hierarchy) (sequential : Bool) : Construction (Option Resolved) :=
  if sequential then do
    let root ← orFail .noRoot h.root?
    some <$> nested h .self (some root) selfNode
  else pure none

/-- The type of a lookup's value; that of several entries is remembered. -/
def lookupTy (unique : Bool) : Construction Ty :=
  if unique then pure .envElement
  else do
    recordArray (.array .envElement)
    pure (.array .envElement)

/-- Stops at an array literal without elements, which is no lookup key. -/
def checkKey : Expr → Construction Unit
  | .array [] => throw (.lookupKey none)
  | _ => pure ()

mutual

/-- Types an expression, against an expected type if there is one. -/
def construct (h : Hierarchy) (e : Expr) (expected : Option Ty) : Construction Resolved :=
  nested h e expected <|
    match e with
    | .literal value => pure (.literal ⟨literalTy value, none⟩ value)
    | .self => selfNode
    | .env => ambientEnv
    | .emptyEnv => pure (.var ⟨.lexicalEnv, none⟩ Scope.emptyEnvName)
    | .field receiver name => do
      let receiver ← construct h receiver none
      match receiver.ty with
      | .node node =>
        let ty ← orFail (.noSuchField node name) (h.fieldType? node name)
        pure (.field ⟨ty, none⟩ receiver name)
      | other => throw (.fieldOfNonNode name other)
    | .array elements => do
      let element := expected.bind Ty.element?
      arrayOf h element (← constructAll h elements element)
    | .lookup e key recursive sequential unique => do
      checkKey key
      let key ← construct h key none >>= keySymbol
      let e ← construct h e (some .lexicalEnv)
      let boundary ← boundaryNode h sequential
      let recursive ← construct h recursive (some .bool)
      let ty ← lookupTy unique
      let result ← newLocal "Env_Get_Result" ty
      pure (.lookup ⟨ty, some result⟩ e key boundary recursive unique)
    | .evalInEnv e body => do
      let e ← construct h e (some .lexicalEnv)
      let var ← newLocal "New_Env" .lexicalEnv
      let body ← within (.bindName var.name) (construct h body none)
      pure (.bind ⟨body.ty, none⟩ e var body)
    | .orphan e => do
      let e ← construct h e (some .lexicalEnv)
      heldCall "AST_Envs.Orphan" "Orphan_Env" [e] .lexicalEnv
    | .group envs => do
      let envs ← construct h envs (some (.array .lexicalEnv))
      heldCall "Group" "Group_Env" [envs] .lexicalEnv
    | .groupAll envs => do
      let envs ← constructAll h envs (some .lexicalEnv)
      let envs ← arrayOf h (some .lexicalEnv) envs
      heldCall "Group" "Group_Env" [envs] .lexicalEnv
    | .isVisibleFrom referenced base => do
      let base ← construct h base (some .lexicalEnv)
      let referenced ← construct h referenced (some .lexicalEnv)
      pure (.call ⟨.bool, none⟩ "Is_Visible_From" [base, referenced])
    | .envNode e => do
      let e ← construct h e (some .lexicalEnv)
      let root ← orFail .noRoot h.root?
      pure (.envNode ⟨root, none⟩ e)

def constructAll (h : Hierarchy) (es : List Expr) (expected : Option Ty) :
    Construction (List Resolved) :=
  match es with
  | [] => pure []
  | e :: es => do
    let r ← construct h e expected
    let rs ← constructAll h es expected
    pure (r :: rs)

end

end Construction

/-- A property as declared: its signature, its result type if told, and its body. -/
structure PropertyDecl where
  signature : Signature
  ty : Option Ty
  body : Expr

namespace PropertyDecl

def context (p : PropertyDecl) : String := "property " ++ p.signature.qualifiedName

/-- The first fault that shows before the body is looked at. -/
def headFault? (h : Hierarchy) (p : PropertyDecl) : Option TypingFault :=
  if (h.node? p.signature.owner).isNone then some (.unknownOwner p.signature.owner)
  else (p.ty.bind h.undeclared?).map .undeclared

def construct (h : Hierarchy) (p : PropertyDecl) : Except TypingFault Property :=
  match p.headFault? h with
  | some fault => .error fault
  | none =>
    let body := Construction.within (.bindDefault p.signature)
      (Construction.construct h p.body p.ty)
    match body.run {} with
    | (.error fault, _) => .error fault
    | (.ok body, s) => .ok ⟨p.signature, body, s.gathered.locals.toList, s.gathered.arrayTypes⟩

def check (h : Hierarchy) (p : PropertyDecl) : Except Error Property :=
  match p.construct h with
  | .ok property => .ok property
  | .error fault => .error (.typing (fault.finding.inContext p.context))

end PropertyDecl

end FrontEnd
