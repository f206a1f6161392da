import FrontEnd.Property.Construction

/-!
The rules of typing, one for each kind of expression. They say what an expression becomes in a
scope and how what is gathered is threaded through its parts; sessions, open scopes and nesting
depths do not occur in them.
-/
namespace FrontEnd

/-- A type is fit where another one is expected, and any type is where none is. -/
def Hierarchy.Fits (h : Hierarchy) (ty : Ty) (expected : Option Ty) : Prop :=
  ∀ t ∈ expected, h.isSubtype ty t = true

/-- The type above all listed types that joining them from left to right leads to. -/
def Hierarchy.lowestAbove? (h : Hierarchy) : List Ty → Option Ty
  | [] => none
  | ty :: tys => tys.foldlM h.leastCommonSupertype? ty

/-- The element type of an array: the expected one, or else the lowest one above all elements. -/
def Hierarchy.ElementTy (h : Hierarchy) (expected : Option Ty) (elements : List Resolved)
    (ty : Ty) : Prop :=
  match expected with
  | some t => t = ty
  | none => h.lowestAbove? (elements.map Resolved.ty) = some ty

/-- What the key of a lookup is taken for. -/
inductive KeySymbol : Resolved → Resolved → Prop
  | symbol {key : Resolved} (hk : key.ty = .symbol) : KeySymbol key key
  | token {key : Resolved} (hk : key.ty = .token) :
    KeySymbol key (.getSymbol ⟨.symbol, none⟩ key)

/-- The boundary of a lookup, sequential or not. -/
inductive Boundary (h : Hierarchy) (scope : Scope) : Bool → Option Resolved → Prop
  | none : Boundary h scope false none
  | self {p : Signature} {root : Ty} (hp : scope.property = some p) (hr : h.root? = some root)
    (hs : h.isSubtype (.node p.owner) root = true) :
    Boundary h scope true (some (.var ⟨.node p.owner, none⟩ "Self"))

def lookupValueTy (unique : Bool) : Ty := if unique then .envElement else .array .envElement

def Gathered.recordLookup (g : Gathered) (unique : Bool) : Gathered :=
  if unique then g else g.recordArray (.array .envElement)

def Session.gathering (s : Session) (g : Gathered) : Session := { s with gathered := g }

mutual

/-- With `g` gathered so far, the expression `e` becomes `r` in the scope, which is fit for what is
expected, and `g'` is gathered then. -/
inductive Constructs (h : Hierarchy) :
    Scope → Option Ty → Gathered → Expr → Resolved → Gathered → Prop
  | fits {scope expected g g' e r} (hn : ConstructsNode h scope expected g e r g')
    (hf : h.Fits r.ty expected) :
    Constructs h scope expected g e r g'

/-- What an expression becomes, before its type is compared with the expected one. Only an array
literal looks at what is expected. -/
inductive ConstructsNode (h : Hierarchy) :
    Scope → Option Ty → Gathered → Expr → Resolved → Gathered → Prop
  | literal {scope expected g} (v : Literal) :
    ConstructsNode h scope expected g (.literal v)
      (.literal ⟨Construction.literalTy v, none⟩ v) g
  | self {scope expected g p} (hp : scope.property = some p) :
    ConstructsNode h scope expected g .self (.var ⟨.node p.owner, none⟩ "Self") g
  | env {scope expected g} (ha : scope.hasAmbientEnv = true) :
    ConstructsNode h scope expected g .env (.var ⟨.lexicalEnv, none⟩ scope.envName) g
  | emptyEnv {scope expected g} :
    ConstructsNode h scope expected g .emptyEnv
      (.var ⟨.lexicalEnv, none⟩ Scope.emptyEnvName) g
  | field {scope expected g g' receiver name node ty r}
    (hr : Constructs h scope none g receiver r g') (hn : r.ty = .node node)
    (hf : h.fieldType? node name = some ty) :
    ConstructsNode h scope expected g (.field receiver name) (.field ⟨ty, none⟩ r name) g'
  | array {scope expected g g' es rs ty}
    (hes : ConstructsAll h scope (expected.bind Ty.element?) g es rs g')
    (ht : h.ElementTy (expected.bind Ty.element?) rs ty) :
    ConstructsNode h scope expected g (.array es) (.array ⟨.array ty, none⟩ rs ty)
      (g'.recordArray (.array ty))
  | lookup {scope expected g g₁ g₂ g₃ g₄ e key recursive sequential unique r k k' c b}
    (h₀ : key ≠ .array [])
    (hk : Constructs h scope none g key k g₁) (hs : KeySymbol k k')
    (he : Constructs h scope (some .lexicalEnv) g₁ e r g₂) (hb : Boundary h scope sequential b)
    (hc : Constructs h scope (some .bool) g₂ recursive c g₃)
    (hg : g₄ = g₃.recordLookup unique) :
    ConstructsNode h scope expected g (.lookup e key recursive sequential unique)
      (.lookup ⟨lookupValueTy unique,
        some (g₄.locals.next "Env_Get_Result" (lookupValueTy unique))⟩ r k' b c unique)
      (g₄.addLocal "Env_Get_Result" (lookupValueTy unique))
  | evalInEnv {scope expected g g₁ g₂ e body r b x}
    (he : Constructs h scope (some .lexicalEnv) g e r g₁)
    (hx : x = g₁.locals.next "New_Env" .lexicalEnv)
    (hb : Constructs h (scope.bindName x.name) none (g₁.addLocal "New_Env" .lexicalEnv) body b g₂) :
    ConstructsNode h scope expected g (.evalInEnv e body) (.bind ⟨b.ty, none⟩ r x b) g₂
  | orphan {scope expected g g₁ e r} (he : Constructs h scope (some .lexicalEnv) g e r g₁) :
    ConstructsNode h scope expected g (.orphan e)
      (.call ⟨.lexicalEnv, some (g₁.locals.next "Orphan_Env" .lexicalEnv)⟩ "AST_Envs.Orphan" [r])
      (g₁.addLocal "Orphan_Env" .lexicalEnv)
  | group {scope expected g g₁ envs r}
    (he : Constructs h scope (some (.array .lexicalEnv)) g envs r g₁) :
    ConstructsNode h scope expected g (.group envs)
      (.call ⟨.lexicalEnv, some (g₁.locals.next "Group_Env" .lexicalEnv)⟩ "Group" [r])
      (g₁.addLocal "Group_Env" .lexicalEnv)
  | groupAll {scope expected g g₁ g₂ envs rs}
    (he : ConstructsAll h scope (some .lexicalEnv) g envs rs g₁)
    (hg : g₂ = g₁.recordArray (.array .lexicalEnv)) :
    ConstructsNode h scope expected g (.groupAll envs)
      (.call ⟨.lexicalEnv, some (g₂.locals.next "Group_Env" .lexicalEnv)⟩ "Group"
        [.array ⟨.array .lexicalEnv, none⟩ rs .lexicalEnv])
      (g₂.addLocal "Group_Env" .lexicalEnv)
  | isVisibleFrom {scope expected g g₁ g₂ referenced base r b}
    (hb : Constructs h scope (some .lexicalEnv) g base b g₁)
    (hr : Constructs h scope (some .lexicalEnv) g₁ referenced r g₂) :
    ConstructsNode h scope expected g (.isVisibleFrom referenced base)
      (.call ⟨.bool, none⟩ "Is_Visible_From" [b, r]) g₂
  | envNode {scope expected g g₁ e r root} (he : Constructs h scope (some .lexicalEnv) g e r g₁)
    (hr : h.root? = some root) :
    ConstructsNode h scope expected g (.envNode e) (.envNode ⟨root, none⟩ r) g₁

inductive ConstructsAll (h : Hierarchy) :
    Scope → Option Ty → Gathered → List Expr → List Resolved → Gathered → Prop
  | nil {scope expected g} : ConstructsAll h scope expected g [] [] g
  | cons {scope expected g g₁ g₂ e es r rs} (he : Constructs h scope expected g e r g₁)
    (hes : ConstructsAll h scope expected g₁ es rs g₂) :
    ConstructsAll h scope expected g (e :: es) (r :: rs) g₂

end

/-- The scope belongs to a property, and its environment variable is no constant of generated
code. -/
structure Scope.Inside (scope : Scope) (p : Signature) : Prop where
  property : scope.property = some p
  ne_self : scope.envName ≠ "Self"
  ne_emptyEnv : scope.envName ≠ Scope.emptyEnvName

theorem Locals.next_name_ne (ls : Locals) {stem name : String} (ty : Ty) {c : Char}
    (hs : stem.toList.head? = some c) (hn : name.toList.head? ≠ some c) :
    (ls.next stem ty).name ≠ name := by
  intro he
  apply hn
  rw [← he]
  simp [next, List.head?_append, hs]

namespace Scope

theorem inside_bindDefault (p : Signature) : (({} : Scope).bindDefault p).Inside p := by
  have hself : parameterName ≠ "Self" := by decide
  have hempty : parameterName ≠ emptyEnvName := by decide
  unfold bindDefault
  split
  · exact ⟨rfl, hself, hempty⟩
  · exact ⟨rfl, hself, hempty⟩

theorem Inside.bindName {scope : Scope} {p : Signature} (hs : scope.Inside p) (ls : Locals) :
    (scope.bindName (ls.next "New_Env" .lexicalEnv).name).Inside p :=
  ⟨hs.property, ls.next_name_ne .lexicalEnv rfl (by decide),
    ls.next_name_ne .lexicalEnv rfl (by decide)⟩

end Scope

end FrontEnd
