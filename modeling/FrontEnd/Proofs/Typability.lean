import FrontEnd.Proofs.CommonSupertypes
import FrontEnd.Proofs.TypingCompleteness

namespace FrontEnd

mutual

/-- The expression has the type, which is fit for what is expected. Inside nodes of type `owner`,
`env` says whether there is an ambient environment. -/
inductive HasType (h : Hierarchy) (owner : String) : Bool → Option Ty → Expr → Ty → Prop
  | fits {env expected e ty} (ht : HasOwnType h owner env expected e ty)
    (hf : h.Fits ty expected) :
    HasType h owner env expected e ty

/-- The expression has the type, before that is compared with the expected one. Only an array
literal looks at what is expected, for its elements. -/
inductive HasOwnType (h : Hierarchy) (owner : String) : Bool → Option Ty → Expr → Ty → Prop
  | literal {env expected} (v : Literal) :
    HasOwnType h owner env expected (.literal v) (Construction.literalTy v)
  | self {env expected} : HasOwnType h owner env expected .self (.node owner)
  | env {env expected} (ha : env = true) : HasOwnType h owner env expected .env .lexicalEnv
  | emptyEnv {env expected} : HasOwnType h owner env expected .emptyEnv .lexicalEnv
  | field {env expected receiver name node ty}
    (hr : HasType h owner env none receiver (.node node)) (hf : h.fieldType? node name = some ty) :
    HasOwnType h owner env expected (.field receiver name) ty
  | arrayOf {env expected es tys ty} (hx : expected = some (.array ty))
    (hes : HasTypes h owner env (some ty) es tys) :
    HasOwnType h owner env expected (.array es) (.array ty)
  | array {env expected es tys ty} (hx : ∀ t, expected ≠ some (.array t))
    (hes : HasTypes h owner env none es tys) (hne : tys ≠ []) (hl : h.LeastAbove tys ty) :
    HasOwnType h owner env expected (.array es) (.array ty)
  | lookup {env expected e key recursive sequential unique envTy keyTy flagTy}
    (hne : key ≠ .array []) (hk : HasType h owner env none key keyTy)
    (hs : keyTy = .symbol ∨ keyTy = .token)
    (he : HasType h owner env (some .lexicalEnv) e envTy)
    (hr : HasType h owner env (some .bool) recursive flagTy) :
    HasOwnType h owner env expected (.lookup e key recursive sequential unique)
      (lookupValueTy unique)
  | evalInEnv {env expected e body envTy ty} (he : HasType h owner env (some .lexicalEnv) e envTy)
    (hb : HasType h owner true none body ty) :
    HasOwnType h owner env expected (.evalInEnv e body) ty
  | orphan {env expected e envTy} (he : HasType h owner env (some .lexicalEnv) e envTy) :
    HasOwnType h owner env expected (.orphan e) .lexicalEnv
  | group {env expected envs envsTy}
    (he : HasType h owner env (some (.array .lexicalEnv)) envs envsTy) :
    HasOwnType h owner env expected (.group envs) .lexicalEnv
  | groupAll {env expected envs tys} (hes : HasTypes h owner env (some .lexicalEnv) envs tys) :
    HasOwnType h owner env expected (.groupAll envs) .lexicalEnv
  | isVisibleFrom {env expected referenced base referencedTy baseTy}
    (hr : HasType h owner env (some .lexicalEnv) referenced referencedTy)
    (hb : HasType h owner env (some .lexicalEnv) base baseTy) :
    HasOwnType h owner env expected (.isVisibleFrom referenced base) .bool
  | envNode {env expected e envTy root} (he : HasType h owner env (some .lexicalEnv) e envTy)
    (hr : h.root? = some root) :
    HasOwnType h owner env expected (.envNode e) root

inductive HasTypes (h : Hierarchy) (owner : String) :
    Bool → Option Ty → List Expr → List Ty → Prop
  | nil {env expected} : HasTypes h owner env expected [] []
  | cons {env expected e es ty tys} (he : HasType h owner env expected e ty)
    (hes : HasTypes h owner env expected es tys) :
    HasTypes h owner env expected (e :: es) (ty :: tys)

end

structure Scope.Shows (scope : Scope) (owner : String) (env : Bool) : Prop where
  owner : scope.property.map (·.owner) = some owner
  env : scope.hasAmbientEnv = env

theorem Scope.Shows.bindName {scope : Scope} {owner : String} {env : Bool}
    (hs : scope.Shows owner env) (name : String) : (scope.bindName name).Shows owner true :=
  ⟨hs.owner, Bool.or_true _⟩

theorem Scope.shows_bindDefault (p : Signature) :
    (({} : Scope).bindDefault p).Shows p.owner p.hasImplicitEnv := by
  unfold bindDefault
  split
  case isTrue henv => exact ⟨rfl, by simp [hasAmbientEnv, henv]⟩
  case isFalse henv => exact ⟨rfl, by simp [hasAmbientEnv, henv]⟩

variable {h : Hierarchy} {owner : String}

theorem exists_keySymbol_iff {k : Resolved} :
    (∃ k', KeySymbol k k') ↔ k.ty = .symbol ∨ k.ty = .token := by
  constructor
  · intro hx
    obtain ⟨k', hs⟩ := hx
    cases hs with
    | symbol hk => exact .inl hk
    | token hk => exact .inr hk
  · intro hk
    rcases hk with hk | hk
    · exact ⟨k, .symbol hk⟩
    · exact ⟨_, .token hk⟩

theorem Scope.Shows.owner_eq {scope : Scope} {env : Bool} (hs : scope.Shows owner env)
    {p : Signature} (hp : scope.property = some p) : p.owner = owner := by
  have ho := hs.owner
  rw [hp] at ho
  exact Option.some.inj ho

theorem element_eq_some_iff {expected : Option Ty} {ty : Ty} :
    expected.bind Ty.element? = some ty ↔ expected = some (.array ty) := by
  constructor
  · intro hx
    obtain ⟨t, rfl, ht⟩ := Option.bind_eq_some_iff.mp hx
    cases t <;> cases ht
    rfl
  · intro hx
    rw [hx]
    rfl

theorem element_eq_none_iff {expected : Option Ty} :
    expected.bind Ty.element? = none ↔ ∀ ty, expected ≠ some (.array ty) := by
  rw [Option.eq_none_iff_forall_ne_some]
  exact forall_congr' fun ty => not_congr element_eq_some_iff

mutual

theorem Constructs.hasType {scope : Scope} {env : Bool} {expected : Option Ty} {g g' : Gathered}
    {e : Expr} {r : Resolved} (hc : Constructs h scope expected g e r g')
    (hs : scope.Shows owner env) : HasType h owner env expected e r.ty := by
  match hc with
  | .fits hn hf => exact .fits (hn.hasOwnType hs) hf

theorem ConstructsNode.hasOwnType {scope : Scope} {env : Bool} {expected : Option Ty}
    {g g' : Gathered} {e : Expr} {r : Resolved} (hc : ConstructsNode h scope expected g e r g')
    (hs : scope.Shows owner env) : HasOwnType h owner env expected e r.ty := by
  match hc with
  | .literal v => exact .literal v
  | .self hp =>
    rw [← hs.owner_eq hp]
    exact .self
  | .env ha => exact .env (hs.env ▸ ha)
  | .emptyEnv => exact .emptyEnv
  | .field hr hn hf =>
    have hr' := hr.hasType hs
    rw [hn] at hr'
    exact .field hr' hf
  | .array hes ht =>
    have hes' := hes.hasTypes hs
    -- The elements are typed against an expected element type, or joined where there is none.
    cases hx : expected.bind Ty.element? with
    | none =>
      rw [hx] at hes' ht
      obtain ⟨hne, hl⟩ := Hierarchy.lowestAbove_eq_some_iff.mp ht
      exact .array (element_eq_none_iff.mp hx) hes' hne hl
    | some t =>
      rw [hx] at hes' ht
      obtain rfl : t = _ := ht
      exact .arrayOf (element_eq_some_iff.mp hx) hes'
  | .lookup h₀ hk hsym he _ hc _ =>
    have hkey := exists_keySymbol_iff.mp ⟨_, hsym⟩
    exact .lookup h₀ (hk.hasType hs) hkey (he.hasType hs) (hc.hasType hs)
  | .evalInEnv he _ hb => exact .evalInEnv (he.hasType hs) (hb.hasType (hs.bindName _))
  | .orphan he => exact .orphan (he.hasType hs)
  | .group he => exact .group (he.hasType hs)
  | .groupAll hes _ => exact .groupAll (hes.hasTypes hs)
  | .isVisibleFrom hb hr => exact .isVisibleFrom (hr.hasType hs) (hb.hasType hs)
  | .envNode he hr => exact .envNode (he.hasType hs) hr

theorem ConstructsAll.hasTypes {scope : Scope} {env : Bool} {expected : Option Ty}
    {g g' : Gathered} {es : List Expr} {rs : List Resolved}
    (hc : ConstructsAll h scope expected g es rs g') (hs : scope.Shows owner env) :
    HasTypes h owner env expected es (rs.map Resolved.ty) := by
  match hc with
  | .nil => exact .nil
  | .cons he hes => exact .cons (he.hasType hs) (hes.hasTypes hs)

end

theorem exists_boundary {scope : Scope} {env : Bool} (hs : scope.Shows owner env)
    (ho : (h.node? owner).isSome = true) (sequential : Bool) :
    ∃ b, Boundary h scope sequential b := by
  cases sequential with
  | false => exact ⟨none, .none⟩
  | true =>
    obtain ⟨p, hp, hname⟩ := Option.map_eq_some_iff.mp hs.owner
    obtain ⟨root, hroot, hsub⟩ := Hierarchy.root_above ho
    exact ⟨_, .self hp hroot (hname ▸ hsub)⟩

mutual

/-- What has a type by the rules is derived with a typed expression of that type, whatever has been
gathered before. -/
theorem HasType.derived {env : Bool} {expected : Option Ty} {e : Expr} {ty : Ty}
    (ht : HasType h owner env expected e ty) (ho : (h.node? owner).isSome = true) {scope : Scope}
    (hs : scope.Shows owner env) (g : Gathered) :
    ∃ r g', Constructs h scope expected g e r g' ∧ r.ty = ty := by
  match ht with
  | .fits hown hf =>
    obtain ⟨r, g', hn, rfl⟩ := hown.derived ho hs g
    exact ⟨r, g', .fits hn hf, rfl⟩

theorem HasOwnType.derived {env : Bool} {expected : Option Ty} {e : Expr} {ty : Ty}
    (ht : HasOwnType h owner env expected e ty) (ho : (h.node? owner).isSome = true) {scope : Scope}
    (hs : scope.Shows owner env) (g : Gathered) :
    ∃ r g', ConstructsNode h scope expected g e r g' ∧ r.ty = ty := by
  match ht with
  | .literal v => exact ⟨_, _, .literal v, rfl⟩
  | .self =>
    obtain ⟨p, hp, hname⟩ := Option.map_eq_some_iff.mp hs.owner
    exact ⟨_, _, .self hp, congrArg Ty.node hname⟩
  | .env ha => exact ⟨_, _, .env (hs.env.trans ha), rfl⟩
  | .emptyEnv => exact ⟨_, _, .emptyEnv, rfl⟩
  | .field hr hf =>
    obtain ⟨r, g', hr', hty⟩ := hr.derived ho hs g
    exact ⟨_, _, .field hr' hty hf, rfl⟩
  | .arrayOf hx hes =>
    obtain ⟨rs, g', hrs, -⟩ := hes.derived ho hs g
    rw [← element_eq_some_iff.mpr hx] at hrs
    exact ⟨_, _, .array hrs (by rw [element_eq_some_iff.mpr hx]; rfl), rfl⟩
  | .array hx hes hne hl =>
    obtain ⟨rs, g', hrs, htys⟩ := hes.derived ho hs g
    have helement := element_eq_none_iff.mpr hx
    rw [← helement] at hrs
    refine ⟨_, _, .array hrs ?_, rfl⟩
    rw [helement]
    exact Hierarchy.lowestAbove_eq_some_iff.mpr (htys ▸ ⟨hne, hl⟩)
  | .lookup hne hk hsym he hr =>
    -- The boundary has no rule of its own: the owner is declared, so it stands below the root.
    obtain ⟨k, g₁, hk', hkty⟩ := hk.derived ho hs g
    obtain ⟨k', hsym'⟩ := exists_keySymbol_iff.mpr (hkty ▸ hsym)
    obtain ⟨r, g₂, he', -⟩ := he.derived ho hs g₁
    obtain ⟨b, hb⟩ := exists_boundary hs ho _
    obtain ⟨c, g₃, hc', -⟩ := hr.derived ho hs g₂
    exact ⟨_, _, .lookup hne hk' hsym' he' hb hc' rfl, rfl⟩
  | .evalInEnv he hb =>
    obtain ⟨r, g₁, he', -⟩ := he.derived ho hs g
    obtain ⟨b, g₂, hb', hty⟩ := hb.derived ho (hs.bindName _) (g₁.addLocal "New_Env" .lexicalEnv)
    exact ⟨_, _, .evalInEnv he' rfl hb', hty⟩
  | .orphan he =>
    obtain ⟨r, g₁, he', -⟩ := he.derived ho hs g
    exact ⟨_, _, .orphan he', rfl⟩
  | .group he =>
    obtain ⟨r, g₁, he', -⟩ := he.derived ho hs g
    exact ⟨_, _, .group he', rfl⟩
  | .groupAll hes =>
    obtain ⟨rs, g₁, hes', -⟩ := hes.derived ho hs g
    exact ⟨_, _, .groupAll hes' rfl, rfl⟩
  | .isVisibleFrom hr hb =>
    obtain ⟨b, g₁, hb', -⟩ := hb.derived ho hs g
    obtain ⟨r, g₂, hr', -⟩ := hr.derived ho hs g₁
    exact ⟨_, _, .isVisibleFrom hb' hr', rfl⟩
  | .envNode he hroot =>
    obtain ⟨r, g₁, he', -⟩ := he.derived ho hs g
    exact ⟨_, _, .envNode he' hroot, rfl⟩

theorem HasTypes.derived {env : Bool} {expected : Option Ty} {es : List Expr} {tys : List Ty}
    (ht : HasTypes h owner env expected es tys) (ho : (h.node? owner).isSome = true) {scope : Scope}
    (hs : scope.Shows owner env) (g : Gathered) :
    ∃ rs g', ConstructsAll h scope expected g es rs g' ∧ rs.map Resolved.ty = tys := by
  match ht with
  | .nil => exact ⟨[], g, .nil, rfl⟩
  | .cons he hes =>
    obtain ⟨r, g₁, he', rfl⟩ := he.derived ho hs g
    obtain ⟨rs, g₂, hes', rfl⟩ := hes.derived ho hs g₁
    exact ⟨r :: rs, g₂, .cons he' hes', rfl⟩

end

def Ty.nodeNames : Ty → List String
  | node name => [name]
  | array element => element.nodeNames
  | _ => []

theorem NodeType.undeclared_eq_none_iff {nodes : List NodeType} {ty : Ty} :
    undeclared? nodes ty = none ↔ ∀ name ∈ ty.nodeNames, (find? nodes name).isSome = true := by
  induction ty with
  | array element ih => exact ih
  | node name =>
    rw [Ty.nodeNames, List.forall_mem_singleton, undeclared?]
    cases find? nodes name <;> simp
  | _ => simp [Ty.nodeNames, undeclared?]

theorem Hierarchy.undeclared_eq_none_iff {ty : Ty} :
    h.undeclared? ty = none ↔ ∀ name ∈ ty.nodeNames, (h.node? name).isSome = true :=
  NodeType.undeclared_eq_none_iff

namespace PropertyDecl

/-- By the rules the body of the property has the type, which is fit for the declared one; the body
is not too high; and its owner and the nodes of its declared type are declared. -/
structure Typable (h : Hierarchy) (p : PropertyDecl) (ty : Ty) : Prop where
  owner : (h.node? p.signature.owner).isSome = true
  declared : ∀ t ∈ p.ty, ∀ name ∈ t.nodeNames, (h.node? name).isSome = true
  height : p.body.height ≤ Expr.maxNesting
  body : HasType h p.signature.owner p.signature.hasImplicitEnv p.ty p.body ty

theorem check_typed_iff {p : PropertyDecl} {ty : Ty} :
    (∃ ir, p.check h = .ok ir ∧ ir.body.ty = ty) ↔ p.Typable h ty := by
  have hshows := Scope.shows_bindDefault p.signature
  simp only [check_eq_ok_iff_derived, Hierarchy.undeclared_eq_none_iff]
  constructor
  · intro hx
    obtain ⟨_, ⟨⟨howner, hdeclared⟩, hheight, r, g, hr, rfl⟩, rfl⟩ := hx
    exact ⟨howner, hdeclared, hheight, hr.hasType hshows⟩
  · intro ht
    obtain ⟨r, g, hr, rfl⟩ := ht.body.derived ht.owner hshows {}
    exact ⟨_, ⟨⟨ht.owner, ht.declared⟩, ht.height, r, g, hr, rfl⟩, rfl⟩

/-- A property is accepted if and only if it can be typed by the rules; and the types that its body
can have by the rules are the one that it is given. -/
theorem check_accepts_typable (h : Hierarchy) (p : PropertyDecl) :
    ((∃ ir, p.check h = .ok ir) ↔ ∃ ty, p.Typable h ty) ∧
      ∀ ty, (∃ ir, p.check h = .ok ir ∧ ir.body.ty = ty) ↔ p.Typable h ty := by
  refine ⟨?_, fun ty => check_typed_iff⟩
  constructor
  · intro hx
    obtain ⟨ir, hok⟩ := hx
    exact ⟨ir.body.ty, check_typed_iff.mp ⟨ir, hok, rfl⟩⟩
  · intro hx
    obtain ⟨ty, ht⟩ := hx
    obtain ⟨ir, hok, -⟩ := check_typed_iff.mpr ht
    exact ⟨ir, hok⟩

end PropertyDecl

end FrontEnd
