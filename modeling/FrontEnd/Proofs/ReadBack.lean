import FrontEnd.Proofs.TypingDerivations

namespace FrontEnd

namespace Expr

mutual

/-- The expression with each group of listed environments as the group of an array. -/
def expandGroups : Expr → Expr
  | literal v => literal v
  | self => self
  | env => env
  | emptyEnv => emptyEnv
  | field receiver name => field receiver.expandGroups name
  | array elements => array (expandGroupsAll elements)
  | lookup e key recursive sequential unique =>
    lookup e.expandGroups key.expandGroups recursive.expandGroups sequential unique
  | evalInEnv e body => evalInEnv e.expandGroups body.expandGroups
  | orphan e => orphan e.expandGroups
  | group envs => group envs.expandGroups
  | groupAll envs => group (array (expandGroupsAll envs))
  | isVisibleFrom referenced base => isVisibleFrom referenced.expandGroups base.expandGroups
  | envNode e => envNode e.expandGroups

def expandGroupsAll : List Expr → List Expr
  | [] => []
  | e :: es => e.expandGroups :: expandGroupsAll es

end

mutual

/-- The ambient environment is asked for outside every body that has one bound. -/
def hasFreeEnv : Expr → Bool
  | literal _ | self | emptyEnv => false
  | env => true
  | field receiver _ => receiver.hasFreeEnv
  | array elements => anyFreeEnv elements
  | lookup e key recursive _ _ => e.hasFreeEnv || key.hasFreeEnv || recursive.hasFreeEnv
  | evalInEnv e _ => e.hasFreeEnv
  | orphan e => e.hasFreeEnv
  | group envs => envs.hasFreeEnv
  | groupAll envs => anyFreeEnv envs
  | isVisibleFrom referenced base => referenced.hasFreeEnv || base.hasFreeEnv
  | envNode e => e.hasFreeEnv

def anyFreeEnv : List Expr → Bool
  | [] => false
  | e :: es => e.hasFreeEnv || anyFreeEnv es

end

end Expr

namespace Resolved

/-- What a variable stands for where the environment of the variable `ambient`, if any, is the
ambient one. -/
def readVar (ambient : Option String) (name : String) : Option Expr :=
  if name = "Self" then some .self
  else if name = Scope.emptyEnvName then some .emptyEnv
  else if ambient = some name then some .env
  else none

def readCall : String → List Expr → Option Expr
  | "AST_Envs.Orphan", [e] => some (.orphan e)
  | "Group", [envs] => some (.group envs)
  | "Is_Visible_From", [base, referenced] => some (.isVisibleFrom referenced base)
  | _, _ => none

mutual

/-- The expression that a typed one stands for; a body reads the environment bound to it as the
ambient one. -/
def readBack (ambient : Option String) : Resolved → Option Expr
  | literal _ v => some (.literal v)
  | var _ name => readVar ambient name
  | getSymbol _ token => token.readBack ambient
  | field _ receiver name => do
    let receiver ← receiver.readBack ambient
    some (.field receiver name)
  | lookup _ e key boundary recursive unique => do
    let e ← e.readBack ambient
    let key ← key.readBack ambient
    let sequential ← readBoundary ambient boundary
    let recursive ← recursive.readBack ambient
    some (.lookup e key recursive sequential unique)
  | call _ callee args => do
    let args ← readBackAll ambient args
    readCall callee args
  | envNode _ e => do
    let e ← e.readBack ambient
    some (.envNode e)
  | array _ elements _ => do
    let elements ← readBackAll ambient elements
    some (.array elements)
  | bind _ e x body => do
    let e ← e.readBack ambient
    let body ← body.readBack (some x.name)
    some (.evalInEnv e body)

/-- Whether a lookup is sequential: its boundary can only be the node of the property. -/
def readBoundary (ambient : Option String) : Option Resolved → Option Bool
  | none => some false
  | some r =>
    match r.readBack ambient with
    | some .self => some true
    | _ => none

def readBackAll (ambient : Option String) : List Resolved → Option (List Expr)
  | [] => some []
  | r :: rs => do
    let e ← r.readBack ambient
    let es ← readBackAll ambient rs
    some (e :: es)

end

end Resolved

namespace Scope

def ambient? (s : Scope) : Option String := if s.hasAmbientEnv then some s.envName else none

theorem ambient_bindName (s : Scope) (name : String) :
    (s.bindName name).ambient? = some name := by
  simp [ambient?, bindName, hasAmbientEnv]

theorem ambient_bindDefault (p : Signature) :
    (({} : Scope).bindDefault p).ambient? =
      if p.hasImplicitEnv then some parameterName else none := by
  cases hi : p.hasImplicitEnv <;> simp [ambient?, bindDefault, hasAmbientEnv, hi]

end Scope

section

open Resolved

variable {h : Hierarchy} {p : Signature} {scope : Scope}

theorem readVar_self (ambient : Option String) : readVar ambient "Self" = some .self := rfl

theorem readVar_emptyEnv (ambient : Option String) :
    readVar ambient Scope.emptyEnvName = some .emptyEnv := by
  simp [readVar, Scope.emptyEnvName]

theorem Scope.Inside.readVar_env (hs : scope.Inside p) (ha : scope.hasAmbientEnv = true) :
    readVar scope.ambient? scope.envName = some .env := by
  simp [readVar, hs.ne_self, hs.ne_emptyEnv, ambient?, ha]

theorem KeySymbol.readBack_eq {k k' : Resolved} (hs : KeySymbol k k') (ambient : Option String) :
    k'.readBack ambient = k.readBack ambient := by
  cases hs with
  | symbol => rfl
  | token => rfl

theorem Boundary.readBoundary_eq {sequential : Bool} {b : Option Resolved}
    (hb : Boundary h scope sequential b) (ambient : Option String) :
    readBoundary ambient b = some sequential := by
  cases hb with
  | none => rfl
  | self => rfl

mutual

theorem Constructs.reads_back {scope : Scope} {expected : Option Ty} {g g' : Gathered} {e : Expr}
    {r : Resolved} (hc : Constructs h scope expected g e r g') (hs : scope.Inside p) :
    r.readBack scope.ambient? = some e.expandGroups := by
  match hc with
  | .fits hn _ => exact hn.reads_back hs

theorem ConstructsNode.reads_back {scope : Scope} {expected : Option Ty} {g g' : Gathered}
    {e : Expr} {r : Resolved} (hc : ConstructsNode h scope expected g e r g')
    (hs : scope.Inside p) : r.readBack scope.ambient? = some e.expandGroups := by
  match hc with
  | .literal v => rfl
  | .self _ => exact readVar_self _
  | .env ha => exact hs.readVar_env ha
  | .emptyEnv => exact readVar_emptyEnv _
  | .field hr _ _ => simp [readBack, Expr.expandGroups, hr.reads_back hs]
  | .array hes _ => simp [readBack, Expr.expandGroups, hes.reads_back hs]
  | .lookup _ hk hsym he hb hrec _ =>
    have hkey := (hsym.readBack_eq _).trans (hk.reads_back hs)
    have hboundary := hb.readBoundary_eq scope.ambient?
    simp [readBack, Expr.expandGroups, he.reads_back hs, hkey, hboundary, hrec.reads_back hs]
  | .evalInEnv he hx hb =>
    -- The environment is read in the outer scope, the body in the one that binds the new local.
    have hbody := hb.reads_back (hx ▸ hs.bindName _)
    rw [Scope.ambient_bindName] at hbody
    simp [readBack, Expr.expandGroups, he.reads_back hs, hbody]
  | .orphan he => simp [readBack, readBackAll, readCall, Expr.expandGroups, he.reads_back hs]
  | .group he => simp [readBack, readBackAll, readCall, Expr.expandGroups, he.reads_back hs]
  | .groupAll hes _ =>
    simp [readBack, readBackAll, readCall, Expr.expandGroups, hes.reads_back hs]
  | .isVisibleFrom hb hr =>
    simp [readBack, readBackAll, readCall, Expr.expandGroups, hb.reads_back hs, hr.reads_back hs]
  | .envNode he _ => simp [readBack, Expr.expandGroups, he.reads_back hs]

theorem ConstructsAll.reads_back {scope : Scope} {expected : Option Ty} {g g' : Gathered}
    {es : List Expr} {rs : List Resolved} (hc : ConstructsAll h scope expected g es rs g')
    (hs : scope.Inside p) :
    readBackAll scope.ambient? rs = some (Expr.expandGroupsAll es) := by
  match hc with
  | .nil => rfl
  | .cons he hes =>
    simp [readBackAll, Expr.expandGroupsAll, he.reads_back hs, hes.reads_back hs]

end

mutual

theorem Constructs.has_ambient {scope : Scope} {expected : Option Ty} {g g' : Gathered} {e : Expr}
    {r : Resolved} (hc : Constructs h scope expected g e r g') :
    e.hasFreeEnv = true → scope.hasAmbientEnv = true := by
  match hc with
  | .fits hn _ => exact hn.has_ambient

theorem ConstructsNode.has_ambient {scope : Scope} {expected : Option Ty} {g g' : Gathered}
    {e : Expr} {r : Resolved} (hc : ConstructsNode h scope expected g e r g') :
    e.hasFreeEnv = true → scope.hasAmbientEnv = true := by
  -- A bound body may ask for its own environment; every other part asks in the same scope.
  match hc with
  | .literal _ => exact nofun
  | .self _ => exact nofun
  | .env ha => exact fun _ => ha
  | .emptyEnv => exact nofun
  | .field hr _ _ => exact hr.has_ambient
  | .array hes _ => exact hes.has_ambient
  | .lookup _ hk _ he _ hrec _ =>
    intro hf
    simp only [Expr.hasFreeEnv, Bool.or_eq_true] at hf
    rcases hf with (hf | hf) | hf
    · exact he.has_ambient hf
    · exact hk.has_ambient hf
    · exact hrec.has_ambient hf
  | .evalInEnv he _ _ => exact he.has_ambient
  | .orphan he => exact he.has_ambient
  | .group he => exact he.has_ambient
  | .groupAll hes _ => exact hes.has_ambient
  | .isVisibleFrom hb hr =>
    intro hf
    simp only [Expr.hasFreeEnv, Bool.or_eq_true] at hf
    rcases hf with hf | hf
    · exact hr.has_ambient hf
    · exact hb.has_ambient hf
  | .envNode he _ => exact he.has_ambient

theorem ConstructsAll.has_ambient {scope : Scope} {expected : Option Ty} {g g' : Gathered}
    {es : List Expr} {rs : List Resolved} (hc : ConstructsAll h scope expected g es rs g') :
    Expr.anyFreeEnv es = true → scope.hasAmbientEnv = true := by
  match hc with
  | .nil => exact nofun
  | .cons he hes =>
    intro hf
    simp only [Expr.anyFreeEnv, Bool.or_eq_true] at hf
    rcases hf with hf | hf
    · exact he.has_ambient hf
    · exact hes.has_ambient hf

end

end

/-- Typing loses, swaps and captures nothing. The body of an accepted property reads back as the
declared one, where the parameter is the ambient environment outside all bindings if there is one;
and where there is none, a body that asks for it there is not accepted. -/
theorem PropertyDecl.check_reads_back (h : Hierarchy) (p : PropertyDecl) :
    (∀ ir, p.check h = .ok ir →
      ir.body.readBack (if p.signature.hasImplicitEnv then some Scope.parameterName else none) =
        some p.body.expandGroups) ∧
    (p.signature.hasImplicitEnv = false → p.body.hasFreeEnv = true →
      ∃ error, p.check h = .error error) := by
  have hambient := Scope.ambient_bindDefault p.signature
  constructor
  · intro ir hc
    obtain ⟨-, -, r, g, hr, rfl⟩ := check_derives hc
    rw [← hambient]
    exact hr.reads_back (Scope.inside_bindDefault p.signature)
  · intro himplicit hfree
    cases hc : p.check h with
    | error error => exact ⟨error, rfl⟩
    | ok ir =>
      obtain ⟨-, -, r, g, hr, -⟩ := check_derives hc
      have ha := hr.has_ambient hfree
      simp [Scope.ambient?, ha, himplicit] at hambient

/-- The ambient environment outside the binding is asked for without being a parameter. -/
def Sample.unbound : PropertyDecl where
  signature := ⟨"Name", "referenced", false⟩
  ty := some .envElement
  body := property.body

theorem Sample.property_reads_back :
    (∃ ir, property.check hierarchy = .ok ir ∧
      ir.body.readBack (some "Current_Env") = some property.body.expandGroups) ∧
    ∃ error, unbound.check hierarchy = .error error := by
  obtain ⟨ir, hok⟩ : ∃ ir, property.check hierarchy = .ok ir := ⟨_, rfl⟩
  have hread := (PropertyDecl.check_reads_back hierarchy property).1 ir hok
  exact ⟨⟨ir, hok, hread⟩, (PropertyDecl.check_reads_back hierarchy unbound).2 rfl rfl⟩

end FrontEnd
