import FrontEnd.Proofs.TypingCompleteness
import FrontEnd.Proofs.TypingSoundness

namespace FrontEnd

variable {h : Hierarchy}

namespace Hierarchy

theorem fits_some {a b : Ty} (hab : h.isSubtype a b = true) : h.Fits a (some b) := by
  intro t ht
  cases ht
  exact hab

theorem eq_of_isSubtype_array {element ty : Ty} (hty : h.isSubtype (.array element) ty = true) :
    ty = .array element := by
  -- What an array is fit for is its own type: nothing else stands above it.
  rcases h.isSubtype_iff.mp hty with heq | ⟨l, u, hl, -, -⟩
  · exact heq.symm
  · cases hl

theorem declared_of_isSubtype {a b : Ty} (hab : h.isSubtype a b = true)
    (ha : h.undeclared? a = none) : h.undeclared? b = none := by
  rcases h.isSubtype_iff.mp hab with rfl | ⟨l, u, -, rfl, hup⟩
  · exact ha
  · obtain ⟨v, -, hbase⟩ := Relation.TransGen.tail'_iff.mp hup
    exact h.undeclared_node_iff.mpr (h.base_declared hbase)

theorem Fits.element {element : Ty} {expected : Option Ty}
    (hfits : h.Fits (.array element) expected) :
    expected.bind Ty.element? = none ∨ expected.bind Ty.element? = some element := by
  cases expected with
  | none => exact .inl rfl
  | some ty =>
    have heq : ty = .array element := eq_of_isSubtype_array (hfits ty rfl)
    subst heq
    exact .inr rfl

end Hierarchy

mutual

/-- What an expression becomes where nothing is expected, it becomes wherever its type fits, and the
same is gathered on the way. -/
theorem Constructs.under {scope : Scope} {expected : Option Ty} {g g' : Gathered} {e : Expr}
    {r : Resolved} (hc : Constructs h scope none g e r g') (hfits : h.Fits r.ty expected) :
    Constructs h scope expected g e r g' := by
  match hc with
  | .fits hn _ => exact .fits (hn.under hfits) hfits

theorem ConstructsNode.under {scope : Scope} {expected : Option Ty} {g g' : Gathered} {e : Expr}
    {r : Resolved} (hn : ConstructsNode h scope none g e r g') (hfits : h.Fits r.ty expected) :
    ConstructsNode h scope expected g e r g' := by
  match hn with
  | .array hes ht =>
    -- The one kind of node that looks at what is expected: its elements are of types below the
    -- joined one, so they are found fit for it where it is given.
    rcases Hierarchy.Fits.element hfits with hnone | hsome
    · exact .array (hnone ▸ hes) (hnone ▸ ht)
    · have hupper := Hierarchy.lowestAbove_upper ht
      have hes' := hes.under fun r hr =>
        Hierarchy.fits_some (hupper r.ty (List.mem_map_of_mem hr))
      exact .array (hsome ▸ hes') (hsome ▸ rfl)
  | .literal v => exact .literal v
  | .self hp => exact .self hp
  | .env ha => exact .env ha
  | .emptyEnv => exact .emptyEnv
  | .field hr hnode hty => exact .field hr hnode hty
  | .lookup h₀ hk hs he hb hc hg => exact .lookup h₀ hk hs he hb hc hg
  | .evalInEnv he hx hb => exact .evalInEnv he hx hb
  | .orphan he => exact .orphan he
  | .group he => exact .group he
  | .groupAll hes hg => exact .groupAll hes hg
  | .isVisibleFrom hb hr => exact .isVisibleFrom hb hr
  | .envNode he hr => exact .envNode he hr

theorem ConstructsAll.under {scope : Scope} {expected : Option Ty} {g g' : Gathered}
    {es : List Expr} {rs : List Resolved} (hc : ConstructsAll h scope none g es rs g')
    (hfits : ∀ r ∈ rs, h.Fits r.ty expected) : ConstructsAll h scope expected g es rs g' := by
  match hc with
  | .nil => exact .nil
  | .cons he hes =>
    obtain ⟨hfirst, hrest⟩ := List.forall_mem_cons.mp hfits
    exact .cons (he.under hfirst) (hes.under hrest)

end

namespace Construction

theorem construct_under {e : Expr} {s t : Session} {r : Resolved} {ty : Ty}
    (hrun : (construct h e none).run s = (.ok r, t)) (hty : h.isSubtype r.ty ty = true) :
    (construct h e (some ty)).run s = (.ok r, t) := by
  obtain ⟨hroom, g, rfl, hr⟩ := construct_derives h e none hrun
  have hr' := hr.under (Hierarchy.fits_some hty)
  exact hr'.yields rfl hroom

end Construction

namespace PropertyDecl

variable {p : PropertyDecl} {ir : Property}

theorem check_under (hp : p.ty = none) (hc : p.check h = .ok ir) {ty : Ty}
    (hty : h.isSubtype ir.body.ty ty = true) : { p with ty := some ty }.check h = .ok ir := by
  obtain ⟨⟨howner, hhead⟩, hroom, r, g, hr, rfl⟩ := check_eq_ok_iff_derived.mp hc
  have hbody : r.Declared h := (hr.declared (Scope.inside_bindDefault _) howner hhead .empty).1
  rw [hp] at hr
  apply check_eq_ok_iff_derived.mpr
  refine ⟨⟨howner, ?_⟩, hroom, r, g, hr.under (Hierarchy.fits_some hty), rfl⟩
  exact Hierarchy.expected_declared (Hierarchy.declared_of_isSubtype hty hbody.ty)

end PropertyDecl

/-- Declaring a type that is satisfied changes nothing. An expression that is typed where nothing is
expected becomes the same, and leaves the same behind, where a type is expected that its own type
fits. So a property whose type is inferred is unchanged by declaring such a type, the inferred one
above all. -/
theorem Construction.construct_declared (h : Hierarchy) :
    (∀ (e : Expr) (s t : Session) (r : Resolved) (ty : Ty),
      (construct h e none).run s = (.ok r, t) → h.isSubtype r.ty ty = true →
        (construct h e (some ty)).run s = (.ok r, t)) ∧
      ∀ (p : PropertyDecl) (ir : Property), p.ty = none → p.check h = .ok ir →
        { p with ty := some ir.body.ty }.check h = .ok ir ∧
          ∀ ty, h.isSubtype ir.body.ty ty = true → { p with ty := some ty }.check h = .ok ir := by
  refine ⟨fun e s t r ty => construct_under, fun p ir hp hc => ?_⟩
  exact ⟨p.check_under hp hc (h.isSubtype_refl _), fun ty => p.check_under hp hc⟩

namespace Sample

/-- A property whose type is inferred from arrays of node types of which one is below the other. -/
def layers : PropertyDecl where
  signature := ⟨"Name", "layers", true⟩
  ty := none
  body := .array [.array [.self, .envNode .env], .array [.envNode (.orphan .env)]]

def layersStart : Session := Session.enter {} (.bindDefault layers.signature)

theorem layers_declared :
    ∃ r t ir, (Construction.construct hierarchy layers.body none).run layersStart = (.ok r, t) ∧
      r.ty = .array (.array (.node "Node")) ∧
      (Construction.construct hierarchy layers.body (some r.ty)).run layersStart = (.ok r, t) ∧
      layers.ty = none ∧ layers.check hierarchy = .ok ir ∧
      { layers with ty := some (.array (.array (.node "Node"))) }.check hierarchy = .ok ir := by
  obtain ⟨r, t, hrun, hty⟩ : ∃ r t,
      (Construction.construct hierarchy layers.body none).run layersStart = (.ok r, t) ∧
        r.ty = .array (.array (.node "Node")) := ⟨_, _, rfl, rfl⟩
  obtain ⟨ir, hcheck, hbody⟩ : ∃ ir, layers.check hierarchy = .ok ir ∧
      ir.body.ty = .array (.array (.node "Node")) := ⟨_, rfl, rfl⟩
  obtain ⟨hexpr, hproperty⟩ := Construction.construct_declared hierarchy
  have hsame := hexpr layers.body layersStart t r r.ty hrun (hierarchy.isSubtype_refl _)
  have hdeclared := (hproperty layers ir rfl hcheck).1
  rw [hbody] at hdeclared
  exact ⟨r, t, ir, hrun, hty, hsame, rfl, hcheck, hdeclared⟩

end Sample

end FrontEnd
