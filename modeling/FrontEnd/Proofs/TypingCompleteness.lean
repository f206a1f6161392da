import FrontEnd.Proofs.TypingDerivations

namespace FrontEnd

open Construction

variable {h : Hierarchy}

theorem Boundary.yields {scope : Scope} {sequential : Bool} {b : Option Resolved}
    (hb : Boundary h scope sequential b) {s : Session} (hs : s.scope = scope)
    (hroom : s.depth < Expr.maxNesting) (g : Gathered) :
    Yields (boundaryNode h sequential) (s.gathering g) b (s.gathering g) := by
  cases hb with
  | none => exact yields_pure.mpr ⟨rfl, rfl⟩
  | @self p root hp hr hsub =>
    change Yields (orFail .noRoot h.root? >>= fun root =>
      some <$> nested h .self (some root) selfNode) (s.gathering g) _ (s.gathering g)
    simp only [yields_bind, yields_orFail, yields_map, yields_nested, yields_selfNode]
    have hfits : h.Fits (Resolved.var ⟨.node p.owner, Option.none⟩ "Self").ty (some root) := by
      intro t ht
      cases ht
      exact hsub
    subst hs
    exact ⟨root, _, ⟨hr, rfl⟩, _, ⟨hroom, hfits, _, ⟨⟨p, hp, rfl⟩, rfl⟩, rfl⟩, rfl⟩

mutual

theorem Constructs.yields {scope : Scope} {expected : Option Ty} {g g' : Gathered} {e : Expr}
    {r : Resolved} (hc : Constructs h scope expected g e r g') {s : Session} (hs : s.scope = scope)
    (hroom : s.depth + e.height ≤ Expr.maxNesting) :
    Yields (construct h e expected) (s.gathering g) r (s.gathering g') := by
  obtain ⟨hdepth, hparts⟩ := Expr.fits_iff.mp hroom
  match hc with
  | .fits hn hf =>
    rw [construct.eq_def, yields_nested]
    -- Each part is typed one level deeper, from what has been gathered before it.
    let s' : Session := { s with depth := s.depth + 1 }
    refine ⟨hdepth, hf, s'.gathering g', ?_, rfl⟩
    subst hs
    match hn with
    | .literal v => exact yields_pure.mpr ⟨rfl, rfl⟩
    | .self hp => exact yields_selfNode.mpr ⟨⟨_, hp, rfl⟩, rfl⟩
    | .env ha => exact yields_ambientEnv.mpr ⟨ha, rfl, rfl⟩
    | .emptyEnv => exact yields_pure.mpr ⟨rfl, rfl⟩
    | .field hr hnode hty =>
      have hr' := hr.yields (s := s') rfl (hparts _ (by simp [Expr.parts]))
      refine yields_bind.mpr ⟨_, _, hr', ?_⟩
      rw [hnode]
      exact yields_bind.mpr ⟨_, _, yields_orFail.mpr ⟨hty, rfl⟩, yields_pure.mpr ⟨rfl, rfl⟩⟩
    | .array hes ht =>
      have hes' := hes.yields (s := s') rfl hparts
      exact yields_bind.mpr ⟨_, _, hes', yields_arrayOf.mpr ⟨_, ht, rfl, rfl⟩⟩
    | .lookup h₀ hk hsym he hb hc hg₄ =>
      have hk' := hk.yields (s := s') rfl (hparts _ (by simp [Expr.parts]))
      have he' := he.yields (s := s') rfl (hparts _ (by simp [Expr.parts]))
      -- The boundary lies no deeper than the operands.
      have hbelow := (Expr.fits_iff.mp (hparts _ List.mem_cons_self)).1
      have hb' := hb.yields (s := s') rfl hbelow
      have hc' := hc.yields (s := s') rfl (hparts _ (by simp [Expr.parts]))
      subst hg₄
      refine yields_bind.mpr ⟨(), _, yields_checkKey.mpr ⟨h₀, rfl⟩, ?_⟩
      refine yields_bind.mpr ⟨_, _, yields_bind.mpr ⟨_, _, hk', yields_keySymbol.mpr ⟨hsym, rfl⟩⟩, ?_⟩
      refine yields_bind.mpr ⟨_, _, he', yields_bind.mpr ⟨_, _, hb' _, ?_⟩⟩
      refine yields_bind.mpr ⟨_, _, hc', yields_bind.mpr ⟨_, _, yields_lookupTy.mpr ⟨rfl, rfl⟩, ?_⟩⟩
      exact yields_bind.mpr ⟨_, _, yields_newLocal.mpr ⟨rfl, rfl⟩, yields_pure.mpr ⟨rfl, rfl⟩⟩
    | .evalInEnv he hx hb =>
      have he' := he.yields (s := s') rfl (hparts _ (by simp [Expr.parts]))
      have hb' := hb.yields (s := s'.enter (.bindName _)) rfl (hparts _ (by simp [Expr.parts]))
      refine yields_bind.mpr ⟨_, _, he', ?_⟩
      refine yields_bind.mpr ⟨_, _, yields_newLocal.mpr ⟨hx.symm, rfl⟩, ?_⟩
      refine yields_bind.mpr ⟨_, _, yields_within.mpr ⟨_, hb', rfl⟩, ?_⟩
      exact yields_pure.mpr ⟨rfl, rfl⟩
    | .orphan he =>
      have he' := he.yields (s := s') rfl (hparts _ (by simp [Expr.parts]))
      exact yields_bind.mpr ⟨_, _, he', yields_heldCall.mpr ⟨rfl, rfl⟩⟩
    | .group he =>
      have he' := he.yields (s := s') rfl (hparts _ (by simp [Expr.parts]))
      exact yields_bind.mpr ⟨_, _, he', yields_heldCall.mpr ⟨rfl, rfl⟩⟩
    | .groupAll hes hg₂ =>
      have hes' := hes.yields (s := s') rfl hparts
      subst hg₂
      refine yields_bind.mpr ⟨_, _, hes', ?_⟩
      refine yields_bind.mpr ⟨_, _, yields_arrayOf.mpr ⟨_, rfl, rfl, rfl⟩, ?_⟩
      exact yields_heldCall.mpr ⟨rfl, rfl⟩
    | .isVisibleFrom hb hr =>
      have hb' := hb.yields (s := s') rfl (hparts _ (by simp [Expr.parts]))
      have hr' := hr.yields (s := s') rfl (hparts _ (by simp [Expr.parts]))
      exact yields_bind.mpr ⟨_, _, hb', yields_bind.mpr ⟨_, _, hr', yields_pure.mpr ⟨rfl, rfl⟩⟩⟩
    | .envNode he hr =>
      have he' := he.yields (s := s') rfl (hparts _ (by simp [Expr.parts]))
      refine yields_bind.mpr ⟨_, _, he', ?_⟩
      exact yields_bind.mpr ⟨_, _, yields_orFail.mpr ⟨hr, rfl⟩, yields_pure.mpr ⟨rfl, rfl⟩⟩

theorem ConstructsAll.yields {scope : Scope} {expected : Option Ty} {g g' : Gathered}
    {es : List Expr} {rs : List Resolved} (hc : ConstructsAll h scope expected g es rs g')
    {s : Session} (hs : s.scope = scope)
    (hroom : ∀ e ∈ es, s.depth + e.height ≤ Expr.maxNesting) :
    Yields (constructAll h es expected) (s.gathering g) rs (s.gathering g') := by
  rw [constructAll.eq_def]
  match hc with
  | .nil => exact yields_pure.mpr ⟨rfl, rfl⟩
  | .cons he hes =>
    obtain ⟨hfirst, hrest⟩ := List.forall_mem_cons.mp hroom
    have he' := he.yields hs hfirst
    have hes' := hes.yields hs hrest
    exact yields_bind.mpr ⟨_, _, he', yields_bind.mpr ⟨_, _, hes', yields_pure.mpr ⟨rfl, rfl⟩⟩⟩

end

theorem PropertyDecl.check_eq_ok_iff_derived {p : PropertyDecl} {ir : Property} :
    p.check h = .ok ir ↔
      ((h.node? p.signature.owner).isSome = true ∧ ∀ ty ∈ p.ty, h.undeclared? ty = none) ∧
        p.body.height ≤ Expr.maxNesting ∧
        ∃ r g, Constructs h (({} : Scope).bindDefault p.signature) p.ty {} p.body r g ∧
          ir = ⟨p.signature, r, g.locals.toList, g.arrayTypes⟩ := by
  rw [check_eq_ok_iff, construct_eq_ok_iff, headFault_eq_none_iff]
  let start : Session := Session.enter {} (.bindDefault p.signature)
  have hstart : start.depth + p.body.height = p.body.height := Nat.zero_add _
  constructor
  · intro hx
    obtain ⟨hhead, r, t, hy, rfl⟩ := hx
    obtain ⟨u, hu, rfl⟩ := yields_within.mp hy
    obtain ⟨hroom, g, rfl, hr⟩ := construct_derives h p.body p.ty hu
    exact ⟨hhead, hstart ▸ hroom, r, g, hr, rfl⟩
  · intro hx
    obtain ⟨hhead, hroom, r, g, hr, rfl⟩ := hx
    have hu := hr.yields (s := start) rfl (hstart.symm ▸ hroom)
    exact ⟨hhead, r, _, yields_within.mpr ⟨_, hu, rfl⟩, rfl⟩

end FrontEnd
