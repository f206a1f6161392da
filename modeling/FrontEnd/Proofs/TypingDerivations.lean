import FrontEnd.Proofs.TypingRules
import FrontEnd.Proofs.TypingRuns

namespace FrontEnd

namespace Expr

def parts : Expr → List Expr
  | literal _ | self | env | emptyEnv => []
  | field e _ | orphan e | group e | envNode e => [e]
  | array es | groupAll es => es
  | lookup e key recursive _ _ => [e, key, recursive]
  | evalInEnv e body => [e, body]
  | isVisibleFrom referenced base => [referenced, base]

theorem height_eq (e : Expr) : e.height = heightAll e.parts + 1 := by
  cases e <;> simp [height, heightAll, parts]

theorem heightAll_le_iff {es : List Expr} {n : Nat} :
    heightAll es ≤ n ↔ ∀ e ∈ es, e.height ≤ n := by
  induction es with
  | nil => simp [heightAll]
  | cons e es ih => rw [heightAll, Nat.max_le, ih, List.forall_mem_cons]

theorem fits_iff {e : Expr} {depth limit : Nat} :
    depth + e.height ≤ limit ↔
      depth < limit ∧ ∀ c ∈ e.parts, depth + 1 + c.height ≤ limit := by
  have hall : heightAll e.parts ≤ limit - (depth + 1) ↔
      ∀ c ∈ e.parts, c.height ≤ limit - (depth + 1) := heightAll_le_iff
  rw [e.height_eq]
  constructor
  · intro hfits
    have hparts := hall.mp (by omega)
    exact ⟨by omega, fun c hc => by have := hparts c hc; omega⟩
  · intro hx
    obtain ⟨hroom, hparts⟩ := hx
    have hbelow := hall.mpr fun c hc => by have := hparts c hc; omega
    omega

end Expr

namespace Construction

variable {α β : Type}

/-- The step succeeds in `s` with the value `a` and leaves the session at `t`. -/
def Yields (m : Construction α) (s : Session) (a : α) (t : Session) : Prop := m.run s = (.ok a, t)

theorem yields_pure {a b : α} {s t : Session} :
    Yields (pure a) s b t ↔ a = b ∧ s = t := by
  change ((Except.ok a, s) : Except TypingFault α × Session) = (.ok b, t) ↔ _
  simp

theorem not_yields_throw {fault : TypingFault} {a : α} {s t : Session} :
    ¬ Yields (throw fault) s a t := by
  intro h
  cases congrArg Prod.fst h

theorem yields_get {a s t : Session} :
    Yields (MonadState.get : Construction Session) s a t ↔ s = a ∧ s = t := by
  change ((Except.ok s, s) : Except TypingFault Session × Session) = (.ok a, t) ↔ _
  simp

theorem yields_bind {m : Construction α} {f : α → Construction β} {s u : Session} {b : β} :
    Yields (m >>= f) s b u ↔ ∃ a t, Yields m s a t ∧ Yields (f a) t b u := by
  unfold Yields
  rw [run_bind]
  rcases m.run s with ⟨fault | a, t⟩
  · constructor
    · intro hb
      cases congrArg Prod.fst hb
    · intro hx
      obtain ⟨a, t, hm, -⟩ := hx
      cases congrArg Prod.fst hm
  · constructor
    · intro hb
      exact ⟨a, t, rfl, hb⟩
    · intro hx
      obtain ⟨a, t, hm, hb⟩ := hx
      cases hm
      exact hb

theorem yields_map {m : Construction α} {f : α → β} {s t : Session} {b : β} :
    Yields (f <$> m) s b t ↔ ∃ a, Yields m s a t ∧ f a = b := by
  rw [map_eq_pure_bind, yields_bind]
  simp only [yields_pure]
  constructor
  · intro hx
    obtain ⟨a, _, hm, rfl, rfl⟩ := hx
    exact ⟨a, hm, rfl⟩
  · intro hx
    obtain ⟨a, hm, rfl⟩ := hx
    exact ⟨a, t, hm, rfl, rfl⟩

theorem yields_orFail {fault : TypingFault} {o : Option α} {a : α} {s t : Session} :
    Yields (orFail fault o) s a t ↔ o = some a ∧ s = t := by
  cases o with
  | none =>
    rw [orFail]
    simpa using not_yields_throw
  | some b =>
    rw [orFail]
    simpa using yields_pure

theorem yields_recordArray {ty : Ty} {s t : Session} {u : Unit} :
    Yields (recordArray ty) s u t ↔
      s.gathering (s.gathered.recordArray ty) = t := by
  change ((Except.ok (), s.gathering _) : Except TypingFault Unit × Session) = (.ok u, t) ↔ _
  simp

theorem yields_newLocal {stem : String} {ty : Ty} {l : Local} {s t : Session} :
    Yields (newLocal stem ty) s l t ↔
      s.gathered.locals.next stem ty = l ∧
        s.gathering (s.gathered.addLocal stem ty) = t := by
  change ((Except.ok _, s.gathering _) : Except TypingFault Local × Session) = (.ok l, t) ↔ _
  simp

theorem yields_heldCall {callee stem : String} {args : List Resolved} {ty : Ty} {r : Resolved}
    {s t : Session} :
    Yields (heldCall callee stem args ty) s r t ↔
      .call ⟨ty, some (s.gathered.locals.next stem ty)⟩ callee args = r ∧
        s.gathering (s.gathered.addLocal stem ty) = t := by
  rw [heldCall, yields_bind]
  simp only [yields_newLocal, yields_pure]
  constructor
  · intro hx
    obtain ⟨_, _, ⟨rfl, rfl⟩, rfl, rfl⟩ := hx
    exact ⟨rfl, rfl⟩
  · intro hx
    obtain ⟨rfl, rfl⟩ := hx
    exact ⟨_, _, ⟨rfl, rfl⟩, rfl, rfl⟩

theorem yields_expect {h : Hierarchy} {expected : Option Ty} {e : Expr} {r r' : Resolved}
    {s t : Session} :
    Yields (expect h expected e r) s r' t ↔ h.Fits r.ty expected ∧ r = r' ∧ s = t := by
  cases expected with
  | none =>
    rw [expect]
    simpa [Hierarchy.Fits] using yields_pure
  | some ty =>
    rw [expect]
    split
    · rename_i hs
      simpa [Hierarchy.Fits, hs] using yields_pure
    · rename_i hs
      simpa [Hierarchy.Fits, hs] using not_yields_throw

theorem yields_deeper {m : Construction α} {a : α} {s t : Session} :
    Yields (deeper m) s a t ↔
      ∃ u, Yields m { s with depth := s.depth + 1 } a u ∧
        { u with depth := u.depth - 1 } = t := by
  have hrun : (deeper m).run s =
      ((m.run { s with depth := s.depth + 1 }).1,
        { (m.run { s with depth := s.depth + 1 }).2 with
          depth := (m.run { s with depth := s.depth + 1 }).2.depth - 1 }) := rfl
  unfold Yields
  rw [hrun]
  rcases m.run { s with depth := s.depth + 1 } with ⟨r, u⟩
  constructor
  · intro h
    cases h
    exact ⟨u, rfl, rfl⟩
  · intro hx
    obtain ⟨_, hu, rfl⟩ := hx
    cases hu
    rfl

theorem yields_within {opening : Opening} {m : Construction α} {a : α} {s t : Session} :
    Yields (within opening m) s a t ↔ ∃ u, Yields m (s.enter opening) a u ∧ u.leave = t := by
  have hrun : (within opening m).run s =
      ((m.run (s.enter opening)).1, (m.run (s.enter opening)).2.leave) := rfl
  unfold Yields
  rw [hrun]
  rcases m.run (s.enter opening) with ⟨r, u⟩
  constructor
  · intro h
    cases h
    exact ⟨u, rfl, rfl⟩
  · intro hx
    obtain ⟨_, hu, rfl⟩ := hx
    cases hu
    rfl

theorem yields_nested {h : Hierarchy} {e : Expr} {expected : Option Ty}
    {m : Construction Resolved} {r : Resolved} {s t : Session} :
    Yields (nested h e expected m) s r t ↔
      s.depth < Expr.maxNesting ∧ h.Fits r.ty expected ∧
        ∃ u, Yields m { s with depth := s.depth + 1 } r u ∧
          { u with depth := u.depth - 1 } = t := by
  rw [nested, yields_bind]
  simp only [yields_get]
  constructor
  · intro hx
    obtain ⟨_, _, ⟨rfl, rfl⟩, hy⟩ := hx
    split at hy
    · rename_i hd
      obtain ⟨r', t', hm, he⟩ := yields_bind.mp hy
      obtain ⟨hf, rfl, rfl⟩ := yields_expect.mp he
      obtain ⟨u, hu, rfl⟩ := yields_deeper.mp hm
      exact ⟨hd, hf, u, hu, rfl⟩
    · exact absurd hy not_yields_throw
  · intro hx
    obtain ⟨hd, hf, u, hu, rfl⟩ := hx
    refine ⟨s, s, ⟨rfl, rfl⟩, ?_⟩
    rw [if_pos hd]
    exact yields_bind.mpr ⟨r, _, yields_deeper.mpr ⟨u, hu, rfl⟩, yields_expect.mpr ⟨hf, rfl, rfl⟩⟩

theorem yields_selfNode {r : Resolved} {s t : Session} :
    Yields selfNode s r t ↔
      (∃ p, s.scope.property = some p ∧ .var ⟨.node p.owner, none⟩ "Self" = r) ∧ s = t := by
  rw [selfNode, yields_bind]
  simp only [yields_get, yields_bind, yields_orFail, yields_pure]
  constructor
  · intro hx
    obtain ⟨_, _, ⟨rfl, rfl⟩, p, _, ⟨hp, rfl⟩, hr, rfl⟩ := hx
    exact ⟨⟨p, hp, hr⟩, rfl⟩
  · intro hx
    obtain ⟨⟨p, hp, hr⟩, rfl⟩ := hx
    exact ⟨_, _, ⟨rfl, rfl⟩, p, _, ⟨hp, rfl⟩, hr, rfl⟩

theorem yields_ambientEnv {r : Resolved} {s t : Session} :
    Yields ambientEnv s r t ↔
      s.scope.hasAmbientEnv = true ∧ .var ⟨.lexicalEnv, none⟩ s.scope.envName = r ∧ s = t := by
  rw [ambientEnv, yields_bind]
  simp only [yields_get]
  constructor
  · intro hx
    obtain ⟨_, _, ⟨rfl, rfl⟩, hy⟩ := hx
    split at hy
    · rename_i ha
      exact ⟨ha, yields_pure.mp hy⟩
    · exact absurd hy not_yields_throw
  · intro hx
    obtain ⟨ha, hr⟩ := hx
    refine ⟨s, s, ⟨rfl, rfl⟩, ?_⟩
    rw [if_pos ha]
    exact yields_pure.mpr hr

theorem yields_elementTy {h : Hierarchy} {rs : List Resolved} {ty : Ty} {s t : Session} :
    Yields (elementTy h rs) s ty t ↔ h.lowestAbove? (rs.map Resolved.ty) = some ty ∧ s = t := by
  cases rs with
  | nil =>
    rw [elementTy]
    simpa [Hierarchy.lowestAbove?] using not_yields_throw
  | cons r rs =>
    rw [elementTy, List.map_cons, Hierarchy.lowestAbove?]
    -- The types are joined from the left, so the induction is over every type to start with.
    generalize r.ty = ty₀
    induction rs generalizing ty₀ with
    | nil => simpa using yields_pure
    | cons r rs ih =>
      rw [List.foldlM_cons, yields_bind, List.map_cons, List.foldlM_cons]
      simp only [Option.bind_eq_bind, Option.bind_eq_some_iff]
      constructor
      · intro hx
        obtain ⟨ty₁, _, hy₁, hy₂⟩ := hx
        obtain ⟨h₁, rfl⟩ := yields_orFail.mp hy₁
        obtain ⟨h₂, rfl⟩ := (ih ty₁).mp hy₂
        exact ⟨⟨ty₁, h₁, h₂⟩, rfl⟩
      · intro hx
        obtain ⟨⟨ty₁, h₁, h₂⟩, rfl⟩ := hx
        exact ⟨ty₁, s, yields_orFail.mpr ⟨h₁, rfl⟩, (ih ty₁).mpr ⟨h₂, rfl⟩⟩

theorem yields_arrayOf {h : Hierarchy} {expected : Option Ty} {rs : List Resolved} {r : Resolved}
    {s t : Session} :
    Yields (arrayOf h expected rs) s r t ↔
      ∃ ty, h.ElementTy expected rs ty ∧ .array ⟨.array ty, none⟩ rs ty = r ∧
        s.gathering (s.gathered.recordArray (.array ty)) = t := by
  have hty {ty : Ty} : (do
      recordArray (.array ty)
      pure (Resolved.array ⟨.array ty, none⟩ rs ty)).Yields s r t ↔
      .array ⟨.array ty, none⟩ rs ty = r ∧
        s.gathering (s.gathered.recordArray (.array ty)) = t := by
    rw [yields_bind]
    simp only [yields_recordArray, yields_pure]
    constructor
    · intro hx
      obtain ⟨_, _, rfl, rfl, rfl⟩ := hx
      exact ⟨rfl, rfl⟩
    · intro hx
      obtain ⟨rfl, rfl⟩ := hx
      exact ⟨(), _, rfl, rfl, rfl⟩
  cases expected with
  | none =>
    change Yields (elementTy h rs >>= _) s r t ↔ _
    rw [yields_bind]
    simp only [yields_elementTy]
    constructor
    · intro hx
      obtain ⟨ty, _, ⟨he, rfl⟩, hy⟩ := hx
      exact ⟨ty, he, hty.mp hy⟩
    · intro hx
      obtain ⟨ty, he, hr⟩ := hx
      exact ⟨ty, s, ⟨he, rfl⟩, hty.mpr hr⟩
  | some ty =>
    change Yields (do
      recordArray (.array ty)
      pure (Resolved.array ⟨.array ty, none⟩ rs ty)) s r t ↔ _
    rw [hty]
    simp [Hierarchy.ElementTy]

theorem yields_checkKey {key : Expr} {u : Unit} {s t : Session} :
    Yields (checkKey key) s u t ↔ key ≠ .array [] ∧ s = t := by
  unfold checkKey
  split
  · simpa using not_yields_throw
  · rename_i hk
    rw [yields_pure]
    exact ⟨fun hs => ⟨hk, hs.2⟩, fun hs => ⟨rfl, hs.2⟩⟩

theorem yields_keySymbol {key r : Resolved} {s t : Session} :
    Yields (keySymbol key) s r t ↔ KeySymbol key r ∧ s = t := by
  -- The two rules and the fault stand for three kinds of keys that exclude each other.
  unfold keySymbol
  split
  · rename_i hk
    rw [yields_pure]
    constructor
    · intro hx
      obtain ⟨rfl, rfl⟩ := hx
      exact ⟨.symbol hk, rfl⟩
    · intro hx
      obtain ⟨hs, rfl⟩ := hx
      cases hs with
      | symbol => exact ⟨rfl, rfl⟩
      | token ht => rw [hk] at ht; cases ht
  · rename_i hk
    rw [yields_pure]
    constructor
    · intro hx
      obtain ⟨rfl, rfl⟩ := hx
      exact ⟨.token hk, rfl⟩
    · intro hx
      obtain ⟨hs, rfl⟩ := hx
      cases hs with
      | symbol ht => rw [hk] at ht; cases ht
      | token => exact ⟨rfl, rfl⟩
  · rename_i hsymbol htoken
    constructor
    · intro hy
      exact absurd hy not_yields_throw
    · intro hx
      obtain ⟨hs, -⟩ := hx
      cases hs with
      | symbol ht => exact absurd ht hsymbol
      | token ht => exact absurd ht htoken

theorem yields_lookupTy {unique : Bool} {ty : Ty} {s t : Session} :
    Yields (lookupTy unique) s ty t ↔
      lookupValueTy unique = ty ∧ s.gathering (s.gathered.recordLookup unique) = t := by
  cases unique with
  | true => exact yields_pure
  | false =>
    change Yields (recordArray (.array .envElement) >>= fun _ => pure (.array .envElement)) s ty t
      ↔ _
    rw [yields_bind]
    simp only [yields_recordArray, yields_pure]
    constructor
    · intro hx
      obtain ⟨_, _, rfl, rfl, rfl⟩ := hx
      exact ⟨rfl, rfl⟩
    · intro hx
      obtain ⟨rfl, rfl⟩ := hx
      exact ⟨(), _, rfl, rfl, rfl⟩

theorem boundary_of_yields {h : Hierarchy} {sequential : Bool} {b : Option Resolved}
    {s t : Session} (hy : Yields (boundaryNode h sequential) s b t) :
    Boundary h s.scope sequential b ∧ s = t := by
  cases sequential with
  | false =>
    obtain ⟨rfl, rfl⟩ := yields_pure.mp hy
    exact ⟨.none, rfl⟩
  | true =>
    change Yields (orFail .noRoot h.root? >>= fun root =>
      some <$> nested h .self (some root) selfNode) s b t at hy
    simp only [yields_bind, yields_orFail, yields_map, yields_nested, yields_selfNode] at hy
    obtain ⟨root, _, ⟨hr, rfl⟩, r, ⟨-, hf, _, ⟨⟨p, hp, rfl⟩, rfl⟩, rfl⟩, rfl⟩ := hy
    exact ⟨.self hp hr (hf root rfl), rfl⟩

mutual

/-- A typing that succeeds is derived by the rules, has had levels enough, and changes the session
only in what it gathered. -/
theorem construct_derives (h : Hierarchy) (e : Expr) (expected : Option Ty) {s t : Session}
    {r : Resolved} (hy : Yields (construct h e expected) s r t) :
    s.depth + e.height ≤ Expr.maxNesting ∧
      ∃ g, t = s.gathering g ∧ Constructs h s.scope expected s.gathered e r g := by
  rw [construct.eq_def, yields_nested] at hy
  obtain ⟨hroom, hf, u, hu, rfl⟩ := hy
  -- The parts are typed one level deeper, in a session that differs only in its depth.
  let s' : Session := { s with depth := s.depth + 1 }
  -- Each step hands its session on to the next one, so the parts are derived in the order in which
  -- they are typed, each from what was gathered before it.
  have hnode : (∀ c ∈ e.parts, s.depth + 1 + c.height ≤ Expr.maxNesting) ∧
      ∃ g, u = s'.gathering g ∧ ConstructsNode h s.scope expected s.gathered e r g := by
    cases e with
    | literal v =>
      obtain ⟨rfl, rfl⟩ := yields_pure.mp hu
      exact ⟨List.forall_mem_nil _, _, rfl, .literal v⟩
    | self =>
      obtain ⟨⟨p, hp, rfl⟩, rfl⟩ := yields_selfNode.mp hu
      exact ⟨List.forall_mem_nil _, _, rfl, .self hp⟩
    | env =>
      obtain ⟨ha, rfl, rfl⟩ := yields_ambientEnv.mp hu
      exact ⟨List.forall_mem_nil _, _, rfl, .env ha⟩
    | emptyEnv =>
      obtain ⟨rfl, rfl⟩ := yields_pure.mp hu
      exact ⟨List.forall_mem_nil _, _, rfl, .emptyEnv⟩
    | field receiver name =>
      obtain ⟨r', _, hyr, hu⟩ := yields_bind.mp hu
      obtain ⟨hd, g, rfl, hr⟩ := construct_derives h receiver none hyr
      split at hu
      · rename_i node hn
        simp only [yields_bind, yields_orFail, yields_pure] at hu
        obtain ⟨ty, _, ⟨hty, rfl⟩, rfl, rfl⟩ := hu
        exact ⟨List.forall_mem_singleton.mpr hd, g, rfl, .field hr hn hty⟩
      · exact absurd hu not_yields_throw
    | array elements =>
      obtain ⟨rs, _, hyrs, hu⟩ := yields_bind.mp hu
      obtain ⟨hd, g, rfl, hrs⟩ := constructAll_derives h elements _ hyrs
      obtain ⟨ty, ht, rfl, rfl⟩ := yields_arrayOf.mp hu
      exact ⟨hd, _, rfl, .array hrs ht⟩
    | lookup e key recursive sequential unique =>
      obtain ⟨_, _, hy₀, hu⟩ := yields_bind.mp hu
      obtain ⟨h₀, rfl⟩ := yields_checkKey.mp hy₀
      obtain ⟨k', _, hyk', hu⟩ := yields_bind.mp hu
      obtain ⟨k, _, hyk, hys⟩ := yields_bind.mp hyk'
      obtain ⟨hdk, g₁, rfl, hk⟩ := construct_derives h key none hyk
      obtain ⟨hs, rfl⟩ := yields_keySymbol.mp hys
      obtain ⟨r, _, hye, hu⟩ := yields_bind.mp hu
      obtain ⟨hde, g₂, rfl, he⟩ := construct_derives h e _ hye
      obtain ⟨b, _, hyb, hu⟩ := yields_bind.mp hu
      obtain ⟨hb, rfl⟩ := boundary_of_yields hyb
      obtain ⟨c, _, hyc, hu⟩ := yields_bind.mp hu
      obtain ⟨hdc, g₃, rfl, hc⟩ := construct_derives h recursive _ hyc
      simp only [yields_bind, yields_lookupTy, yields_newLocal, yields_pure] at hu
      obtain ⟨_, _, ⟨rfl, rfl⟩, _, _, ⟨rfl, rfl⟩, rfl, rfl⟩ := hu
      refine ⟨?_, _, rfl, .lookup h₀ hk hs he hb hc rfl⟩
      exact List.forall_mem_cons.mpr ⟨hde, List.forall_mem_cons.mpr ⟨hdk,
        List.forall_mem_singleton.mpr hdc⟩⟩
    | evalInEnv e body =>
      obtain ⟨r, _, hye, hu⟩ := yields_bind.mp hu
      obtain ⟨hde, g₁, rfl, he⟩ := construct_derives h e _ hye
      obtain ⟨x, _, hyx, hu⟩ := yields_bind.mp hu
      obtain ⟨rfl, rfl⟩ := yields_newLocal.mp hyx
      obtain ⟨b, _, hyb, hu⟩ := yields_bind.mp hu
      obtain ⟨_, hyb', rfl⟩ := yields_within.mp hyb
      obtain ⟨hdb, g₂, rfl, hb⟩ := construct_derives h body none hyb'
      obtain ⟨rfl, rfl⟩ := yields_pure.mp hu
      refine ⟨?_, g₂, rfl, .evalInEnv he rfl hb⟩
      exact List.forall_mem_cons.mpr ⟨hde, List.forall_mem_singleton.mpr hdb⟩
    | orphan e =>
      obtain ⟨r, _, hye, hu⟩ := yields_bind.mp hu
      obtain ⟨hd, g₁, rfl, he⟩ := construct_derives h e _ hye
      obtain ⟨rfl, rfl⟩ := yields_heldCall.mp hu
      exact ⟨List.forall_mem_singleton.mpr hd, _, rfl, .orphan he⟩
    | group envs =>
      obtain ⟨r, _, hye, hu⟩ := yields_bind.mp hu
      obtain ⟨hd, g₁, rfl, he⟩ := construct_derives h envs _ hye
      obtain ⟨rfl, rfl⟩ := yields_heldCall.mp hu
      exact ⟨List.forall_mem_singleton.mpr hd, _, rfl, .group he⟩
    | groupAll envs =>
      obtain ⟨rs, _, hyrs, hu⟩ := yields_bind.mp hu
      obtain ⟨hd, g₁, rfl, hrs⟩ := constructAll_derives h envs _ hyrs
      obtain ⟨_, _, hya, hu⟩ := yields_bind.mp hu
      obtain ⟨_, rfl, rfl, rfl⟩ := yields_arrayOf.mp hya
      obtain ⟨rfl, rfl⟩ := yields_heldCall.mp hu
      exact ⟨hd, _, rfl, .groupAll hrs rfl⟩
    | isVisibleFrom referenced base =>
      obtain ⟨b, _, hyb, hu⟩ := yields_bind.mp hu
      obtain ⟨hdb, g₁, rfl, hb⟩ := construct_derives h base _ hyb
      obtain ⟨r, _, hyr, hu⟩ := yields_bind.mp hu
      obtain ⟨hdr, g₂, rfl, hr⟩ := construct_derives h referenced _ hyr
      obtain ⟨rfl, rfl⟩ := yields_pure.mp hu
      refine ⟨?_, g₂, rfl, .isVisibleFrom hb hr⟩
      exact List.forall_mem_cons.mpr ⟨hdr, List.forall_mem_singleton.mpr hdb⟩
    | envNode e =>
      obtain ⟨r, _, hye, hu⟩ := yields_bind.mp hu
      obtain ⟨hd, g₁, rfl, he⟩ := construct_derives h e _ hye
      simp only [yields_bind, yields_orFail, yields_pure] at hu
      obtain ⟨root, _, ⟨hr, rfl⟩, rfl, rfl⟩ := hu
      exact ⟨List.forall_mem_singleton.mpr hd, g₁, rfl, .envNode he hr⟩
  obtain ⟨hparts, g, rfl, hg⟩ := hnode
  exact ⟨Expr.fits_iff.mpr ⟨hroom, hparts⟩, g, rfl, .fits hg hf⟩

theorem constructAll_derives (h : Hierarchy) (es : List Expr) (expected : Option Ty)
    {s t : Session} {rs : List Resolved} (hy : Yields (constructAll h es expected) s rs t) :
    (∀ e ∈ es, s.depth + e.height ≤ Expr.maxNesting) ∧
      ∃ g, t = s.gathering g ∧ ConstructsAll h s.scope expected s.gathered es rs g := by
  rw [constructAll.eq_def] at hy
  cases es with
  | nil =>
    obtain ⟨rfl, rfl⟩ := yields_pure.mp hy
    exact ⟨List.forall_mem_nil _, _, rfl, .nil⟩
  | cons e es =>
    obtain ⟨r, _, hye, hy⟩ := yields_bind.mp hy
    obtain ⟨hd, g₁, rfl, he⟩ := construct_derives h e expected hye
    obtain ⟨rs, _, hyes, hy⟩ := yields_bind.mp hy
    obtain ⟨hds, g₂, rfl, hes⟩ := constructAll_derives h es expected hyes
    obtain ⟨rfl, rfl⟩ := yields_pure.mp hy
    exact ⟨List.forall_mem_cons.mpr ⟨hd, hds⟩, g₂, rfl, .cons he hes⟩

end

end Construction

namespace PropertyDecl

theorem headFault_eq_none_iff {h : Hierarchy} {p : PropertyDecl} :
    p.headFault? h = none ↔
      (h.node? p.signature.owner).isSome = true ∧ ∀ ty ∈ p.ty, h.undeclared? ty = none := by
  unfold headFault?
  split
  · rename_i howner
    simp [Option.isNone_iff_eq_none.mp howner]
  · rename_i howner
    rw [Option.map_eq_none_iff, Option.bind_eq_none_iff]
    have hsome : (h.node? p.signature.owner).isSome = true := by
      simpa [Option.isSome_iff_ne_none] using howner
    exact ⟨fun hty => ⟨hsome, hty⟩, fun hd => hd.2⟩

theorem check_eq_ok_iff {h : Hierarchy} {p : PropertyDecl} {ir : Property} :
    p.check h = .ok ir ↔ p.construct h = .ok ir := by
  unfold check
  split
  · rename_i ir' hir
    rw [hir]
    simp
  · rename_i fault hfault
    rw [hfault]
    simp

theorem construct_eq_ok_iff {h : Hierarchy} {p : PropertyDecl} {ir : Property} :
    p.construct h = .ok ir ↔ p.headFault? h = none ∧
      ∃ r t, (Construction.within (.bindDefault p.signature)
          (Construction.construct h p.body p.ty)).Yields {} r t ∧
        ir = ⟨p.signature, r, t.gathered.locals.toList, t.gathered.arrayTypes⟩ := by
  unfold construct Construction.Yields
  cases p.headFault? h with
  | some fault => simp
  | none =>
    dsimp only
    split
    · rename_i fault t hrun
      constructor
      · intro hir
        cases hir
      · intro hall
        obtain ⟨-, r, u, hyields, -⟩ := hall
        cases hrun.symm.trans hyields
    · rename_i r t hrun
      constructor
      · intro hir
        exact ⟨rfl, r, t, hrun, (Except.ok.inj hir).symm⟩
      · intro hall
        obtain ⟨-, r', u, hyields, rfl⟩ := hall
        cases hrun.symm.trans hyields
        rfl

theorem check_derives {h : Hierarchy} {p : PropertyDecl} {ir : Property}
    (hc : p.check h = .ok ir) :
    (h.node? p.signature.owner).isSome = true ∧ (∀ ty ∈ p.ty, h.undeclared? ty = none) ∧
      ∃ r g, Constructs h (({} : Scope).bindDefault p.signature) p.ty {} p.body r g ∧
        ir = ⟨p.signature, r, g.locals.toList, g.arrayTypes⟩ := by
  obtain ⟨hhead, r, t, hy, rfl⟩ := construct_eq_ok_iff.mp (check_eq_ok_iff.mp hc)
  obtain ⟨howner, hty⟩ := headFault_eq_none_iff.mp hhead
  obtain ⟨u, hu, rfl⟩ := Construction.yields_within.mp hy
  obtain ⟨-, g, rfl, hr⟩ := Construction.construct_derives h p.body p.ty hu
  exact ⟨howner, hty, r, g, hr, rfl⟩

end PropertyDecl

def Sample.hierarchy : Hierarchy where
  nodes := [⟨"Node", none, []⟩, ⟨"Name", some "Node", [("identifier", .token)]⟩]
  faultless := rfl

def Sample.property : PropertyDecl where
  signature := ⟨"Name", "referenced", true⟩
  ty := some .envElement
  body := .evalInEnv (.orphan .env)
    (.lookup .env (.field .self "identifier") (.ofBool true) true true)

end FrontEnd
