import FrontEnd.Proofs.TypingSoundness

namespace FrontEnd.Hierarchy

variable {h : Hierarchy}

theorem ascent_lt_of_base {lower upper : String} (hb : h.Base lower upper) :
    (h.ascent upper).length < (h.ascent lower).length := by
  obtain ⟨n, hn, hu⟩ := hb
  rw [h.ascent_cons hn, hu]
  exact Nat.lt_succ_self _

theorem ascent_lt {lower upper : String} (hb : Relation.TransGen h.Base lower upper) :
    (h.ascent upper).length < (h.ascent lower).length := by
  induction hb with
  | single hb => exact ascent_lt_of_base hb
  | tail _ hb ih => exact Nat.lt_trans (ascent_lt_of_base hb) ih

theorem isSubtype_antisymm {a b : Ty} (hab : h.isSubtype a b = true)
    (hba : h.isSubtype b a = true) : a = b := by
  rcases h.isSubtype_iff.mp hab with rfl | ⟨l, u, rfl, rfl, hlu⟩
  · rfl
  · rcases h.isSubtype_iff.mp hba with heq | ⟨u', l', hu, hl, hul⟩
    · exact heq.symm
    · cases hu
      cases hl
      exact absurd (ascent_lt hlu) (Nat.lt_asymm (ascent_lt hul))

theorem isSubtype_of_up {lower upper : String} (hup : Relation.ReflTransGen h.Base lower upper) :
    h.isSubtype (.node lower) (.node upper) = true := by
  rcases Relation.reflTransGen_iff_eq_or_transGen.mp hup with rfl | hup
  · exact h.isSubtype_refl _
  · exact h.isSubtype_iff.mpr (.inr ⟨lower, upper, rfl, rfl, hup⟩)

theorem exists_root_above {name : String} (hd : (h.node? name).isSome = true) :
    ∃ m ∈ h.nodes, m.base = none ∧ Relation.ReflTransGen h.Base name m.name := by
  induction name using h.ascent_induction with
  | undeclared name hn => simp [hn] at hd
  | declared name n hn ih =>
    cases hb : n.base with
    | none =>
      refine ⟨n, NodeType.mem_of_find hn, hb, ?_⟩
      rw [NodeType.name_of_find hn]
    | some base =>
      have hstep : h.Base name base := ⟨n, hn, hb⟩
      obtain ⟨m, hm, hroot, hup⟩ := ih base hb (h.base_declared hstep)
      exact ⟨m, hm, hroot, .head hstep hup⟩

theorem root_unique {m n : NodeType} (hm : m ∈ h.nodes) (hn : n ∈ h.nodes) (hm' : m.base = none)
    (hn' : n.base = none) : m = n := by
  have hf := h.faultless
  rw [NodeType.fault?, orElse_none_iff] at hf
  have hcount : NodeType.rootCount h.nodes = 1 := by
    have hne : h.nodes ≠ [] := List.ne_nil_of_mem hm
    by_contra hc
    simp [hne, hc] at hf
  rw [NodeType.rootCount, List.countP_eq_length_filter, List.length_eq_one_iff] at hcount
  obtain ⟨root, hroot⟩ := hcount
  have hmroot : m ∈ [root] := hroot ▸ List.mem_filter.mpr ⟨hm, by simp [hm']⟩
  have hnroot : n ∈ [root] := hroot ▸ List.mem_filter.mpr ⟨hn, by simp [hn']⟩
  rw [List.mem_singleton.mp hmroot, List.mem_singleton.mp hnroot]

theorem root_eq {m : NodeType} (hm : m ∈ h.nodes) (hm' : m.base = none) :
    h.root? = some (.node m.name) := by
  have hsome : (h.nodes.find? (·.base.isNone)).isSome = true :=
    List.find?_isSome.mpr ⟨m, hm, by simp [hm']⟩
  obtain ⟨n, hn⟩ := Option.isSome_iff_exists.mp hsome
  have heq : n = m :=
    root_unique (List.mem_of_find?_eq_some hn) hm (by simpa using List.find?_some hn) hm'
  rw [root?, hn, heq]
  rfl

theorem root_above {name : String} (hd : (h.node? name).isSome = true) :
    ∃ root, h.root? = some root ∧ h.isSubtype (.node name) root = true := by
  obtain ⟨m, hm, hroot, hup⟩ := exists_root_above hd
  exact ⟨.node m.name, root_eq hm hroot, isSubtype_of_up hup⟩

/-- The names of the bases on the way up, nearest first. -/
def bases (h : Hierarchy) (name : String) : List String := (h.lineage name).filterMap (·.base)

theorem bases_cons {lower upper : String} (hb : h.Base lower upper) :
    h.bases lower = upper :: h.bases upper := by
  obtain ⟨n, hn, hu⟩ := hb
  rw [bases, h.lineage_cons hn, List.filterMap_cons, hu]
  rfl

theorem first_base_least {P : String → Bool} {lower upper : String}
    (hup : Relation.TransGen h.Base lower upper) (hP : P upper = true) :
    ∃ first, (h.bases lower).find? P = some first ∧ Relation.ReflTransGen h.Base first upper := by
  induction hup using Relation.TransGen.head_induction_on with
  | single hb =>
    refine ⟨upper, ?_, .refl⟩
    rw [bases_cons hb, List.find?_cons_of_pos hP]
  | @head lower middle hb hup ih =>
    -- The search takes the next base or goes on above it, on the same way up.
    rw [bases_cons hb]
    by_cases hmiddle : P middle = true
    · exact ⟨middle, List.find?_cons_of_pos hmiddle, hup.to_reflTransGen⟩
    · obtain ⟨first, hfind, hle⟩ := ih
      exact ⟨first, by rw [List.find?_cons_of_neg hmiddle, hfind], hle⟩

/-- Two types below a third one have a least common supertype, which is below it too. -/
theorem lcs_least {a b u : Ty} (ha : h.isSubtype a u = true) (hb : h.isSubtype b u = true) :
    ∃ c, h.leastCommonSupertype? a b = some c ∧ h.isSubtype c u = true := by
  unfold leastCommonSupertype?
  split
  · exact ⟨b, rfl, hb⟩
  case isFalse hab =>
    split
    · exact ⟨a, rfl, ha⟩
    case isFalse hba =>
      -- Neither type is the third one, so both are nodes strictly below it.
      rcases h.isSubtype_iff.mp ha with rfl | ⟨l, v, rfl, rfl, hlv⟩
      · exact absurd hb hba
      rcases h.isSubtype_iff.mp hb with rfl | ⟨r, v', rfl, hv, -⟩
      · exact absurd ha hab
      obtain ⟨first, hfind, hup⟩ := first_base_least (P := h.isSubtype (.node r) ∘ Ty.node) hlv hb
      refine ⟨.node first, ?_, isSubtype_of_up hup⟩
      change ((h.bases l).map Ty.node).find? (h.isSubtype (.node r)) = _
      rw [List.find?_map, hfind]
      rfl

/-- The type is the lowest of those above all listed types. -/
structure LeastAbove (h : Hierarchy) (tys : List Ty) (ty : Ty) : Prop where
  above : ∀ t ∈ tys, h.isSubtype t ty = true
  least : ∀ u, (∀ t ∈ tys, h.isSubtype t u = true) → h.isSubtype ty u = true

theorem lowestAbove_least {tys : List Ty} {u : Ty} (hne : tys ≠ [])
    (hu : ∀ t ∈ tys, h.isSubtype t u = true) :
    ∃ ty, h.lowestAbove? tys = some ty ∧ h.isSubtype ty u = true := by
  cases tys with
  | nil => exact absurd rfl hne
  | cons first rest =>
    change ∃ ty, rest.foldlM h.leastCommonSupertype? first = some ty ∧ _
    -- The type reached so far stays below `u`, so it can be joined with the next one.
    induction rest generalizing first with
    | nil => exact ⟨first, rfl, hu first List.mem_cons_self⟩
    | cons second rest ih =>
      rw [List.forall_mem_cons, List.forall_mem_cons] at hu
      obtain ⟨joined, hjoined, hle⟩ := lcs_least hu.1 hu.2.1
      rw [List.foldlM_cons, hjoined]
      exact ih joined (by simp) (List.forall_mem_cons.mpr ⟨hle, hu.2.2⟩)

theorem lowestAbove_eq_some_iff {tys : List Ty} {ty : Ty} :
    h.lowestAbove? tys = some ty ↔ tys ≠ [] ∧ h.LeastAbove tys ty := by
  constructor
  · intro hty
    have hne : tys ≠ [] := by
      intro he
      rw [he] at hty
      cases hty
    refine ⟨hne, lowestAbove_upper hty, fun u hu => ?_⟩
    obtain ⟨ty', hty', hle⟩ := lowestAbove_least hne hu
    rw [hty] at hty'
    cases hty'
    exact hle
  · intro hx
    obtain ⟨hne, hleast⟩ := hx
    obtain ⟨ty', hty', hle⟩ := lowestAbove_least hne hleast.above
    rw [hty', isSubtype_antisymm hle (hleast.least ty' (lowestAbove_upper hty'))]

end FrontEnd.Hierarchy
