import Mathlib.Data.List.Perm.Subperm
import Mathlib.Logic.Relation
import FrontEnd.Hierarchy

namespace FrontEnd

theorem orElse_none_iff {α : Type} (a b : Option α) :
    (a <|> b) = none ↔ a = none ∧ b = none := by
  cases a <;> simp

namespace NodeType

theorem name_of_find {nodes : List NodeType} {name : String} {n : NodeType}
    (h : find? nodes name = some n) : n.name = name := by
  simpa using List.find?_some h

theorem mem_of_find {nodes : List NodeType} {name : String} {n : NodeType}
    (h : find? nodes name = some n) : n ∈ nodes :=
  List.mem_of_find?_eq_some h

theorem find_isSome_of_mem {nodes : List NodeType} {n : NodeType} (h : n ∈ nodes) :
    (find? nodes n.name).isSome = true :=
  List.find?_isSome.mpr ⟨n, h, by simp⟩

theorem climb_eq_take (nodes : List NodeType) {k j : Nat} (hkj : k ≤ j) (name : String) :
    climb nodes k name = (climb nodes j name).take k := by
  induction k generalizing j name with
  | zero => simp [climb]
  | succ k ih =>
    obtain ⟨j, rfl⟩ : ∃ i, j = i + 1 := ⟨j - 1, by omega⟩
    rw [climb, climb]
    cases find? nodes name with
    | none => rfl
    | some n =>
      have hb : n.base.elim [] (climb nodes k) = (n.base.elim [] (climb nodes j)).take k := by
        cases n.base with
        | none => exact List.take_nil.symm
        | some base => exact ih (by omega) base
      simp only [List.take_succ_cons, hb]

theorem climb_of_short {nodes : List NodeType} {k j : Nat} {name : String}
    (hk : (climb nodes k name).length < k) (hkj : k ≤ j) :
    climb nodes j name = climb nodes k name := by
  have ht := climb_eq_take nodes hkj name
  have hl : (climb nodes k name).length = min k (climb nodes j name).length := by
    rw [ht, List.length_take]
  rw [ht, List.take_of_length_le (by omega)]

theorem nodeFault_eq_none_iff {nodes earlier : List NodeType} {n : NodeType} :
    nodeFault? nodes earlier n = none ↔ (∀ m ∈ earlier, m.name ≠ n.name) ∧
      baseFault? nodes n = none ∧ isEndless nodes n = false ∧ fieldFault? nodes n = none := by
  unfold nodeFault?
  cases hd : earlier.any (·.name == n.name) with
  | true =>
    obtain ⟨m, hm, hname⟩ := List.any_eq_true.mp hd
    simp only [if_true, reduceCtorEq, false_iff]
    exact fun hx => hx.1 m hm (by simpa using hname)
  | false =>
    have hapart : ∀ m ∈ earlier, m.name ≠ n.name := by simpa using hd
    rw [if_neg (by simp), orElse_none_iff, orElse_none_iff, and_iff_right hapart]
    cases isEndless nodes n <;> simp

theorem listFault_eq_none_iff {nodes earlier ns : List NodeType} :
    listFault? nodes earlier ns = none ↔
      (∀ n ∈ ns, baseFault? nodes n = none ∧ isEndless nodes n = false ∧
        fieldFault? nodes n = none) ∧
      (∀ m ∈ earlier, ∀ n ∈ ns, m.name ≠ n.name) ∧ (ns.map NodeType.name).Nodup := by
  induction ns generalizing earlier with
  | nil => simp [listFault?]
  | cons n ns ih =>
    rw [listFault?, orElse_none_iff, nodeFault_eq_none_iff, ih, List.forall_mem_cons,
      List.forall_mem_append, List.forall_mem_singleton, List.map_cons, List.nodup_cons]
    constructor
    · intro hx
      obtain ⟨⟨hn, hchecks⟩, hall, ⟨hns, hlater⟩, hnodup⟩ := hx
      refine ⟨⟨hchecks, hall⟩, fun m hm => List.forall_mem_cons.mpr ⟨hn m hm, hns m hm⟩, ?_, hnodup⟩
      intro hmem
      obtain ⟨m, hm, hname⟩ := List.mem_map.mp hmem
      exact hlater m hm hname.symm
    · intro hx
      obtain ⟨⟨hchecks, hall⟩, hapart, hnew, hnodup⟩ := hx
      refine ⟨⟨fun m hm => hapart m hm n List.mem_cons_self, hchecks⟩, hall,
        ⟨fun m hm x hx => hapart m hm x (List.mem_cons_of_mem n hx), fun m hm hname => ?_⟩, hnodup⟩
      exact hnew (hname ▸ List.mem_map_of_mem hm)

end NodeType

namespace Hierarchy

variable (h : Hierarchy)

theorem node_checks {n : NodeType} (hn : n ∈ h.nodes) :
    NodeType.baseFault? h.nodes n = none ∧ NodeType.isEndless h.nodes n = false ∧
      NodeType.fieldFault? h.nodes n = none := by
  have hf := h.faultless
  rw [NodeType.fault?, orElse_none_iff] at hf
  exact (NodeType.listFault_eq_none_iff.mp hf.1).1 n hn

theorem climb_base_short {n : NodeType} (hn : n ∈ h.nodes) {base : String}
    (hb : n.base = some base) :
    (NodeType.climb h.nodes (h.nodes.length + 1) base).length ≤ h.nodes.length := by
  have he := (h.node_checks hn).2.1
  simpa [NodeType.isEndless, hb] using he

/-- The way up from a name, under a limit that no way up reaches. -/
def ascent (name : String) : List NodeType := NodeType.climb h.nodes (h.nodes.length + 2) name

theorem ascent_cons {name : String} {n : NodeType} (hn : h.node? name = some n) :
    h.ascent name = n :: n.base.elim [] h.ascent := by
  have hm : n ∈ h.nodes := NodeType.mem_of_find hn
  have hb : n.base.elim [] (NodeType.climb h.nodes (h.nodes.length + 1)) =
      n.base.elim [] h.ascent := by
    cases hbase : n.base with
    | none => rfl
    | some base =>
      have hs := h.climb_base_short hm hbase
      exact (NodeType.climb_of_short (by omega) (by omega)).symm
  have hf : NodeType.find? h.nodes name = some n := hn
  rw [ascent, NodeType.climb, hf]
  exact congrArg (n :: ·) hb

theorem ascent_nil {name : String} (hn : h.node? name = none) : h.ascent name = [] := by
  have hf : NodeType.find? h.nodes name = none := hn
  rw [ascent, NodeType.climb, hf]

/-- Induction along the way up: a name that is not declared, or a node behind its base. -/
theorem ascent_induction {P : String → Prop} (undeclared : ∀ name, h.node? name = none → P name)
    (declared : ∀ name n, h.node? name = some n → (∀ base ∈ n.base, P base) → P name)
    (name : String) : P name := by
  -- The way up from a base is one node shorter, so its length carries the induction.
  generalize hk : (h.ascent name).length = k
  induction k using Nat.strongRecOn generalizing name with
  | ind k ih =>
    cases hn : h.node? name with
    | none => exact undeclared name hn
    | some n =>
      refine declared name n hn fun base hb => ih _ ?_ base rfl
      rw [Option.mem_def] at hb
      rw [h.ascent_cons hn, hb] at hk
      simp only [Option.elim_some, List.length_cons] at hk
      omega

theorem ascent_length_le {name : String} {m : NodeType} (hm : m ∈ h.ascent name) :
    (h.ascent m.name).length ≤ (h.ascent name).length := by
  induction name using h.ascent_induction with
  | undeclared name hn => simp [h.ascent_nil hn] at hm
  | declared name n hn ih =>
    have hc := h.ascent_cons hn
    rw [hc] at hm
    rcases List.mem_cons.mp hm with rfl | hm
    · exact Nat.le_of_eq (congrArg (fun x => (h.ascent x).length) (NodeType.name_of_find hn))
    · cases hb : n.base with
      | none => simp [hb] at hm
      | some base =>
        have hl := ih base hb (by simpa [hb] using hm)
        rw [hc, hb]
        simp only [Option.elim_some, List.length_cons]
        omega

theorem ascent_nodup (name : String) : (h.ascent name).Nodup := by
  induction name using h.ascent_induction with
  | undeclared name hn => simp [h.ascent_nil hn]
  | declared name n hn ih =>
    have hc := h.ascent_cons hn
    cases hb : n.base with
    | none => simp [hc, hb]
    | some base =>
      rw [hb, Option.elim_some] at hc
      rw [hc, List.nodup_cons]
      refine ⟨fun hm => ?_, ih base hb⟩
      -- If the node came again above its base, the way up from there would include itself.
      have hl := h.ascent_length_le hm
      rw [NodeType.name_of_find hn, hc, List.length_cons] at hl
      omega

theorem mem_nodes_of_ascent {name : String} {m : NodeType} (hm : m ∈ h.ascent name) :
    m ∈ h.nodes := by
  induction name using h.ascent_induction with
  | undeclared name hn => simp [h.ascent_nil hn] at hm
  | declared name n hn ih =>
    rw [h.ascent_cons hn] at hm
    rcases List.mem_cons.mp hm with rfl | hm
    · exact NodeType.mem_of_find hn
    · cases hb : n.base with
      | none => simp [hb] at hm
      | some base => exact ih base hb (by simpa [hb] using hm)

theorem lineage_eq_ascent (name : String) : h.lineage name = h.ascent name := by
  -- The lineage is the whole way up, since the nodes on it differ.
  have hs : (h.ascent name).length ≤ h.nodes.length :=
    (List.subperm_of_subset (h.ascent_nodup name) fun _ => h.mem_nodes_of_ascent).length_le
  have ht := NodeType.climb_eq_take h.nodes (Nat.le_add_right h.nodes.length 2) name
  exact ht.trans (List.take_of_length_le hs)

theorem lineage_cons {name : String} {n : NodeType} (hn : h.node? name = some n) :
    h.lineage name = n :: n.base.elim [] h.lineage := by
  have hl : h.lineage = h.ascent := funext h.lineage_eq_ascent
  rw [hl]
  exact h.ascent_cons hn

theorem lineage_nil {name : String} (hn : h.node? name = none) : h.lineage name = [] :=
  (h.lineage_eq_ascent name).trans (h.ascent_nil hn)

/-- One step up: the second name is the base of the node of the first one. -/
def Base (lower upper : String) : Prop := ∃ n, h.node? lower = some n ∧ n.base = some upper

theorem base_declared {lower upper : String} (hb : h.Base lower upper) :
    (h.node? upper).isSome = true := by
  obtain ⟨n, hn, hu⟩ := hb
  have hf := (h.node_checks (NodeType.mem_of_find hn)).1
  simp only [NodeType.baseFault?, hu] at hf
  by_contra hd
  exact absurd hf (by simp [show ¬(NodeType.find? h.nodes upper).isSome = true from hd])

theorem mem_lineage_iff {name : String} {m : NodeType} :
    m ∈ h.lineage name ↔
      h.node? m.name = some m ∧ Relation.ReflTransGen h.Base name m.name := by
  constructor
  · intro hm
    induction name using h.ascent_induction with
    | undeclared name hn => simp [h.lineage_nil hn] at hm
    | declared name n hn ih =>
      rw [h.lineage_cons hn] at hm
      rcases List.mem_cons.mp hm with rfl | hm
      · have hname := NodeType.name_of_find hn
        rw [hname]
        exact ⟨hn, .refl⟩
      · cases hb : n.base with
        | none => simp [hb] at hm
        | some base =>
          obtain ⟨hd, hr⟩ := ih base hb (by simpa [hb] using hm)
          exact ⟨hd, .head ⟨n, hn, hb⟩ hr⟩
  · intro hx
    -- Along the way up, from its end: the node there stands first in its own lineage.
    obtain ⟨hd, hr⟩ := hx
    induction hr using Relation.ReflTransGen.head_induction_on with
    | refl =>
      rw [h.lineage_cons hd]
      exact List.mem_cons_self
    | head hstep _ ih =>
      obtain ⟨n, hn, hb⟩ := hstep
      rw [h.lineage_cons hn, hb]
      exact List.mem_cons_of_mem n ih

theorem isAncestor_iff {upper lower : String} :
    h.isAncestor upper lower = true ↔
      (h.node? upper).isSome = true ∧ Relation.ReflTransGen h.Base lower upper := by
  rw [isAncestor, List.any_eq_true]
  constructor
  · intro hx
    obtain ⟨m, hm, hname⟩ := hx
    rw [beq_iff_eq] at hname
    obtain ⟨hd, hr⟩ := h.mem_lineage_iff.mp hm
    rw [← hname]
    exact ⟨by rw [hd]; rfl, hr⟩
  · intro hx
    obtain ⟨hd, hr⟩ := hx
    obtain ⟨m, hm⟩ := Option.isSome_iff_exists.mp hd
    have hname : m.name = upper := NodeType.name_of_find hm
    subst hname
    exact ⟨m, h.mem_lineage_iff.mpr ⟨hm, hr⟩, by simp⟩

theorem isSubtype_iff {a b : Ty} :
    h.isSubtype a b = true ↔
      a = b ∨ ∃ l u, a = .node l ∧ b = .node u ∧ Relation.TransGen h.Base l u := by
  rw [isSubtype, decide_eq_true_iff]
  unfold subtyping
  by_cases hab : a = b
  · simp [hab]
  · simp only [hab, if_false, false_or]
    constructor
    · intro hs
      -- Only two node types are looked up in the hierarchy.
      split at hs
      · rename_i l u
        split at hs
        · rename_i ha
          have hr := (h.isAncestor_iff.mp ha).2
          rcases Relation.reflTransGen_iff_eq_or_transGen.mp hr with he | ht
          · exact absurd (congrArg Ty.node he.symm) hab
          · exact ⟨l, u, rfl, rfl, ht⟩
        · exact absurd rfl hs
      · exact absurd rfl hs
    · intro hx
      obtain ⟨l, u, rfl, rfl, ht⟩ := hx
      obtain ⟨v, _, hb⟩ := Relation.TransGen.tail'_iff.mp ht
      have ha := h.isAncestor_iff.mpr ⟨h.base_declared hb, ht.to_reflTransGen⟩
      simp [ha]

theorem isSubtype_refl (a : Ty) : h.isSubtype a a = true := h.isSubtype_iff.mpr (Or.inl rfl)

theorem isSubtype_trans {a b c : Ty} (hab : h.isSubtype a b = true)
    (hbc : h.isSubtype b c = true) : h.isSubtype a c = true := by
  rcases h.isSubtype_iff.mp hab with rfl | ⟨l, m, rfl, rfl, hlm⟩
  · exact hbc
  · rcases h.isSubtype_iff.mp hbc with rfl | ⟨m', u, hm, rfl, hmu⟩
    · exact hab
    · cases hm
      exact h.isSubtype_iff.mpr (Or.inr ⟨l, u, rfl, rfl, hlm.trans hmu⟩)

theorem eq_of_isSubtype {a b : Ty} (hab : h.isSubtype a b = true) (hb : ∀ u, b ≠ .node u) :
    a = b := by
  rcases h.isSubtype_iff.mp hab with he | ⟨_, u, _, rfl, _⟩
  · exact he
  · exact absurd rfl (hb u)

theorem lcs_upper {a b c : Ty} (hc : h.leastCommonSupertype? a b = some c) :
    h.isSubtype a c = true ∧ h.isSubtype b c = true := by
  unfold leastCommonSupertype? at hc
  split at hc
  · rename_i hab
    cases hc
    exact ⟨hab, h.isSubtype_refl b⟩
  · split at hc
    · rename_i hba
      cases hc
      exact ⟨h.isSubtype_refl a, hba⟩
    · split at hc
      · rename_i l r _ _
        have hmem := List.mem_of_find?_eq_some hc
        have hbc := List.find?_some hc
        simp only [List.mem_map, List.mem_filterMap] at hmem
        obtain ⟨u, ⟨m, hm, hu⟩, rfl⟩ := hmem
        obtain ⟨hd, hr⟩ := h.mem_lineage_iff.mp hm
        -- The candidates are bases of the lineage, so each is at least one step above `l`.
        have ht : Relation.TransGen h.Base l u := .tail' hr ⟨m, hd, hu⟩
        exact ⟨h.isSubtype_iff.mpr (Or.inr ⟨l, u, rfl, rfl, ht⟩), hbc⟩
      · cases hc

theorem undeclared_node_iff {name : String} :
    h.undeclared? (.node name) = none ↔ (h.node? name).isSome = true := by
  simp only [undeclared?, NodeType.undeclared?, node?]
  cases NodeType.find? h.nodes name <;> simp

theorem root_declared {ty : Ty} (hr : h.root? = some ty) : h.undeclared? ty = none := by
  obtain ⟨n, hn, rfl⟩ := Option.map_eq_some_iff.mp hr
  exact h.undeclared_node_iff.mpr (NodeType.find_isSome_of_mem (List.mem_of_find?_eq_some hn))

theorem fieldType_declared {node field : String} {ty : Ty}
    (hf : h.fieldType? node field = some ty) : h.undeclared? ty = none := by
  obtain ⟨n, hn, hty⟩ := List.exists_of_findSome?_eq_some hf
  obtain ⟨⟨name, ty'⟩, hfield, rfl⟩ := Option.map_eq_some_iff.mp hty
  have hmem : n ∈ h.nodes :=
    NodeType.mem_of_find (h.mem_lineage_iff.mp hn).1
  have hfault := (h.node_checks hmem).2.2
  rw [NodeType.fieldFault?, List.findSome?_eq_none_iff] at hfault
  exact Option.map_eq_none_iff.mp (hfault _ (List.mem_of_find?_eq_some hfield))

theorem lcs_declared {a b c : Ty} (ha : h.undeclared? a = none)
    (hc : h.leastCommonSupertype? a b = some c) : h.undeclared? c = none := by
  rcases h.isSubtype_iff.mp (h.lcs_upper hc).1 with rfl | ⟨_, u, _, rfl, ht⟩
  · exact ha
  · obtain ⟨v, _, hv⟩ := Relation.TransGen.tail'_iff.mp ht
    exact h.undeclared_node_iff.mpr (h.base_declared hv)

end Hierarchy

end FrontEnd
