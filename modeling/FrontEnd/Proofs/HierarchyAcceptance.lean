import Mathlib.Data.List.Nodup
import FrontEnd.Proofs.Typability

namespace FrontEnd

namespace NodeType

/-- One step up: the second name is the base of a listed node of the first name. -/
def Below (nodes : List NodeType) (lower upper : String) : Prop :=
  ∃ n ∈ nodes, n.name = lower ∧ n.base = some upper

/-- The list describes a hierarchy. -/
structure WellFormed (nodes : List NodeType) : Prop where
  distinct : (nodes.map NodeType.name).Nodup
  based : ∀ n ∈ nodes, ∀ base ∈ n.base, ∃ m ∈ nodes, m.name = base
  acyclic : ∀ n ∈ nodes, ¬ Relation.TransGen (Below nodes) n.name n.name
  /-- The nodes that the type of a field names, inside arrays too, are listed. -/
  declared : ∀ n ∈ nodes, ∀ field ∈ n.fields, ∀ name ∈ field.2.nodeNames,
    ∃ m ∈ nodes, m.name = name
  rooted : nodes = [] ∨ ∃! n, n ∈ nodes ∧ n.base = none

variable {nodes : List NodeType}

theorem find_isSome_iff {name : String} :
    (find? nodes name).isSome = true ↔ ∃ m ∈ nodes, m.name = name := by
  simp [find?, List.find?_isSome]

theorem find_of_mem (hd : (nodes.map NodeType.name).Nodup) {n : NodeType} (hn : n ∈ nodes) :
    find? nodes n.name = some n := by
  obtain ⟨m, hm⟩ := Option.isSome_iff_exists.mp (find_isSome_of_mem hn)
  rw [hm, List.inj_on_of_nodup_map hd (mem_of_find hm) hn (name_of_find hm)]

theorem baseFault_eq_none_iff {n : NodeType} :
    baseFault? nodes n = none ↔ ∀ base ∈ n.base, ∃ m ∈ nodes, m.name = base := by
  unfold baseFault?
  cases n.base with
  | none => simp
  | some base =>
    simp only [Option.mem_def, Option.some.injEq, forall_eq', ← find_isSome_iff]
    cases (find? nodes base).isSome <;> simp

theorem fieldFault_eq_none_iff {n : NodeType} :
    fieldFault? nodes n = none ↔
      ∀ field ∈ n.fields, ∀ name ∈ field.2.nodeNames, ∃ m ∈ nodes, m.name = name := by
  simp only [fieldFault?, List.findSome?_eq_none_iff, Option.map_eq_none_iff,
    undeclared_eq_none_iff, find_isSome_iff]

theorem length_climb_le (limit : Nat) (name : String) : (climb nodes limit name).length ≤ limit := by
  induction limit generalizing name with
  | zero => exact Nat.le_refl 0
  | succ limit ih =>
    rw [climb]
    split
    · exact Nat.zero_le _
    · rename_i n _
      cases n.base with
      | none => simp
      | some base => simpa using ih base

theorem below_of_mem_climb {limit : Nat} {name : String} {m : NodeType}
    (hm : m ∈ climb nodes limit name) :
    m ∈ nodes ∧ Relation.ReflTransGen (Below nodes) name m.name := by
  induction limit generalizing name with
  | zero => cases hm
  | succ limit ih =>
    rw [climb] at hm
    split at hm
    · cases hm
    · rename_i n hn
      have hname : n.name = name := name_of_find hn
      rcases List.mem_cons.mp hm with rfl | hm
      · exact ⟨mem_of_find hn, by rw [hname]⟩
      · cases hb : n.base with
        | none => simp [hb] at hm
        | some base =>
          obtain ⟨hmem, hup⟩ := ih (by simpa [hb] using hm)
          exact ⟨hmem, .head ⟨n, mem_of_find hn, hname, hb⟩ hup⟩

theorem climb_nodup (hacyclic : ∀ n ∈ nodes, ¬ Relation.TransGen (Below nodes) n.name n.name)
    (limit : Nat) (name : String) : (climb nodes limit name).Nodup := by
  -- A node that came again on its way up would be above itself.
  induction limit generalizing name with
  | zero => exact List.nodup_nil
  | succ limit ih =>
    rw [climb]
    split
    · exact List.nodup_nil
    · rename_i n hn
      cases hb : n.base with
      | none => exact List.nodup_singleton n
      | some base =>
        -- Steps lead from the base to all that is passed after it, and from the node to the base.
        refine List.nodup_cons.mpr ⟨fun hm => ?_, ih base⟩
        have hstep : Below nodes n.name base := ⟨n, mem_of_find hn, rfl, hb⟩
        exact hacyclic n (mem_of_find hn) (.head' hstep (below_of_mem_climb hm).2)

theorem isEndless_eq_false
    (hacyclic : ∀ n ∈ nodes, ¬ Relation.TransGen (Below nodes) n.name n.name) (n : NodeType) :
    isEndless nodes n = false := by
  -- So it fits into the list, and the search for cycles never reaches its limit.
  have hfits (base : String) : (climb nodes (nodes.length + 1) base).length ≤ nodes.length :=
    (List.subperm_of_subset (climb_nodup hacyclic _ base) fun _ hm =>
      (below_of_mem_climb hm).1).length_le
  rw [isEndless, decide_eq_false_iff_not, Nat.not_lt]
  cases n.base with
  | none => exact Nat.zero_le _
  | some base => exact hfits base

theorem length_climb_of_based (hbased : ∀ n ∈ nodes, ∃ base ∈ n.base, ∃ m ∈ nodes, m.name = base)
    (limit : Nat) {name : String} (hname : ∃ m ∈ nodes, m.name = name) :
    (climb nodes limit name).length = limit := by
  -- Where every node has a listed base, every way up is as long as its limit.
  induction limit generalizing name with
  | zero => rfl
  | succ limit ih =>
    obtain ⟨n, hn⟩ := Option.isSome_iff_exists.mp (find_isSome_iff.mpr hname)
    obtain ⟨base, hb, hlisted⟩ := hbased n (mem_of_find hn)
    rw [Option.mem_def] at hb
    rw [climb, hn]
    simpa [hb] using ih hlisted

theorem exists_root (hne : nodes ≠ [])
    (hchecks : ∀ n ∈ nodes, baseFault? nodes n = none ∧ isEndless nodes n = false) :
    ∃ n ∈ nodes, n.base = none := by
  -- Nodes that pass the checks of their bases have a root among them: a list in which all
  -- have bases has endless ways up.
  by_contra hall
  have hbased : ∀ n ∈ nodes, ∃ base ∈ n.base, ∃ m ∈ nodes, m.name = base := by
    intro n hn
    obtain ⟨base, hb⟩ := Option.ne_none_iff_exists'.mp fun hb => hall ⟨n, hn, hb⟩
    exact ⟨base, hb, baseFault_eq_none_iff.mp (hchecks n hn).1 base hb⟩
  obtain ⟨n, hn⟩ := List.exists_mem_of_ne_nil nodes hne
  obtain ⟨base, hb, hlisted⟩ := hbased n hn
  rw [Option.mem_def] at hb
  have hlong := length_climb_of_based hbased (nodes.length + 1) hlisted
  have hends := (hchecks n hn).2
  rw [isEndless, hb, Option.elim_some, hlong] at hends
  simp at hends

theorem rootCount_eq_one_iff (hd : (nodes.map NodeType.name).Nodup) :
    rootCount nodes = 1 ↔ ∃! n, n ∈ nodes ∧ n.base = none := by
  have hmem (n : NodeType) :
      n ∈ nodes.filter (·.base.isNone) ↔ n ∈ nodes ∧ n.base = none := by simp
  rw [rootCount, List.countP_eq_length_filter]
  constructor
  · intro hone
    obtain ⟨root, hroot⟩ := List.length_eq_one_iff.mp hone
    simp only [hroot, List.mem_singleton] at hmem
    exact ⟨root, (hmem root).mp rfl, fun n hn => (hmem n).mpr hn⟩
  · intro hx
    obtain ⟨root, hroot, honly⟩ := hx
    -- All roots are the one node, and distinct names let the list hold it once.
    have hrep := List.eq_replicate_of_mem fun n hn => honly n ((hmem n).mp hn)
    have hnodup : (nodes.filter (·.base.isNone)).Nodup := (List.Nodup.of_map _ hd).filter _
    rw [hrep, List.nodup_replicate] at hnodup
    have hpos := List.length_pos_of_mem ((hmem root).mpr hroot)
    omega

theorem rootCount_pos_iff : 0 < rootCount nodes ↔ ∃ n ∈ nodes, n.base = none := by
  rw [rootCount, List.countP_pos_iff]
  simp

theorem listFault_ne_rootCount {earlier ns : List NodeType} {found : Nat} :
    listFault? nodes earlier ns ≠ some (.rootCount found) := by
  induction ns generalizing earlier with
  | nil => simp [listFault?]
  | cons n ns ih =>
    have hbase : baseFault? nodes n ≠ some (.rootCount found) := by
      unfold baseFault?
      split
      · simp
      · split <;> simp
    have hfield : fieldFault? nodes n ≠ some (.rootCount found) := by
      intro hf
      obtain ⟨field, -, hf⟩ := List.exists_of_findSome?_eq_some hf
      simp at hf
    have hnode : nodeFault? nodes earlier n ≠ some (.rootCount found) := by
      unfold nodeFault?
      split
      · simp
      · cases hb : baseFault? nodes n with
        | some fault => simpa [hb] using hbase
        | none => split <;> simp [hfield]
    rw [listFault?]
    cases hn : nodeFault? nodes earlier n with
    | some fault => simpa [hn] using hnode
    | none => simpa using ih

theorem one_lt_of_fault_rootCount {found : Nat} (hf : fault? nodes = some (.rootCount found)) :
    1 < found := by
  rw [fault?] at hf
  cases hlist : listFault? nodes [] nodes with
  | some fault =>
    rw [hlist] at hf
    exact absurd (hlist.trans hf) listFault_ne_rootCount
  | none =>
    rw [hlist] at hf
    obtain ⟨hcount, hfound⟩ := Option.ite_none_left_eq_some.mp hf
    simp only [Bool.or_eq_true, List.isEmpty_iff, beq_iff_eq, not_or] at hcount
    -- The roots are counted only where every node has passed its checks, so there is one at least.
    have hchecks := (listFault_eq_none_iff.mp hlist).1
    have hpos := rootCount_pos_iff.mpr
      (exists_root hcount.1 fun n hn => ⟨(hchecks n hn).1, (hchecks n hn).2.1⟩)
    cases hfound
    omega

theorem acyclic_of_faultless (hf : fault? nodes = none) (hd : (nodes.map NodeType.name).Nodup)
    (name : String) : ¬ Relation.TransGen (Below nodes) name name := by
  -- A list without fault has no cycles: each step makes the way up shorter.
  intro hcycle
  -- The list makes a hierarchy, and the lineages of a hierarchy get shorter with every step up.
  let h : Hierarchy := ⟨nodes, hf⟩
  have hbase (lower upper : String) (hb : Below nodes lower upper) : h.Base lower upper := by
    obtain ⟨n, hn, rfl, hb⟩ := hb
    exact ⟨n, find_of_mem hd hn, hb⟩
  exact Nat.lt_irrefl _ (Hierarchy.ascent_lt (Relation.TransGen.mono hbase _ _ hcycle))

theorem fault_eq_none_iff : fault? nodes = none ↔ WellFormed nodes := by
  have hroots (hd : (nodes.map NodeType.name).Nodup) :
      (if nodes.isEmpty || rootCount nodes == 1 then none
        else some (HierarchyFault.rootCount (rootCount nodes))) = none ↔
        nodes = [] ∨ ∃! n, n ∈ nodes ∧ n.base = none := by
    rw [← rootCount_eq_one_iff hd]
    simp [or_iff_not_imp_left]
  constructor
  · intro hf
    have hall := hf
    rw [fault?, orElse_none_iff, listFault_eq_none_iff] at hall
    obtain ⟨⟨hchecks, -, hd⟩, hcount⟩ := hall
    exact ⟨hd, fun n hn => baseFault_eq_none_iff.mp (hchecks n hn).1,
      fun n _ => acyclic_of_faultless hf hd n.name,
      fun n hn => fieldFault_eq_none_iff.mp (hchecks n hn).2.2, (hroots hd).mp hcount⟩
  · intro hw
    rw [fault?, orElse_none_iff, listFault_eq_none_iff]
    refine ⟨⟨fun n hn => ?_, List.forall_mem_nil _, hw.distinct⟩, (hroots hw.distinct).mpr hw.rooted⟩
    exact ⟨baseFault_eq_none_iff.mpr (hw.based n hn), isEndless_eq_false hw.acyclic n,
      fieldFault_eq_none_iff.mpr (hw.declared n hn)⟩

end NodeType

namespace Hierarchy

theorem ofNodes_eq_ok_iff {nodes : List NodeType} {h : Hierarchy} :
    ofNodes nodes = .ok h ↔ h.nodes = nodes := by
  unfold ofNodes
  split
  · rename_i hf
    constructor
    · intro heq
      cases heq
      rfl
    · intro heq
      subst heq
      rfl
  · rename_i fault hf
    constructor
    · intro heq
      cases heq
    · intro heq
      rw [← heq, h.faultless] at hf
      cases hf

theorem fault_of_ofNodes {nodes : List NodeType} {fault : HierarchyFault}
    (herror : ofNodes nodes = .error fault) : NodeType.fault? nodes = some fault := by
  unfold ofNodes at herror
  split at herror
  · cases herror
  · cases herror
    assumption

variable {h : Hierarchy}

/-- Where going from base to base leads in so many steps, if there are so many. -/
def up (h : Hierarchy) : Nat → NodeType → Option NodeType
  | 0, n => some n
  | k + 1, n => (n.base.bind h.node?).bind (h.up k)

theorem getElem_lineage {name : String} {n : NodeType} (hn : h.node? name = some n) (k : Nat) :
    (h.lineage name)[k]? = h.up k n := by
  induction k generalizing name n with
  | zero =>
    rw [h.lineage_cons hn]
    rfl
  | succ k ih =>
    rw [h.lineage_cons hn, List.getElem?_cons_succ, up]
    cases hb : n.base with
    | none => rfl
    | some base =>
      obtain ⟨m, hm⟩ := Option.isSome_iff_exists.mp (h.base_declared ⟨n, hn, hb⟩)
      simpa [hm] using ih hm

theorem exists_up_eq_root {name : String} {n : NodeType} (hn : h.node? name = some n) :
    ∃ k root, h.up k n = some root ∧ root.base = none ∧ (h.lineage name).length = k + 1 := by
  induction name using h.ascent_induction generalizing n with
  | undeclared name hname =>
    rw [hname] at hn
    cases hn
  | declared name n' hn' ih =>
    obtain rfl : n' = n := Option.some.inj (hn'.symm.trans hn)
    rw [h.lineage_cons hn]
    cases hb : n'.base with
    | none => exact ⟨0, n', rfl, hb, rfl⟩
    | some base =>
      obtain ⟨m, hm⟩ := Option.isSome_iff_exists.mp (h.base_declared ⟨n', hn, hb⟩)
      obtain ⟨k, root, hup, hroot, hlength⟩ := ih base hb hm
      refine ⟨k + 1, root, ?_, hroot, congrArg (· + 1) hlength⟩
      rw [up, hb, Option.bind_some, hm, Option.bind_some, hup]

theorem climb_eq_lineage {limit : Nat} {name : String} (hlimit : (h.lineage name).length ≤ limit) :
    NodeType.climb h.nodes limit name = h.lineage name := by
  induction name using h.ascent_induction generalizing limit with
  | undeclared name hn =>
    have hf : NodeType.find? h.nodes name = none := hn
    rw [h.lineage_nil hn]
    cases limit with
    | zero => rfl
    | succ limit => rw [NodeType.climb, hf]
  | declared name n hn ih =>
    -- From the base on, lineage and limit are less by one.
    have hf : NodeType.find? h.nodes name = some n := hn
    rw [h.lineage_cons hn, List.length_cons] at hlimit
    obtain ⟨limit, rfl⟩ : ∃ l, limit = l + 1 := ⟨limit - 1, by omega⟩
    have hbases : n.base.elim [] (NodeType.climb h.nodes limit) = n.base.elim [] h.lineage := by
      cases hb : n.base with
      | none => rfl
      | some base =>
        rw [hb] at hlimit
        exact ih base hb (Nat.le_of_succ_le_succ hlimit)
    rw [NodeType.climb, hf, h.lineage_cons hn]
    exact congrArg (n :: ·) hbases

/-- From the node the way up comes to the root in fewer steps than there are nodes, and the lineage
is what it passes. -/
structure ReachesRoot (h : Hierarchy) (n : NodeType) : Prop where
  passed : ∀ k, (h.lineage n.name)[k]? = h.up k n
  root : ∃ k < h.nodes.length, ∃ root,
    h.up k n = some root ∧ root.base = none ∧ h.root? = some (.node root.name)

theorem reachesRoot {n : NodeType} (hn : h.node? n.name = some n) : h.ReachesRoot n := by
  refine ⟨getElem_lineage hn, ?_⟩
  obtain ⟨k, root, hup, hroot, hlength⟩ := exists_up_eq_root hn
  have hbound : (h.lineage n.name).length ≤ h.nodes.length := NodeType.length_climb_le _ _
  have hmem : root ∈ h.lineage n.name :=
    List.mem_of_getElem? ((getElem_lineage hn k).trans hup)
  have hlisted : root ∈ h.nodes := NodeType.mem_of_find (h.mem_lineage_iff.mp hmem).1
  exact ⟨k, by omega, root, hup, hroot, root_eq hlisted hroot⟩

/-- A list of node types is accepted if and only if it is well formed. Then going from base to base
leads from every node to the root, in fewer steps than there are nodes; so a walk up that may take as
many steps as there are nodes is never cut off. A list that is refused for its count of roots has
more than one. -/
theorem ofNodes_accepts_wellFormed (nodes : List NodeType) :
    ((∃ h, ofNodes nodes = .ok h) ↔ NodeType.WellFormed nodes) ∧
      (∀ h, ofNodes nodes = .ok h → h.nodes = nodes ∧ (∀ n ∈ nodes, h.ReachesRoot n) ∧
        ∀ name limit, nodes.length ≤ limit → NodeType.climb nodes limit name = h.lineage name) ∧
      ∀ found, ofNodes nodes = .error (.rootCount found) → 1 < found := by
  simp only [ofNodes_eq_ok_iff]
  refine ⟨?_, fun h hnodes => ?_, fun found herror => ?_⟩
  · rw [← NodeType.fault_eq_none_iff]
    constructor
    · intro hx
      obtain ⟨h, rfl⟩ := hx
      exact h.faultless
    · intro hf
      exact ⟨⟨nodes, hf⟩, rfl⟩
  · subst hnodes
    have hd := (NodeType.fault_eq_none_iff.mp h.faultless).distinct
    refine ⟨rfl, fun n hn => reachesRoot (NodeType.find_of_mem hd hn), fun name limit hlimit => ?_⟩
    exact climb_eq_lineage ((NodeType.length_climb_le _ _).trans hlimit)
  · exact NodeType.one_lt_of_fault_rootCount (fault_of_ofNodes herror)

end Hierarchy

end FrontEnd
