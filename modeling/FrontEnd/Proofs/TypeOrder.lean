import FrontEnd.Proofs.CommonSupertypes

namespace FrontEnd

namespace Hierarchy

variable {h : Hierarchy}

theorem isSubtype_eq_true_iff {a b : Ty} : h.isSubtype a b = true ↔ h.subtyping a b ≠ .unrelated :=
  decide_eq_true_iff

theorem subtyping_eq_equal_iff {a b : Ty} : h.subtyping a b = .equal ↔ a = b := by
  unfold subtyping
  constructor
  · intro hverdict
    by_contra hne
    rw [if_neg hne] at hverdict
    -- Between types that differ the verdict is one of the other two.
    split at hverdict
    · split at hverdict <;> cases hverdict
    · cases hverdict
  · intro hab
    exact if_pos hab

theorem subtyping_eq_strict_iff_ne {a b : Ty} :
    h.subtyping a b = .strict ↔ h.isSubtype a b = true ∧ a ≠ b := by
  have hne : a ≠ b ↔ h.subtyping a b ≠ .equal := subtyping_eq_equal_iff.symm.not
  rw [isSubtype_eq_true_iff, hne]
  cases h.subtyping a b <;> decide

theorem not_above_itself (name : String) : ¬ Relation.TransGen h.Base name name := fun hup =>
  Nat.lt_irrefl _ (ascent_lt hup)

theorem subtyping_eq_strict_iff {a b : Ty} :
    h.subtyping a b = .strict ↔
      ∃ l u, a = .node l ∧ b = .node u ∧ Relation.TransGen h.Base l u := by
  rw [subtyping_eq_strict_iff_ne, isSubtype_iff]
  constructor
  · intro hx
    obtain ⟨hab | hup, hne⟩ := hx
    · exact absurd hab hne
    · exact hup
  · intro hup
    refine ⟨.inr hup, ?_⟩
    obtain ⟨l, u, rfl, rfl, hlu⟩ := hup
    intro heq
    cases heq
    exact not_above_itself l hlu

theorem strict_trans {a b c : Ty} (hab : h.isSubtype a b = true) (hbc : h.isSubtype b c = true)
    (hstrict : h.subtyping a b = .strict ∨ h.subtyping b c = .strict) :
    h.subtyping a c = .strict := by
  apply subtyping_eq_strict_iff_ne.mpr
  refine ⟨h.isSubtype_trans hab hbc, ?_⟩
  -- If the way came back, all three types would be one, and neither step strict.
  intro heq
  subst heq
  have hone : a = b := isSubtype_antisymm hab hbc
  rcases hstrict with hs | hs
  · exact (subtyping_eq_strict_iff_ne.mp hs).2 hone
  · exact (subtyping_eq_strict_iff_ne.mp hs).2 hone.symm

/-- Subtyping is a partial order that follows the hierarchy. A type is found equal to itself alone,
and strictly below the types of the nodes that one or more steps from base to base lead to. What is
below a type is below all that this type is below, strictly so if one of the two steps is strict.
Two types are never strictly below each other. -/
theorem subtyping_isOrder (h : Hierarchy) (a b c : Ty) :
    (h.subtyping a b = .equal ↔ a = b) ∧
      (h.subtyping a b = .strict ↔
        ∃ l u, a = .node l ∧ b = .node u ∧ Relation.TransGen h.Base l u) ∧
      (h.subtyping a b ≠ .unrelated → h.subtyping b c ≠ .unrelated →
        h.subtyping a c ≠ .unrelated ∧
          (h.subtyping a b = .strict ∨ h.subtyping b c = .strict →
            h.subtyping a c = .strict)) ∧
      ¬ (h.subtyping a b = .strict ∧ h.subtyping b a = .strict) := by
  refine ⟨subtyping_eq_equal_iff, subtyping_eq_strict_iff, ?_, ?_⟩
  · intro hab hbc
    have hle := isSubtype_eq_true_iff.mpr hab
    have hle' := isSubtype_eq_true_iff.mpr hbc
    exact ⟨isSubtype_eq_true_iff.mp (h.isSubtype_trans hle hle'), strict_trans hle hle'⟩
  · intro hx
    obtain ⟨hab, hne⟩ := subtyping_eq_strict_iff_ne.mp hx.1
    obtain ⟨hba, -⟩ := subtyping_eq_strict_iff_ne.mp hx.2
    exact hne (isSubtype_antisymm hab hba)

end Hierarchy

def Sample.declarations : Hierarchy where
  nodes := [⟨"Node", none, []⟩, ⟨"Decl", some "Node", []⟩, ⟨"Type_Decl", some "Decl", []⟩,
    ⟨"Var_Decl", some "Decl", []⟩, ⟨"Stmt", some "Node", []⟩]
  faultless := rfl

theorem Sample.declarations_isOrder :
    Sample.declarations.subtyping (.node "Type_Decl") (.node "Decl") = .strict ∧
      Sample.declarations.subtyping (.node "Decl") (.node "Node") = .strict ∧
      Sample.declarations.subtyping (.node "Type_Decl") (.node "Node") = .strict ∧
      Relation.TransGen Sample.declarations.Base "Type_Decl" "Node" := by
  have hlower : Sample.declarations.subtyping (.node "Type_Decl") (.node "Decl") = .strict := rfl
  have hupper : Sample.declarations.subtyping (.node "Decl") (.node "Node") = .strict := rfl
  obtain ⟨-, -, htrans, -⟩ := Hierarchy.subtyping_isOrder Sample.declarations (.node "Type_Decl")
    (.node "Decl") (.node "Node")
  have hboth := (htrans (by rw [hlower]; decide) (by rw [hupper]; decide)).2 (.inl hlower)
  obtain ⟨-, hstrict, -, -⟩ := Hierarchy.subtyping_isOrder Sample.declarations (.node "Type_Decl")
    (.node "Node") (.node "Node")
  obtain ⟨l, u, hl, hu, hup⟩ := hstrict.mp hboth
  cases hl
  cases hu
  exact ⟨hlower, hupper, hboth, hup⟩

namespace Hierarchy

variable {h : Hierarchy}

theorem LeastAbove.perm {tys tys' : List Ty} {ty : Ty} (hty : h.LeastAbove tys ty)
    (hperm : tys.Perm tys') : h.LeastAbove tys' ty where
  above t ht := hty.above t (hperm.mem_iff.mpr ht)
  least u hu := hty.least u fun t ht => hu t (hperm.mem_iff.mp ht)

theorem lowestAbove_perm {tys tys' : List Ty} (hperm : tys.Perm tys') :
    h.lowestAbove? tys' = h.lowestAbove? tys := by
  apply Option.ext
  intro ty
  rw [lowestAbove_eq_some_iff, lowestAbove_eq_some_iff]
  have hempty : tys' ≠ [] ↔ tys ≠ [] := by
    rw [ne_eq, ne_eq, ← List.length_eq_zero_iff, ← List.length_eq_zero_iff, hperm.length_eq]
  constructor
  · intro hx
    exact ⟨hempty.mp hx.1, hx.2.perm hperm.symm⟩
  · intro hx
    exact ⟨hempty.mpr hx.1, hx.2.perm hperm⟩

theorem lcs_comm (a b : Ty) : h.leastCommonSupertype? a b = h.leastCommonSupertype? b a := by
  have hpair (a b : Ty) : h.lowestAbove? [a, b] = h.leastCommonSupertype? a b := by
    change (h.leastCommonSupertype? a b).bind some = _
    exact Option.bind_fun_some _
  calc h.leastCommonSupertype? a b
    _ = h.lowestAbove? [a, b] := (hpair a b).symm
    _ = h.lowestAbove? [b, a] := lowestAbove_perm (.swap a b [])
    _ = h.leastCommonSupertype? b a := hpair b a

/-- Joining types one after the other succeeds exactly if some type is above all of them, and then
leads to the least such type, in whatever order they are listed; so joining two types is symmetric.
The type that is inferred for the elements of an array is the join of their types. -/
theorem lowestAbove_isJoin (h : Hierarchy) {tys : List Ty} (hne : tys ≠ []) :
    ((∃ c, h.lowestAbove? tys = some c) ↔ ∃ u, ∀ t ∈ tys, h.isSubtype t u = true) ∧
      (∀ c, h.lowestAbove? tys = some c → (∀ t ∈ tys, h.isSubtype t c = true) ∧
        ∀ u, (∀ t ∈ tys, h.isSubtype t u = true) → h.isSubtype c u = true) ∧
      (∀ tys', tys.Perm tys' → h.lowestAbove? tys' = h.lowestAbove? tys) ∧
      (∀ a b, h.leastCommonSupertype? a b = h.leastCommonSupertype? b a) ∧
      ∀ (rs : List Resolved) (s : Session), rs.map Resolved.ty = tys →
        ((Construction.elementTy h rs).run s).1.toOption = h.lowestAbove? tys := by
  refine ⟨?_, fun c hc => ?_, fun tys' => lowestAbove_perm, lcs_comm, fun rs s htys => ?_⟩
  · constructor
    · intro hx
      obtain ⟨c, hc⟩ := hx
      exact ⟨c, lowestAbove_upper hc⟩
    · intro hx
      obtain ⟨u, hu⟩ := hx
      obtain ⟨c, hc, -⟩ := lowestAbove_least hne hu
      exact ⟨c, hc⟩
  · have hleast := (lowestAbove_eq_some_iff.mp hc).2
    exact ⟨hleast.above, hleast.least⟩
  -- The elements are joined as the list of their types is; only the fault tells more.
  · subst htys
    have hinferred {ty : Ty} {t : Session} :
        (Construction.elementTy h rs).run s = (.ok ty, t) ↔
          h.lowestAbove? (rs.map Resolved.ty) = some ty ∧ s = t :=
      Construction.yields_elementTy
    cases hjoin : h.lowestAbove? (rs.map Resolved.ty) with
    | some ty => rw [hinferred.mpr ⟨hjoin, rfl⟩, Except.toOption]
    | none =>
      rcases hrun : (Construction.elementTy h rs).run s with ⟨fault | ty, t⟩
      · rfl
      · rw [(hinferred.mp hrun).1] at hjoin
        cases hjoin

end Hierarchy

theorem Sample.declarations_isJoin :
    let join := Sample.declarations.lowestAbove?
    let listed : List Ty := [.node "Type_Decl", .node "Var_Decl", .node "Stmt"]
    let turned : List Ty := [.node "Stmt", .node "Type_Decl", .node "Var_Decl"]
    listed ≠ [] ∧ listed.Perm turned ∧ join listed = some (.node "Node") ∧
      join turned = some (.node "Node") ∧
      (∃ u, ∀ t ∈ listed, Sample.declarations.isSubtype t u = true) ∧
      ¬ ∃ u, ∀ t ∈ [.node "Type_Decl", .symbol], Sample.declarations.isSubtype t u = true := by
  intro join listed turned
  have hlisted : listed ≠ [] := by decide
  have hperm : listed.Perm turned := by decide
  have hroot : join listed = some (.node "Node") := rfl
  have hapart : join [.node "Type_Decl", .symbol] = none := rfl
  obtain ⟨hsome, -, hturned, -⟩ := Hierarchy.lowestAbove_isJoin Sample.declarations hlisted
  obtain ⟨hnone, -⟩ := Hierarchy.lowestAbove_isJoin Sample.declarations
    (List.cons_ne_nil (.node "Type_Decl") [.symbol])
  refine ⟨hlisted, hperm, hroot, (hturned turned hperm).trans hroot, hsome.mp ⟨_, hroot⟩, ?_⟩
  intro hx
  obtain ⟨c, hc⟩ := hnone.mpr hx
  cases hapart.symm.trans hc

end FrontEnd
