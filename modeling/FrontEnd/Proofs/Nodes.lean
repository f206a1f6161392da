import FrontEnd.Property.Resolved

namespace FrontEnd

namespace Resolved

mutual

/-- The expression and all those inside it, each before its parts. -/
def nodes : Resolved → List Resolved
  | literal i v => [literal i v]
  | var i name => [var i name]
  | getSymbol i token => getSymbol i token :: token.nodes
  | field i receiver name => field i receiver name :: receiver.nodes
  | lookup i e key boundary recursive unique =>
    lookup i e key boundary recursive unique ::
      (e.nodes ++ key.nodes ++ boundaryNodes boundary ++ recursive.nodes)
  | call i callee args => call i callee args :: nodesAll args
  | envNode i e => envNode i e :: e.nodes
  | array i elements elementTy => array i elements elementTy :: nodesAll elements
  | bind i e x body => bind i e x body :: (e.nodes ++ body.nodes)

def boundaryNodes : Option Resolved → List Resolved
  | none => []
  | some r => r.nodes

def nodesAll : List Resolved → List Resolved
  | [] => []
  | r :: rs => r.nodes ++ nodesAll rs

end

theorem nodesAll_eq_flatMap (rs : List Resolved) : nodesAll rs = rs.flatMap nodes := by
  induction rs with
  | nil => rfl
  | cons r rs ih => rw [nodesAll, ih, List.flatMap_cons]

theorem nodes_eq (r : Resolved) : r.nodes = r :: r.children.flatMap nodes := by
  rw [← nodesAll_eq_flatMap]
  cases r with
  | literal | var => rfl
  | getSymbol | field | envNode => simp [nodes, children, nodesAll]
  | call | array => simp [nodes, children]
  | bind => simp [nodes, children, nodesAll]
  | lookup i e key boundary recursive unique =>
    cases boundary <;> simp [nodes, children, nodesAll, boundaryNodes]

theorem self_mem_nodes (r : Resolved) : r ∈ r.nodes := by
  rw [nodes_eq]
  exact List.mem_cons_self

theorem mem_nodes_of_child {r c n : Resolved} (hc : c ∈ r.children) (hn : n ∈ c.nodes) :
    n ∈ r.nodes := by
  rw [nodes_eq]
  exact List.mem_cons_of_mem r (List.mem_flatMap.mpr ⟨c, hc, hn⟩)

theorem flatMap_nodes {α : Type} (f : Resolved → List α) (r : Resolved) :
    r.nodes.flatMap f = f r ++ r.children.flatMap fun c => c.nodes.flatMap f := by
  rw [nodes_eq, List.flatMap_cons, List.flatMap_assoc]

theorem forall_nodes_iff {P : Resolved → Prop} (r : Resolved) :
    (∀ n ∈ r.nodes, P n) ↔ P r ∧ ∀ c ∈ r.children, ∀ n ∈ c.nodes, P n := by
  rw [nodes_eq, List.forall_mem_cons, List.forall_mem_flatMap]

theorem mem_children_lookup {i : NodeInfo} {e key recursive c : Resolved}
    {boundary : Option Resolved} {unique : Bool} :
    c ∈ (lookup i e key boundary recursive unique).children ↔
      c = e ∨ c = key ∨ boundary = some c ∨ c = recursive := by
  simp [children]

theorem mem_children_bind {i : NodeInfo} {e body c : Resolved} {x : Local} :
    c ∈ (bind i e x body).children ↔ c = e ∨ c = body := by
  simp [children]

theorem sizeOf_lt_of_child {r c : Resolved} (hc : c ∈ r.children) : sizeOf c < sizeOf r := by
  cases r with
  | literal | var => simp [children] at hc
  | getSymbol | field | envNode =>
    rw [children, List.mem_singleton] at hc
    subst hc
    simp only [getSymbol.sizeOf_spec, field.sizeOf_spec, envNode.sizeOf_spec]
    omega
  | lookup i e key boundary recursive unique =>
    rw [lookup.sizeOf_spec]
    rcases mem_children_lookup.mp hc with rfl | rfl | rfl | rfl
    · omega
    · omega
    · rw [Option.some.sizeOf_spec]
      omega
    · omega
  | call | array =>
    have hs := List.sizeOf_lt_of_mem hc
    simp only [children] at hs
    simp only [call.sizeOf_spec, array.sizeOf_spec]
    omega
  | bind i e x body =>
    rw [bind.sizeOf_spec]
    rcases mem_children_bind.mp hc with rfl | rfl <;> omega

/-- Induction over the tree: what holds of an expression whenever it holds of its parts holds of
every expression. -/
@[elab_as_elim]
theorem children_induction {P : Resolved → Prop}
    (step : ∀ r, (∀ c ∈ r.children, P c) → P r) (r : Resolved) : P r :=
  step r fun c hc =>
    have := sizeOf_lt_of_child hc
    children_induction step c
termination_by sizeOf r

theorem mem_nodes_trans {r n m : Resolved} (hn : n ∈ r.nodes) (hm : m ∈ n.nodes) :
    m ∈ r.nodes := by
  induction r using children_induction with
  | step r ih =>
    rw [nodes_eq, List.mem_cons, List.mem_flatMap] at hn
    rcases hn with rfl | ⟨c, hc, hn⟩
    · exact hm
    · exact mem_nodes_of_child hc (ih c hc hn)

/-- The local that the node binds in its body. -/
def bound? : Resolved → Option Local
  | bind _ _ x _ => some x
  | _ => none

/-- The locals that the node itself carries. -/
def ownLocals (r : Resolved) : List Local := r.bound?.toList ++ r.info.result.toList

def ownNames (r : Resolved) : List String := r.ownLocals.map Local.name

theorem bound_mem_ownNames {r : Resolved} {l : Local} (hl : r.bound? = some l) :
    l.name ∈ r.ownNames :=
  List.mem_map_of_mem (List.mem_append_left _ (Option.mem_toList.mpr hl))

theorem result_mem_ownNames {r : Resolved} {l : Local} (hl : r.info.result = some l) :
    l.name ∈ r.ownNames :=
  List.mem_map_of_mem (List.mem_append_right _ (Option.mem_toList.mpr hl))

def localNames (r : Resolved) : List String := r.nodes.flatMap ownNames

theorem mem_localNames_iff {r : Resolved} {x : String} :
    x ∈ r.localNames ↔ x ∈ r.ownNames ∨ ∃ c ∈ r.children, x ∈ c.localNames := by
  unfold localNames
  rw [flatMap_nodes, List.mem_append, List.mem_flatMap]

theorem mem_localNames_of_own {r : Resolved} {x : String} (hx : x ∈ r.ownNames) :
    x ∈ r.localNames :=
  mem_localNames_iff.mpr (.inl hx)

theorem mem_localNames_of_child {r c : Resolved} (hc : c ∈ r.children) {x : String}
    (hx : x ∈ c.localNames) : x ∈ r.localNames :=
  mem_localNames_iff.mpr (.inr ⟨c, hc, hx⟩)

def varName? : Resolved → Option String
  | var _ name => some name
  | _ => none

mutual

/-- The variables that stand in the expression outside the body of every node that binds them. -/
def freeVars : Resolved → List String
  | literal _ _ => []
  | var _ name => [name]
  | getSymbol _ token => token.freeVars
  | field _ receiver _ => receiver.freeVars
  | lookup _ e key boundary recursive _ =>
    e.freeVars ++ key.freeVars ++ boundaryFreeVars boundary ++ recursive.freeVars
  | call _ _ args => freeVarsAll args
  | envNode _ e => e.freeVars
  | array _ elements _ => freeVarsAll elements
  | bind _ e x body => e.freeVars ++ body.freeVars.filter (· != x.name)

def boundaryFreeVars : Option Resolved → List String
  | none => []
  | some r => r.freeVars

def freeVarsAll : List Resolved → List String
  | [] => []
  | r :: rs => r.freeVars ++ freeVarsAll rs

end

theorem mem_freeVarsAll_iff {rs : List Resolved} {x : String} :
    x ∈ freeVarsAll rs ↔ ∃ r ∈ rs, x ∈ r.freeVars := by
  induction rs with
  | nil => simp [freeVarsAll]
  | cons r rs ih => simp [freeVarsAll, ih]

theorem mem_freeVars_of_variable {r : Resolved} {x : String} (hx : r.varName? = some x) :
    x ∈ r.freeVars := by
  cases r with
  | var i name =>
    cases hx
    exact List.mem_singleton_self x
  | _ => cases hx

theorem mem_freeVars_of_body {i : NodeInfo} {e body : Resolved} {l : Local} {x : String}
    (hx : x ∈ body.freeVars) (hl : x ≠ l.name) : x ∈ (bind i e l body).freeVars := by
  apply List.mem_append_right
  exact List.mem_filter.mpr ⟨hx, by simpa using hl⟩

/-- A variable stands free where it is one, or where it stands free in a part that does not have it
bound. -/
theorem freeVars_of_child {r c : Resolved} (hc : c ∈ r.children) {x : String}
    (hx : x ∈ c.freeVars) : x ∈ r.freeVars ∨ ∃ l ∈ r.bound?, l.name = x := by
  cases r with
  | literal | var => simp [children] at hc
  | getSymbol | field | envNode =>
    rw [children, List.mem_singleton] at hc
    subst hc
    exact .inl hx
  | lookup i e key boundary recursive unique =>
    left
    rcases mem_children_lookup.mp hc with rfl | rfl | rfl | rfl <;>
      simp [freeVars, boundaryFreeVars, hx]
  | call | array => exact .inl (mem_freeVarsAll_iff.mpr ⟨c, hc, hx⟩)
  | bind i e l body =>
    rcases mem_children_bind.mp hc with rfl | rfl
    · exact .inl (List.mem_append_left _ hx)
    · -- Only the bound local is hidden, and only in the body.
      by_cases hl : l.name = x
      · exact .inr ⟨l, rfl, hl⟩
      · exact .inl (mem_freeVars_of_body hx (Ne.symm hl))

theorem freeVars_of_part {r c : Resolved} (hb : r.bound? = none) (hc : c ∈ r.children) {x : String}
    (hx : x ∈ c.freeVars) : x ∈ r.freeVars := by
  rcases freeVars_of_child hc hx with hx | ⟨l, hl, -⟩
  · exact hx
  · rw [hb] at hl
    cases hl

theorem child_of_freeVars {r : Resolved} {x : String} (hx : x ∈ r.freeVars) :
    r.varName? = some x ∨ ∃ c ∈ r.children, x ∈ c.freeVars := by
  cases r with
  | literal => cases hx
  | var i name =>
    rw [freeVars, List.mem_singleton] at hx
    exact .inl (congrArg some hx.symm)
  | getSymbol i c | field i c name | envNode i c =>
    exact .inr ⟨c, List.mem_singleton_self c, hx⟩
  | lookup i e key boundary recursive unique =>
    right
    cases boundary with
    | none =>
      simpa [children, freeVars, boundaryFreeVars, or_assoc] using hx
    | some b =>
      simpa [children, freeVars, boundaryFreeVars, or_assoc] using hx
  | call | array => exact .inr (mem_freeVarsAll_iff.mp hx)
  | bind i e l body =>
    -- The bound local is hidden in the body only, so what is left stands free in one of the two.
    right
    rcases List.mem_append.mp hx with hx | hx
    · exact ⟨e, by simp [children], hx⟩
    · exact ⟨body, by simp [children], (List.mem_filter.mp hx).1⟩

theorem variable_of_freeVars {r : Resolved} {x : String} (hx : x ∈ r.freeVars) :
    ∃ n ∈ r.nodes, n.varName? = some x := by
  induction r using children_induction with
  | step r ih =>
    rcases child_of_freeVars hx with hr | ⟨c, hc, hx⟩
    · exact ⟨r, r.self_mem_nodes, hr⟩
    · obtain ⟨n, hn, hv⟩ := ih c hc hx
      exact ⟨n, mem_nodes_of_child hc hn, hv⟩

end Resolved

end FrontEnd
