import FrontEnd.Proofs.CodeTexts

/-!
Lowering preserves meaning. All statements of all parts run before any of their terms is read, so
what one part assigns may be read by no other one: single assignment and the scopes of bound locals
keep the parts apart.
-/
namespace FrontEnd

universe u

variable {V : Type u} (I : Interpretation V)

namespace Store

theorem assign_self (σ : Store V) (x : String) (v : V) : σ.assign x v x = some v := by
  rw [assign, Function.update_self]

theorem assign_of_ne (σ : Store V) {x y : String} (h : y ≠ x) (v : V) :
    σ.assign x v y = σ y := by
  rw [assign, Function.update_of_ne h]

theorem assign_congr {σ ρ : Store V} {x y : String} (v : V) (h : y ≠ x → σ y = ρ y) :
    σ.assign x v y = ρ.assign x v y := by
  by_cases hy : y = x
  · rw [hy, assign_self, assign_self]
  · rw [assign_of_ne σ hy, assign_of_ne ρ hy]
    exact h hy

theorem assign_isSome {σ : Store V} {x y : String} (v : V) (h : y ≠ x → (σ y).isSome = true) :
    (σ.assign x v y).isSome = true := by
  by_cases hy : y = x
  · rw [hy, assign_self]
    rfl
  · rw [assign_of_ne σ hy]
    exact h hy

end Store

namespace Statement

theorem execAll_append (σ : Store V) (ss ts : List Statement) :
    execAll I σ (ss ++ ts) = (execAll I σ ss).bind fun τ => execAll I τ ts :=
  List.foldlM_append

theorem execAll_nil (σ : Store V) : execAll I σ [] = some σ := rfl

theorem execAll_cons (σ : Store V) (s : Statement) (ss : List Statement) :
    execAll I σ (s :: ss) = (exec I σ s).bind fun τ => execAll I τ ss :=
  List.foldlM_cons

end Statement

namespace Resolved

/-- Names are carried by one node each, and no local has the name of a free variable. -/
structure Apart (r : Resolved) : Prop where
  carried_once : r.nodes.Pairwise fun m n => ∀ x ∈ m.ownNames, x ∉ n.ownNames
  free_unassigned : ∀ x ∈ r.freeVars, x ∉ r.localNames

theorem Hygienic.apart {r : Resolved} (hr : r.Hygienic) : r.Apart := by
  refine ⟨hr.carried_once, fun x hfree hlocal => ?_⟩
  obtain ⟨n, hn, hx⟩ := List.mem_flatMap.mp hlocal
  obtain ⟨l, hl, rfl⟩ := List.mem_map.mp hx
  rcases List.mem_append.mp hl with hl | hl
  · exact hr.bound_inside n hn l (Option.mem_toList.mp hl) hfree
  · obtain ⟨m, hm, hv⟩ := variable_of_freeVars hfree
    exact hr.result_unread n hn l (Option.mem_toList.mp hl) m hm hv

/-- The statements of either expression leave what the other one reads as it is. -/
structure Separate (c d : Resolved) : Prop where
  free : ∀ x ∈ d.freeVars, x ∉ c.localNames
  read : ∀ x, x ∈ c.freeVars ∨ x ∈ c.localNames → x ∉ d.localNames

namespace Apart

variable {r c d : Resolved}

theorem carried_own (hr : r.Apart) (hc : c ∈ r.children) :
    ∀ x ∈ r.ownNames, x ∉ c.localNames := by
  intro x hx hlocal
  have hp := hr.carried_once
  rw [nodes_eq, List.pairwise_cons] at hp
  obtain ⟨n, hn, hxn⟩ := List.mem_flatMap.mp hlocal
  exact hp.1 n (List.mem_flatMap.mpr ⟨c, hc, hn⟩) x hx hxn

theorem free_of_parts (hr : r.Apart) (hc : c ∈ r.children) (hd : d ∈ r.children) :
    ∀ x ∈ c.freeVars, x ∉ d.localNames := by
  intro x hfree hlocal
  rcases freeVars_of_child hc hfree with hx | ⟨l, hl, rfl⟩
  · exact hr.free_unassigned x hx (mem_localNames_of_child hd hlocal)
  · exact hr.carried_own hd l.name (bound_mem_ownNames hl) hlocal

theorem child (hr : r.Apart) (hc : c ∈ r.children) : c.Apart := by
  refine ⟨?_, hr.free_of_parts hc hc⟩
  have hp := hr.carried_once
  rw [nodes_eq, List.pairwise_cons, List.pairwise_flatMap] at hp
  exact hp.2.1 c hc

theorem children_separate (hr : r.Apart) : r.children.Pairwise Separate := by
  have hp := hr.carried_once
  rw [nodes_eq, List.pairwise_cons, List.pairwise_flatMap] at hp
  refine hp.2.2.imp_of_mem fun hc hd hcd => ⟨hr.free_of_parts hd hc, ?_⟩
  intro x hx
  rcases hx with hx | hx
  · exact hr.free_of_parts hc hd x hx
  · intro hlocal
    obtain ⟨m, hm, hxm⟩ := List.mem_flatMap.mp hx
    obtain ⟨n, hn, hxn⟩ := List.mem_flatMap.mp hlocal
    exact hcd m hm n hn x hxm hxn

end Apart

theorem evalAll_congr {σ ρ : Store V} {rs : List Resolved}
    (h : ∀ r ∈ rs, r.eval I σ = r.eval I ρ) : evalAll I σ rs = evalAll I ρ rs := by
  induction rs with
  | nil => rfl
  | cons r rs ih =>
    obtain ⟨hr, hrs⟩ := List.forall_mem_cons.mp h
    rw [evalAll, evalAll, hr, ih hrs]

theorem evalTerms_congr {σ ρ : Store V} {rs : List Resolved}
    (h : ∀ r ∈ rs, r.term.eval I σ = r.term.eval I ρ) :
    Term.evalAll I σ (terms rs) = Term.evalAll I ρ (terms rs) := by
  induction rs with
  | nil => rfl
  | cons r rs ih =>
    obtain ⟨hr, hrs⟩ := List.forall_mem_cons.mp h
    change (r.term.eval I σ).bind _ = (r.term.eval I ρ).bind _
    rw [hr, ih hrs]

theorem eval_congr {r : Resolved} {σ ρ : Store V} (h : ∀ x ∈ r.freeVars, σ x = ρ x) :
    r.eval I σ = r.eval I ρ := by
  induction r using children_induction generalizing σ ρ with
  | step r ih =>
    cases hb : r.bound? with
    | none =>
      have hparts : ∀ c ∈ r.children, c.eval I σ = c.eval I ρ :=
        fun c hc => ih c hc fun x hx => h x (freeVars_of_part hb hc hx)
      rw [eval_eq_combine I σ hb, eval_eq_combine I ρ hb, evalAll_congr I hparts]
      refine congrArg _ (funext fun vs => combine_congr I vs fun x hx => ?_)
      exact h x (mem_freeVars_of_variable hx)
    | some l =>
      obtain ⟨i, e, body, rfl⟩ := eq_bind_of_bound hb
      have he : e.eval I σ = e.eval I ρ :=
        ih e (by simp [children]) fun x hx => h x (List.mem_append_left _ hx)
      rw [eval, eval, he]
      refine congrArg _ (funext fun v => ih body (by simp [children]) fun x hx => ?_)
      exact Store.assign_congr v fun hxl => h x (mem_freeVars_of_body hx hxl)

theorem term_congr {r : Resolved} {σ ρ : Store V}
    (h : ∀ x, x ∈ r.freeVars ∨ x ∈ r.localNames → σ x = ρ x) :
    r.term.eval I σ = r.term.eval I ρ := by
  induction r using children_induction with
  | step r ih =>
    have hparts : ∀ c ∈ r.children, c.term.eval I σ = c.term.eval I ρ := by
      intro c hc
      refine ih c hc fun x hx => ?_
      rcases hx with hx | hx
      · rcases freeVars_of_child hc hx with hx | ⟨l, hl, rfl⟩
        · exact h x (.inl hx)
        · exact h l.name (.inr (mem_localNames_of_own (bound_mem_ownNames hl)))
      · exact h x (.inr (mem_localNames_of_child hc hx))
    -- A stored result is read by its name; any other value is made of the terms of the parts.
    unfold term held
    split
    · rename_i l hl
      exact h l.name (.inr (mem_localNames_of_own (result_mem_ownNames hl)))
    · cases hb : r.bound? with
      | none =>
        rw [value_eq_combine I σ hb, value_eq_combine I ρ hb, evalTerms_congr I hparts]
        refine congrArg _ (funext fun vs => combine_congr I vs fun x hx => ?_)
        exact h x (.inl (mem_freeVars_of_variable hx))
      | some l =>
        obtain ⟨i, e, body, rfl⟩ := eq_bind_of_bound hb
        exact hparts body (by simp [children])

/-- From any store that has its free variables, the statements of the expression run, its term
then has the value of the expression, and only its locals are assigned. -/
def Lowers (r : Resolved) : Prop :=
  ∀ σ : Store V, (∀ x ∈ r.freeVars, (σ x).isSome = true) →
    ∃ τ v, Statement.execAll I σ r.statements = some τ ∧ r.term.eval I τ = some v ∧
      r.eval I σ = some v ∧ ∀ x ∉ r.localNames, τ x = σ x

theorem store_lowers (info : NodeInfo) {value : Term} {τ : Store V} {v : V}
    (hv : value.eval I τ = some v) :
    ∃ τ', Statement.execAll I τ (store info value) = some τ' ∧
      (held info value).eval I τ' = some v ∧
      ∀ x, (∀ l, info.result = some l → x ≠ l.name) → τ' x = τ x := by
  cases hi : info.result with
  | none =>
    refine ⟨τ, ?_, ?_, fun x _ => rfl⟩
    · simp [store, hi, Statement.execAll_nil]
    · simpa [held, hi] using hv
  | some l =>
    refine ⟨τ.assign l.name v, ?_, ?_, fun x hx => Store.assign_of_ne τ (hx l rfl) v⟩
    · simp [store, hi, Statement.execAll_cons, Statement.execAll_nil, Statement.exec, hv]
    · simp [held, hi, Term.eval, Store.assign_self]

/-- Parts that are lowered each by themselves are lowered one behind the other, if they are kept
apart: no later one changes what the term of an earlier one reads. -/
theorem parts_lower {rs : List Resolved} (hrs : ∀ r ∈ rs, Lowers I r)
    (hs : rs.Pairwise Separate) {σ : Store V}
    (hσ : ∀ r ∈ rs, ∀ x ∈ r.freeVars, (σ x).isSome = true) :
    ∃ τ vs, Statement.execAll I σ (statementsAll rs) = some τ ∧
      Term.evalAll I τ (terms rs) = some vs ∧ evalAll I σ rs = some vs ∧
      vs.length = rs.length ∧ ∀ x, (∀ r ∈ rs, x ∉ r.localNames) → τ x = σ x := by
  induction rs generalizing σ with
  | nil => exact ⟨σ, [], rfl, rfl, rfl, rfl, fun x _ => rfl⟩
  | cons r rs ih =>
    obtain ⟨hr, hrs⟩ := List.forall_mem_cons.mp hrs
    obtain ⟨hsr, hs⟩ := List.pairwise_cons.mp hs
    obtain ⟨hσr, hσ⟩ := List.forall_mem_cons.mp hσ
    obtain ⟨τ₁, v, hrun₁, hterm₁, hval₁, hframe₁⟩ := hr σ hσr
    -- The first part assigns nothing that a later one reads before assigning it.
    have hfree : ∀ c ∈ rs, ∀ x ∈ c.freeVars, τ₁ x = σ x :=
      fun c hc x hx => hframe₁ x ((hsr c hc).free x hx)
    obtain ⟨τ₂, vs, hrun₂, hterms₂, hvals₂, hlen, hframe₂⟩ :=
      ih hrs hs fun c hc x hx => hfree c hc x hx ▸ hσ c hc x hx
    -- The later parts assign nothing that the term of the first one reads.
    have hterm₂ : r.term.eval I τ₂ = some v := by
      rw [← hterm₁]
      exact term_congr I fun x hx => hframe₂ x fun c hc => (hsr c hc).read x hx
    have hvals : evalAll I σ rs = some vs := by
      rw [← hvals₂]
      exact evalAll_congr I fun c hc => eval_congr I fun x hx => (hfree c hc x hx).symm
    refine ⟨τ₂, v :: vs, ?_, ?_, ?_, congrArg (· + 1) hlen, fun x hx => ?_⟩
    · rw [statementsAll, Statement.execAll_append, hrun₁]
      exact hrun₂
    · change (r.term.eval I τ₂).bind _ = _
      rw [hterm₂, Option.bind_some, hterms₂]
      rfl
    · rw [evalAll, hval₁, hvals]
      rfl
    · obtain ⟨hxr, hxrs⟩ := List.forall_mem_cons.mp hx
      exact (hframe₂ x hxrs).trans (hframe₁ x hxr)

theorem statements_eq {r : Resolved} (hb : r.bound? = none) :
    r.statements = statementsAll r.children ++ store r.info r.value := by
  cases r with
  | literal | var | call | array => rfl
  | getSymbol | field | envNode =>
    simp [statements, statementsAll, children, info, value, term]
  | lookup i e key boundary recursive unique =>
    cases boundary <;>
      simp [statements, boundaryStatements, statementsAll, children, info, value, term]
  | bind => cases hb

theorem node_lowers {r : Resolved} (hr : r.Apart) (hb : r.bound? = none)
    (hparts : ∀ c ∈ r.children, Lowers I c) : Lowers I r := by
  intro σ hσ
  have hassigned : ∀ c ∈ r.children, ∀ x ∈ c.freeVars, (σ x).isSome = true :=
    fun c hc x hx => hσ x (freeVars_of_part hb hc hx)
  obtain ⟨τ, vs, hrun, hterms, hvals, hlen, hframe⟩ :=
    parts_lower I hparts hr.children_separate hassigned
  -- The operation has a value for those of the parts.
  obtain ⟨v, hv⟩ : ∃ v, r.combine I σ vs = some v :=
    Option.isSome_iff_exists.mp
      (combine_isSome I hb (fun x hx => hσ x (mem_freeVars_of_variable hx)) hlen)
  -- The statements of the parts assign no variable that the node itself reads.
  have hvalue : r.value.eval I τ = some v := by
    rw [value_eq_combine I τ hb, hterms, Option.bind_some, ← hv]
    refine combine_congr I vs fun x hx => hframe x fun c hc hxc => ?_
    have hfree : x ∈ r.freeVars := mem_freeVars_of_variable hx
    exact hr.free_unassigned x hfree (mem_localNames_of_child hc hxc)
  obtain ⟨τ', hstore, hterm, hframe'⟩ := store_lowers I r.info hvalue
  refine ⟨τ', v, ?_, hterm, ?_, fun x hx => ?_⟩
  · rw [statements_eq hb, Statement.execAll_append, hrun]
    exact hstore
  · rw [eval_eq_combine I σ hb, hvals, Option.bind_some, hv]
  · have hown : ∀ l, r.info.result = some l → x ≠ l.name := by
      intro l hl hxl
      apply hx
      rw [hxl]
      exact mem_localNames_of_own (result_mem_ownNames hl)
    have hpart : ∀ c ∈ r.children, x ∉ c.localNames :=
      fun c hc hxc => hx (mem_localNames_of_child hc hxc)
    exact (hframe' x hown).trans (hframe x hpart)

/-- A node that binds a local assigns it between the statements of its environment and those of its
body, where it can be read. -/
theorem bind_lowers {i : NodeInfo} {e body : Resolved} {l : Local}
    (hr : (bind i e l body).Apart) (he : Lowers I e) (hbody : Lowers I body) :
    Lowers I (bind i e l body) := by
  intro σ hσ
  have hechild : e ∈ (bind i e l body).children := List.mem_cons_self
  have hbchild : body ∈ (bind i e l body).children := by simp [children]
  obtain ⟨τ₁, u, hrun₁, hterm₁, hval₁, hframe₁⟩ :=
    he σ fun x hx => hσ x (List.mem_append_left _ hx)
  -- In the body the local is assigned, and every other free variable is as it was.
  have hagree : ∀ x ∈ body.freeVars, τ₁.assign l.name u x = σ.assign l.name u x := by
    intro x hx
    apply Store.assign_congr
    intro _
    exact hframe₁ x (hr.free_of_parts hbchild hechild x hx)
  have hassigned : ∀ x ∈ body.freeVars, (τ₁.assign l.name u x).isSome = true := by
    intro x hx
    rw [hagree x hx]
    apply Store.assign_isSome
    intro hxl
    exact hσ x (mem_freeVars_of_body hx hxl)
  obtain ⟨τ₂, v, hrun₂, hterm₂, hval₂, hframe₂⟩ := hbody _ hassigned
  obtain ⟨τ₃, hstore, hterm, hframe₃⟩ := store_lowers I i hterm₂
  refine ⟨τ₃, v, ?_, hterm, ?_, fun x hx => ?_⟩
  · have hretain : Statement.execAll I τ₁ [.assign l.name e.term, .retain l.name] =
        some (τ₁.assign l.name u) := by
      simp [Statement.execAll_cons, Statement.execAll_nil, Statement.exec, hterm₁,
        Store.assign_self]
    rw [statements]
    simp only [Statement.execAll_append, hrun₁, hretain, hrun₂, hstore, Option.bind_some]
  · rw [eval, hval₁]
    exact (eval_congr I hagree).symm.trans hval₂
  · have hown : ∀ k, i.result = some k → x ≠ k.name := by
      intro k hk hxk
      apply hx
      rw [hxk]
      exact mem_localNames_of_own (result_mem_ownNames hk)
    have hbound : x ≠ l.name := by
      intro hxl
      apply hx
      rw [hxl]
      exact mem_localNames_of_own (bound_mem_ownNames rfl)
    calc
      τ₃ x = τ₂ x := hframe₃ x hown
      _ = τ₁.assign l.name u x := hframe₂ x fun hxb => hx (mem_localNames_of_child hbchild hxb)
      _ = τ₁ x := Store.assign_of_ne τ₁ hbound u
      _ = σ x := hframe₁ x fun hxe => hx (mem_localNames_of_child hechild hxe)

theorem Apart.lowers {r : Resolved} (hr : r.Apart) : Lowers I r := by
  induction r using children_induction with
  | step r ih =>
    have hparts : ∀ c ∈ r.children, Lowers I c := fun c hc => ih c hc (hr.child hc)
    cases hb : r.bound? with
    | none => exact node_lowers I hr hb hparts
    | some l =>
      obtain ⟨i, e, body, rfl⟩ := eq_bind_of_bound hb
      exact bind_lowers I hr (hparts e (by simp [children])) (hparts body (by simp [children]))

/-- Lowering preserves meaning. The texts made of an expression spell statements and a term: from
any store that has the free variables, the statements run without reading anything unassigned, and
the term then has the value of the expression. -/
theorem Hygienic.lowering_preserves {r : Resolved} (hr : r.Hygienic) {σ : Store V}
    (hσ : ∀ x ∈ r.freeVars, (σ x).isSome = true) :
    Statement.SpelledAll r.statements r.preText ∧ r.term.Spelled r.termText ∧
      ∃ τ v, Statement.execAll I σ r.statements = some τ ∧ r.term.eval I τ = some v ∧
        r.eval I σ = some v := by
  obtain ⟨τ, v, hrun, hterm, hval, -⟩ := hr.apart.lowers I σ hσ
  exact ⟨r.preText_spelled, r.term.text_spelled, τ, v, hrun, hterm, hval⟩

end Resolved

/-- Terms as the values of expressions; every operation makes the term that stands for it. -/
def Interpretation.symbolic : Interpretation Term where
  bool := .bool
  int := .int
  find := .find
  getSymbol := .getSymbol
  component := .field
  lookup := .lookup
  call := .call
  envNode := .envNode
  array := .call

namespace Sample

def lookupInOrphan : Resolved :=
  .bind ⟨.envElement, none⟩
    (.call ⟨.lexicalEnv, some ⟨"Orphan_Env_0", Ty.lexicalEnv⟩⟩ "AST_Envs.Orphan"
      [.var ⟨.lexicalEnv, none⟩ "Current_Env"])
    ⟨"New_Env_0", Ty.lexicalEnv⟩
    (.lookup ⟨.envElement, some ⟨"Env_Get_Result_0", Ty.envElement⟩⟩
      (.var ⟨.lexicalEnv, none⟩ "New_Env_0")
      (.getSymbol ⟨.symbol, none⟩
        (.field ⟨.token, none⟩ (.var ⟨.node "Name", none⟩ "Self") "identifier"))
      (some (.var ⟨.node "Name", none⟩ "Self")) (.literal ⟨.bool, none⟩ (.bool true)) true)

def parameters : Store Term :=
  fun x => if x = "Self" ∨ x = "Current_Env" then some (.var x) else none

theorem lookupInOrphan_preserved :
    lookupInOrphan.Hygienic ∧ (∀ x ∈ lookupInOrphan.freeVars, (parameters x).isSome = true) ∧
      Statement.SpelledAll lookupInOrphan.statements lookupInOrphan.preText ∧
      lookupInOrphan.term.Spelled lookupInOrphan.termText ∧
      ∃ τ v, Statement.execAll .symbolic parameters lookupInOrphan.statements = some τ ∧
        lookupInOrphan.term.eval .symbolic τ = some v ∧
        lookupInOrphan.eval .symbolic parameters = some v := by
  have hr : lookupInOrphan.Hygienic := ⟨by decide, by decide, by decide⟩
  have hσ : ∀ x ∈ lookupInOrphan.freeVars, (parameters x).isSome = true := by decide
  exact ⟨hr, hσ, hr.lowering_preserves .symbolic hσ⟩

end Sample

end FrontEnd
