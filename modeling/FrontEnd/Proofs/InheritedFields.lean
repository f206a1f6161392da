import FrontEnd.Proofs.Refusals
import FrontEnd.Proofs.TypeOrder

namespace FrontEnd

namespace Hierarchy

variable {h : Hierarchy} {node lower upper field : String}

/-- The node itself has a field of that name among its declared ones. -/
def Declares (h : Hierarchy) (node field : String) : Prop :=
  ∃ n, h.node? node = some n ∧ ∃ ty, (field, ty) ∈ n.fields

/-- None of the nodes that are passed on the way up from one node to another declares the field; the
node at the end of the way is not asked. -/
def Passes (h : Hierarchy) (lower upper field : String) : Prop :=
  ∀ m, Relation.ReflTransGen h.Base lower m → Relation.TransGen h.Base m upper →
    ¬ h.Declares m field

theorem passes_refl (node field : String) : h.Passes node node field := fun _ hm hm' =>
  -- Such a way would lead back to where it began.
  absurd (Relation.TransGen.trans_right hm hm') (not_above_itself node)

theorem Passes.head (hb : h.Base lower node) (hnot : ¬ h.Declares lower field)
    (hrest : h.Passes node upper field) : h.Passes lower upper field := by
  intro m hm hm'
  rcases Relation.ReflTransGen.cases_head hm with rfl | ⟨node', hb', hm⟩
  · exact hnot
  · obtain ⟨n, hn, hbase⟩ := hb
    obtain ⟨n', hn', hbase'⟩ := hb'
    cases hn.symm.trans hn'
    cases hbase.symm.trans hbase'
    exact hrest m hm hm'

theorem field?_isSome_iff {n : NodeType} :
    (n.field? field).isSome = true ↔ ∃ ty, (field, ty) ∈ n.fields := by
  rw [NodeType.field?, Option.isSome_map, List.find?_isSome]
  constructor
  · intro hx
    obtain ⟨⟨name, ty⟩, hmem, hname⟩ := hx
    obtain rfl : name = field := by simpa using hname
    exact ⟨ty, hmem⟩
  · intro hx
    obtain ⟨ty, hmem⟩ := hx
    exact ⟨(field, ty), hmem, by simp⟩

theorem declares_iff {n : NodeType} (hn : h.node? node = some n) :
    h.Declares node field ↔ (n.field? field).isSome = true := by
  rw [field?_isSome_iff]
  constructor
  · intro hx
    obtain ⟨n', hn', hmem⟩ := hx
    cases hn.symm.trans hn'
    exact hmem
  · intro hmem
    exact ⟨n, hn, hmem⟩

theorem fieldType_eq {n : NodeType} (hn : h.node? node = some n) :
    h.fieldType? node field = (n.field? field).or (n.base.bind (h.fieldType? · field)) := by
  rw [fieldType?, h.lineage_cons hn, List.findSome?_cons]
  cases n.field? field with
  | some ty => rfl
  | none => cases n.base <;> rfl

theorem fieldType_of_declared {n : NodeType} {ty : Ty} (hn : h.node? node = some n)
    (hty : n.field? field = some ty) : h.fieldType? node field = some ty := by
  rw [fieldType_eq hn, hty, Option.some_or]

theorem fieldType_of_base (hb : h.Base lower upper) (hnot : ¬ h.Declares lower field) :
    h.fieldType? lower field = h.fieldType? upper field := by
  obtain ⟨n, hn, hbase⟩ := hb
  have hnone : n.field? field = none := by
    rwa [declares_iff hn, Option.not_isSome_iff_eq_none] at hnot
  rw [fieldType_eq hn, hnone, hbase, Option.none_or, Option.bind_some]

theorem fieldType_of_passes (hup : Relation.ReflTransGen h.Base lower upper)
    (hpasses : h.Passes lower upper field) :
    h.fieldType? lower field = h.fieldType? upper field := by
  -- One step of the way is taken at a time, from a node that does not declare the field.
  induction hup using Relation.ReflTransGen.head_induction_on with
  | refl => rfl
  | @head lower mid hstep hrest ih =>
    have hnot : ¬ h.Declares lower field := hpasses lower .refl (.head' hstep hrest)
    have hmid : h.Passes mid upper field := fun m hm hm' =>
      hpasses m (.head hstep hm) hm'
    calc h.fieldType? lower field
      _ = h.fieldType? mid field := fieldType_of_base hstep hnot
      _ = h.fieldType? upper field := ih hmid

theorem fieldType_isSome_iff : (h.fieldType? node field).isSome = true ↔
    ∃ m, Relation.ReflTransGen h.Base node m ∧ h.Declares m field := by
  rw [fieldType?, List.findSome?_isSome_iff]
  constructor
  · intro hx
    obtain ⟨n, hn, hfield⟩ := hx
    obtain ⟨hdeclared, hup⟩ := h.mem_lineage_iff.mp hn
    exact ⟨n.name, hup, (declares_iff hdeclared).mpr hfield⟩
  · intro hx
    obtain ⟨m, hup, hm⟩ := hx
    obtain ⟨n, hn, -⟩ := id hm
    have hname : n.name = m := NodeType.name_of_find hn
    refine ⟨n, h.mem_lineage_iff.mpr ?_, (declares_iff hn).mp hm⟩
    rw [hname]
    exact ⟨hn, hup⟩

theorem fieldType_eq_none_iff : h.fieldType? node field = none ↔
    ∀ m, Relation.ReflTransGen h.Base node m → ¬ h.Declares m field := by
  rw [← Option.not_isSome_iff_eq_none, fieldType_isSome_iff]
  simp only [not_exists, not_and]

theorem fieldType_isSome_of_above (hup : Relation.ReflTransGen h.Base lower upper)
    (hfield : (h.fieldType? upper field).isSome = true) :
    (h.fieldType? lower field).isSome = true := by
  obtain ⟨m, habove, hm⟩ := fieldType_isSome_iff.mp hfield
  exact fieldType_isSome_iff.mpr ⟨m, hup.trans habove, hm⟩

end Hierarchy

theorem TypingFault.code_eq_E0204_iff {fault : TypingFault} :
    fault.finding.code = some "E0204" ↔ ∃ node field, fault = .noSuchField node field := by
  cases fault <;> simp [finding, undeclaredNode, Diagnostic.error]

namespace Construction

variable {h : Hierarchy} {e receiver : Expr} {expected : Option Ty} {m : Construction Resolved}
  {r : Resolved} {s t : Session} {fault : TypingFault} {node name : String}

/-- Where the inside of an expression is typed, only the nesting or what is expected is left to
fail. -/
theorem nested_fault (hm : Yields m { s with depth := s.depth + 1 } r t)
    (hfault : ((nested h e expected m).run s).1 = .error fault) :
    fault = .tooDeep ∨ ∃ ty, fault = .mismatch ty r.ty e.display := by
  -- Where there is room the inside is typed, and only the comparison behind it can fail.
  by_cases hroom : s.depth < Expr.maxNesting
  · have hdeeper : (deeper m).run s = (.ok r, { t with depth := t.depth - 1 }) :=
      yields_deeper.mpr ⟨t, hm, rfl⟩
    change ((if s.depth < Expr.maxNesting then _ else throw .tooDeep : Construction _).run s).1 = _
      at hfault
    rw [if_pos hroom, run_bind, hdeeper] at hfault
    cases expected with
    | none => cases hfault
    | some ty =>
      right
      dsimp only [expect] at hfault
      split at hfault
      · cases hfault
      · cases hfault
        exact ⟨ty, rfl⟩
  · left
    rw [nested_tooDeep (Nat.le_of_not_lt hroom)] at hfault
    cases hfault
    rfl

theorem field_fault (hr : Yields (construct h receiver none) { s with depth := s.depth + 1 } r t)
    (hnode : r.ty = .node node) (hfield : (h.fieldType? node name).isSome = true)
    (hfault : ((construct h (.field receiver name) expected).run s).1 = .error fault) :
    fault.finding.code ≠ some "E0204" := by
  obtain ⟨ty, hty⟩ := Option.isSome_iff_exists.mp hfield
  rw [construct.eq_def] at hfault
  have hbody := nested_fault (r := .field ⟨ty, none⟩ r name) (t := t) ?_ hfault
  · rw [ne_eq, TypingFault.code_eq_E0204_iff]
    rintro ⟨_, _, rfl⟩
    rcases hbody with hdeep | ⟨_, hmismatch⟩
    · cases hdeep
    · cases hmismatch
  · apply yields_bind.mpr
    refine ⟨r, t, hr, ?_⟩
    rw [hnode]
    apply yields_bind.mpr
    exact ⟨ty, t, yields_orFail.mpr ⟨hty, rfl⟩, yields_pure.mpr ⟨rfl, rfl⟩⟩

theorem fieldType_of_field {i : NodeInfo}
    (hrun : (construct h (.field receiver name) expected).run s = (.ok (.field i r name), t))
    (hnode : r.ty = .node node) : (h.fieldType? node name).isSome = true := by
  obtain ⟨-, g, -, hr⟩ := construct_derives h _ _ hrun
  cases hr with
  | fits hn =>
    cases hn with
    | field hreceiver hnode' hfield =>
      cases hnode.symm.trans hnode'
      exact Option.isSome_of_eq_some hfield

end Construction

/-- Inherited fields are never lost, and the nearest declaration counts. A node has a type for each
field that a node above it has one for; it has the same type if no node on the way declares the
field, and a node that declares it tells the type itself; there is no type only where neither the
node nor one above it declares the field. So a field access that is typed on a receiver of one node
type is never refused for want of the field on a receiver of a node type below. -/
theorem Hierarchy.fieldType_inherited (h : Hierarchy) {lower upper : String}
    (hup : Relation.ReflTransGen h.Base lower upper) (field : String) :
    ((h.fieldType? upper field).isSome = true → (h.fieldType? lower field).isSome = true) ∧
      (h.Passes lower upper field → h.fieldType? lower field = h.fieldType? upper field) ∧
      (∀ n ty, h.node? upper = some n → n.field? field = some ty →
        h.fieldType? upper field = some ty) ∧
      (h.fieldType? lower field = none ↔
        ∀ m, Relation.ReflTransGen h.Base lower m → ¬ h.Declares m field) ∧
      ∀ (e e' : Expr) (expected expected' : Option Ty) (s t s' t' : Session) (i : NodeInfo)
        (r r' : Resolved) (fault : TypingFault),
        (Construction.construct h (.field e field) expected).run s = (.ok (.field i r field), t) →
        r.ty = .node upper →
        (Construction.construct h e' none).run { s' with depth := s'.depth + 1 } = (.ok r', t') →
        r'.ty = .node lower →
        ((Construction.construct h (.field e' field) expected').run s').1 = .error fault →
          fault.finding.code ≠ some "E0204" := by
  refine ⟨fieldType_isSome_of_above hup, fieldType_of_passes hup, fun n ty hn hty => ?_,
    fieldType_eq_none_iff, ?_⟩
  · exact fieldType_of_declared hn hty
  · intro e e' expected expected' s t s' t' i r r' fault hrun hupper hrun' hlower hfault
    have hfield := Construction.fieldType_of_field hrun hupper
    exact Construction.field_fault hrun' hlower (fieldType_isSome_of_above hup hfield) hfault

namespace Sample

def renamed : Hierarchy where
  nodes := [⟨"Node", none, [("name", .symbol), ("parent", .node "Node")]⟩,
    ⟨"Decl", some "Node", [("name", .token)]⟩, ⟨"Var_Decl", some "Decl", []⟩]
  faultless := rfl

def bodyStart (owner : String) : Session := Session.enter {} (.bindDefault ⟨owner, "up", false⟩)

theorem varDecl_inherits :
    Relation.ReflTransGen renamed.Base "Var_Decl" "Node" ∧
      renamed.Passes "Var_Decl" "Node" "parent" ∧
      renamed.fieldType? "Node" "parent" = some (.node "Node") ∧
      renamed.fieldType? "Var_Decl" "parent" = some (.node "Node") ∧
      renamed.fieldType? "Var_Decl" "name" = some .token ∧
      (∃ i r t, (Construction.construct renamed (.field .self "parent") none).run
        (bodyStart "Node") = (.ok (.field i r "parent"), t) ∧ r.ty = .node "Node") ∧
      ∃ fault, ((Construction.construct renamed (.field .self "parent") (some .bool)).run
        (bodyStart "Var_Decl")).1 = .error fault ∧ fault.finding.code ≠ some "E0204" := by
  have hlower : renamed.Base "Var_Decl" "Decl" := ⟨_, rfl, rfl⟩
  have hupper : renamed.Base "Decl" "Node" := ⟨_, rfl, rfl⟩
  have hup : Relation.ReflTransGen renamed.Base "Var_Decl" "Node" := .head hlower (.single hupper)
  have hlacks : ∀ field, ¬ renamed.Declares "Var_Decl" field := by
    rintro field ⟨n, hn, ty, hty⟩
    cases hn
    cases hty
  have hpasses : renamed.Passes "Var_Decl" "Node" "parent" := by
    apply Hierarchy.Passes.head hlower (hlacks "parent")
    apply Hierarchy.Passes.head hupper _ (Hierarchy.passes_refl "Node" "parent")
    rintro ⟨n, hn, ty, hty⟩
    cases hn
    simp at hty
  have hnearer : renamed.Passes "Var_Decl" "Decl" "name" :=
    .head hlower (hlacks "name") (Hierarchy.passes_refl "Decl" "name")
  obtain ⟨-, hsame, hown, -, haccess⟩ := Hierarchy.fieldType_inherited renamed hup "parent"
  obtain ⟨-, hsame', hown', -, -⟩ :=
    Hierarchy.fieldType_inherited renamed (.single hlower) "name"
  have hnode : renamed.fieldType? "Node" "parent" = some (.node "Node") := hown _ _ rfl rfl
  have hdecl : renamed.fieldType? "Decl" "name" = some .token := hown' _ _ rfl rfl
  obtain ⟨i, r, t, hrun, hty⟩ : ∃ i r t,
      (Construction.construct renamed (.field .self "parent") none).run (bodyStart "Node") =
        (.ok (.field i r "parent"), t) ∧ r.ty = .node "Node" := ⟨_, _, _, rfl, rfl⟩
  refine ⟨hup, hpasses, hnode, (hsame hpasses).trans hnode, (hsame' hnearer).trans hdecl,
    ⟨i, r, t, hrun, hty⟩, ?_⟩
  -- The access is typed, and then its type is not the expected one.
  refine ⟨_, rfl, ?_⟩
  exact haccess .self .self none (some .bool) (bodyStart "Node") t (bodyStart "Var_Decl") _ i r _ _
    hrun hty rfl rfl rfl

end Sample

end FrontEnd
