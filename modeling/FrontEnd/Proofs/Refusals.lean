import FrontEnd.Proofs.CommonSupertypes
import FrontEnd.Proofs.TypingCompleteness
import FrontEnd.Proofs.TypingFaults

namespace FrontEnd

namespace TypingFault

variable {fault : TypingFault}

theorem finding_coded (fault : TypingFault) :
    (∃ code, fault.finding.code = some code) ∧ fault.finding.context = none := by
  cases fault <;> exact ⟨⟨_, rfl⟩, rfl⟩

theorem code_eq_E0206_iff : fault.finding.code = some "E0206" ↔ fault = .selfOutsideProperty := by
  cases fault <;> simp [finding, undeclaredNode, Diagnostic.error]

theorem code_eq_E0213_iff : fault.finding.code = some "E0213" ↔ fault = .noRoot := by
  cases fault <;> simp [finding, undeclaredNode, Diagnostic.error]

end TypingFault

namespace PropertyDecl

variable {h : Hierarchy} {p : PropertyDecl} {fault : TypingFault}

/-- The property is refused for the fault, and the finding tells so. -/
structure Refused (h : Hierarchy) (p : PropertyDecl) (fault : TypingFault) (finding : Diagnostic) :
    Prop where
  message : finding.message = fault.finding.message
  coded : ∃ code, finding.code = some code
  context : finding.context = some ("property " ++ p.signature.owner ++ "." ++ p.signature.name)
  self_available : fault ≠ .selfOutsideProperty ∧ finding.code ≠ some "E0206"
  root_available : fault ≠ .noRoot ∧ finding.code ≠ some "E0213"
  /-- Comparing `Self` with the root is never what fails. -/
  owner_below_root : ∀ root shown, h.root? = some root →
    fault ≠ .mismatch root (.node p.signature.owner) shown
  /-- While the body is typed, the boundary of a lookup is there wherever a level is left for it. -/
  boundary : p.headFault? h = none → ∀ s : Session, s.scope.property = some p.signature →
    s.depth < Expr.maxNesting →
      ((Construction.boundaryNode h true).run s).1 =
        .ok (some (.var ⟨.node p.signature.owner, none⟩ "Self"))

theorem check_eq_error_iff {e : Error} :
    p.check h = .error e ↔ ∃ fault, p.construct h = .error fault ∧
      e = .typing (fault.finding.inContext p.context) := by
  unfold check
  cases p.construct h <;> simp [eq_comm]

/-- `Self` is bound around the body, and where the head is faultless there is a root above the
owner; in the head nothing is typed. -/
theorem construct_available (hc : p.construct h = .error fault) :
    fault ≠ .selfOutsideProperty ∧ fault ≠ .noRoot ∧ ∀ root shown, h.root? = some root →
      fault ≠ .mismatch root (.node p.signature.owner) shown := by
  rcases construct_fails hc with hhead | ⟨hhead, hbody⟩
  · obtain ⟨owner, rfl⟩ | ⟨node, rfl⟩ := headFault_eq_some hhead <;> simp
  · have howner := (headFault_eq_none_iff.mp hhead).1
    obtain ⟨root, hroot, hbelow⟩ := Hierarchy.root_above howner
    -- Each of the three faults would need a reason that is not there.
    refine ⟨?_, ?_, ?_⟩
    · intro hself
      subst hself
      have hunbound : some p.signature = none := hbody
      cases hunbound
    · intro hmissing
      subst hmissing
      have hnone : h.root? = none := hbody
      rw [hroot] at hnone
      cases hnone
    · intro upper shown hupper hmismatch
      subst hmismatch
      have hapart : ¬ h.isSubtype (.node p.signature.owner) upper := hbody
      have hsame : upper = root := Option.some.inj (hupper.symm.trans hroot)
      rw [hsame] at hapart
      exact hapart hbelow

theorem boundaryNode_of_property {s : Session} (ho : (h.node? p.signature.owner).isSome = true)
    (hp : s.scope.property = some p.signature) (hroom : s.depth < Expr.maxNesting) :
    Construction.Yields (Construction.boundaryNode h true) s
      (some (.var ⟨.node p.signature.owner, none⟩ "Self")) s := by
  -- The boundary of a lookup is `Self`, wherever a property of a declared node stands around
  -- it.
  obtain ⟨root, hroot, hbelow⟩ := Hierarchy.root_above ho
  exact (Boundary.self hp hroot hbelow).yields rfl hroom s.gathered

/-- Every error of a property is the finding for one fault, with a code and in the context of the
property, and never for want of `Self`, of the root, or of a boundary below the root. -/
theorem check_refused {e : Error} (hc : p.check h = .error e) :
    ∃ fault finding, p.construct h = .error fault ∧ e = .typing finding ∧
      p.Refused h fault finding := by
  obtain ⟨fault, hfault, rfl⟩ := check_eq_error_iff.mp hc
  -- No finding has a place of its own, so the property's is the one that is told.
  obtain ⟨hself, hroot, hbelow⟩ := construct_available hfault
  obtain ⟨hcode, hcontext⟩ := fault.finding_coded
  refine ⟨fault, fault.finding.inContext p.context, hfault, rfl, ?_⟩
  constructor
  case message => rfl
  case coded => exact hcode
  case context =>
    show (fault.finding.context <|> some p.context) = _
    rw [hcontext]
    simp [PropertyDecl.context, Signature.qualifiedName, String.append_assoc]
  case self_available => exact ⟨hself, fun h6 => hself (TypingFault.code_eq_E0206_iff.mp h6)⟩
  case root_available => exact ⟨hroot, fun h13 => hroot (TypingFault.code_eq_E0213_iff.mp h13)⟩
  case owner_below_root => exact fun root shown => hbelow root shown
  case boundary =>
    intro hhead s hs hroom
    have howner := (headFault_eq_none_iff.mp hhead).1
    exact congrArg Prod.fst (boundaryNode_of_property howner hs hroom)

end PropertyDecl

namespace Sample

/-- A property that takes `Self` for a flag behind the boundary of a lookup, with an environment
bound inside. -/
def flagged : PropertyDecl where
  signature := ⟨"Name", "flagged", false⟩
  ty := none
  body := .evalInEnv .emptyEnv (.lookup .env (.field .self "identifier") .self true true)

theorem flagged_refused :
    ∃ e, flagged.check hierarchy = .error e ∧
      flagged.construct hierarchy = .error (.mismatch .bool (.node "Name") "Self") ∧
      ∃ fault finding, flagged.construct hierarchy = .error fault ∧ e = .typing finding ∧
        flagged.Refused hierarchy fault finding := by
  obtain ⟨e, hrefused⟩ : ∃ e, flagged.check hierarchy = .error e := ⟨_, rfl⟩
  exact ⟨e, hrefused, rfl, PropertyDecl.check_refused hrefused⟩

end Sample

end FrontEnd
