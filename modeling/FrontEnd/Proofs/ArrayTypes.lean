import FrontEnd.Proofs.CarriedLocals
import FrontEnd.Proofs.TypingSoundness
import FrontEnd.Property.Function

/-!
The array types that a property records. They are those of the arrays that its body makes: of array
literals and of lookups that yield all entries. A node can also be of an array type because it reads
a field or stands for the value of its body, and nothing is recorded there; so an array type is
missing exactly if it is met in fields alone.
-/
namespace FrontEnd

namespace Resolved

/-- The type of the array that the node makes. -/
def madeArray? : Resolved → Option Ty
  | array i _ _ => some i.ty
  | lookup i _ _ _ _ unique => if unique then none else some i.ty
  | _ => none

def madeArrays (r : Resolved) : List Ty := r.nodes.filterMap madeArray?

def isField : Resolved → Bool
  | field .. => true
  | _ => false

theorem madeArrays_eq (r : Resolved) :
    r.madeArrays = r.madeArray?.toList ++ r.children.flatMap madeArrays := by
  have hlisted (c : Resolved) : c.madeArrays = c.nodes.flatMap (·.madeArray?.toList) :=
    List.filterMap_eq_flatMap_toList _ _
  rw [hlisted r, flatMap_nodes, funext hlisted]

theorem mem_madeArrays_iff {r : Resolved} {ty : Ty} :
    ty ∈ r.madeArrays ↔ ∃ n ∈ r.nodes, n.madeArray? = some ty := List.mem_filterMap

/-- The kinds of nodes that may be of an array type: those that make an array, fields, and nodes
that have their type from a part. -/
theorem NodeTyped.array_cases {h : Hierarchy} {owner : String} {r : Resolved} {element : Ty}
    (hr : r.NodeTyped h owner) (hty : r.ty = .array element) :
    r.madeArray? = some r.ty ∨ r.isField = true ∨ ∃ c ∈ r.children, c.ty = r.ty := by
  cases r with
  | array | field => simp [madeArray?, isField, ty, info]
  | lookup i e key boundary recursive unique =>
    left
    obtain ⟨-, -, -, -, hvalue⟩ := hr
    cases unique with
    | false => rfl
    | true =>
      change i.ty = .array element at hty
      cases hvalue.symm.trans hty
  | bind i e x body =>
    obtain ⟨-, -, hbody⟩ := hr
    exact .inr (.inr ⟨body, mem_children_bind.mpr (.inr rfl), hbody.symm⟩)
  | literal i v =>
    change i.ty = .array element at hty
    cases v <;> cases hr.symm.trans hty
  | var i name =>
    change i.ty = .array element at hty
    change i.ty = if name = "Self" then .node owner else .lexicalEnv at hr
    rw [hty] at hr
    split at hr <;> cases hr
  | getSymbol i token =>
    change i.ty = .array element at hty
    cases hr.2.symm.trans hty
  | call i callee args =>
    change i.ty = .array element at hty
    change (callee, args.map Resolved.ty, i.ty) ∈ calls at hr
    simp [calls, hty] at hr
  | envNode i e =>
    change i.ty = .array element at hty
    -- The root is a node type.
    have hroot : h.root? = some (.array element) := hty ▸ hr.2
    simp [Hierarchy.root?] at hroot

/-- An array that is the value of an expression is made somewhere in it, or read from a field. -/
theorem array_origin {h : Hierarchy} {owner : String} {r : Resolved} {element : Ty}
    (hr : ∀ n ∈ r.nodes, n.NodeTyped h owner) (hty : r.ty = .array element) :
    .array element ∈ r.madeArrays ∨ ∃ n ∈ r.nodes, n.isField = true ∧ n.ty = .array element := by
  induction r using children_induction with
  | step r ih =>
    obtain ⟨htop, hparts⟩ := (forall_nodes_iff r).mp hr
    rcases htop.array_cases hty with hmade | hfield | ⟨c, hc, hsame⟩
    · exact .inl (mem_madeArrays_iff.mpr ⟨r, r.self_mem_nodes, hty ▸ hmade⟩)
    · exact .inr ⟨r, r.self_mem_nodes, hfield, hty⟩
    · -- The value is handed on by a part, so it has come about in there.
      rcases ih c hc (hparts c hc) (hsame.trans hty) with hmade | ⟨n, hn, hfield⟩
      · obtain ⟨n, hn, hmade⟩ := mem_madeArrays_iff.mp hmade
        exact .inl (mem_madeArrays_iff.mpr ⟨n, mem_nodes_of_child hc hn, hmade⟩)
      · exact .inr ⟨n, mem_nodes_of_child hc hn, hfield⟩

end Resolved

/-- Array types that are recorded behind `g`, each once, are those listed; locals have no others. -/
structure Gathered.Records (g g' : Gathered) (tys : List Ty) : Prop where
  mem_iff : ∀ ty, ty ∈ g'.arrayTypes ↔ ty ∈ g.arrayTypes ∨ ty ∈ tys
  nodup : g.arrayTypes.Nodup → g'.arrayTypes.Nodup
  locals : (∀ l ∈ g.locals.toList, ∀ element, l.ty = .array element → l.ty ∈ g.arrayTypes) →
    ∀ l ∈ g'.locals.toList, ∀ element, l.ty = .array element → l.ty ∈ g'.arrayTypes

namespace Gathered.Records

variable {g g₁ g₂ : Gathered} {tys tys' : List Ty}

theorem refl (g : Gathered) : g.Records g [] := ⟨by simp, id, id⟩

theorem trans (h₁ : g.Records g₁ tys) (h₂ : g₁.Records g₂ tys') :
    g.Records g₂ (tys ++ tys') where
  mem_iff ty := by rw [h₂.mem_iff, h₁.mem_iff, List.mem_append, or_assoc]
  nodup := h₂.nodup ∘ h₁.nodup
  locals := h₂.locals ∘ h₁.locals

theorem perm (h : g.Records g₁ tys) (hp : tys.Perm tys') : g.Records g₁ tys' :=
  ⟨fun ty => by rw [h.mem_iff, hp.mem_iff], h.nodup, h.locals⟩

theorem recordArray (h : g.Records g₁ tys) (ty : Ty) :
    g.Records (g₁.recordArray ty) (ty :: tys) := by
  have hlocals : (g₁.recordArray ty).locals = g₁.locals := by
    unfold Gathered.recordArray
    split <;> rfl
  have hmem (t : Ty) : t ∈ (g₁.recordArray ty).arrayTypes ↔ t ∈ g₁.arrayTypes ∨ t = ty := by
    unfold Gathered.recordArray
    split
    · rename_i hcontains
      have hknown : ty ∈ g₁.arrayTypes := List.contains_iff_mem.mp hcontains
      exact ⟨Or.inl, fun ht => ht.elim id fun he => he ▸ hknown⟩
    · simp
  -- Only a type that is not recorded yet is put behind the others, so that none comes twice.
  constructor
  case mem_iff =>
    intro t
    rw [hmem, h.mem_iff, List.mem_cons, or_assoc, or_comm (a := t ∈ tys)]
  case nodup =>
    intro hg
    have hg₁ := h.nodup hg
    unfold Gathered.recordArray
    split
    · exact hg₁
    · rename_i hcontains
      have hnew : ty ∉ g₁.arrayTypes := fun hty => hcontains (List.contains_iff_mem.mpr hty)
      rw [List.nodup_append]
      refine ⟨hg₁, by simp, ?_⟩
      intro t ht t' ht' he
      rw [List.mem_singleton] at ht'
      exact hnew ((he.trans ht') ▸ ht)
  case locals =>
    intro hg l hl element hty
    rw [hlocals] at hl
    exact (hmem l.ty).mpr (.inl (h.locals hg l hl element hty))

theorem recordLookup (h : g.Records g₁ tys) (unique : Bool) :
    g.Records (g₁.recordLookup unique)
      ((if unique then [] else [.array .envElement]) ++ tys) := by
  cases unique with
  | true => exact h
  | false => exact h.recordArray _

theorem addLocal (h : g.Records g₁ tys) (stem : String) {ty : Ty}
    (hty : ∀ element, ty = .array element → ty ∈ g₁.arrayTypes) :
    g.Records (g₁.addLocal stem ty) tys where
  mem_iff := h.mem_iff
  nodup := h.nodup
  locals hg l hl element hl' := by
    have hnew : (g₁.addLocal stem ty).locals.toList =
        g₁.locals.toList ++ [g₁.locals.next stem ty] := g₁.locals.toList_create stem ty
    rw [hnew, List.mem_append, List.mem_singleton] at hl
    rcases hl with hl | rfl
    · exact h.locals hg l hl element hl'
    · exact hty element hl'

theorem addEnv (h : g.Records g₁ tys) (stem : String) :
    g.Records (g₁.addLocal stem .lexicalEnv) tys :=
  h.addLocal stem (by simp)

end Gathered.Records

section

open Resolved

variable {h : Hierarchy}

theorem KeySymbol.madeArrays_eq {k k' : Resolved} (hs : KeySymbol k k') :
    k'.madeArrays = k.madeArrays := by
  cases hs with
  | symbol => rfl
  | token => simp [Resolved.madeArrays_eq (getSymbol _ k), madeArray?, children]

theorem Boundary.madeArrays_eq {scope : Scope} {sequential : Bool} {b : Option Resolved}
    (hb : Boundary h scope sequential b) : b.toList.flatMap madeArrays = [] := by
  cases hb with
  | none => rfl
  | self => rfl

theorem madeArray_lookup {result : Option Local} {e key recursive : Resolved}
    {boundary : Option Resolved} {unique : Bool} :
    (lookup ⟨lookupValueTy unique, result⟩ e key boundary recursive unique).madeArray?.toList =
      if unique then [] else [.array .envElement] := by
  cases unique <;> rfl

theorem lookupValueTy_recorded {g : Gathered} {unique : Bool} {element : Ty}
    (hty : lookupValueTy unique = .array element) :
    lookupValueTy unique ∈ (g.recordLookup unique).arrayTypes := by
  cases unique with
  | true => cases hty
  | false =>
    have hrecords := (Gathered.Records.refl g).recordArray (.array .envElement)
    exact (hrecords.mem_iff _).mpr (.inr (List.mem_singleton_self _))

mutual

theorem Constructs.records {scope : Scope} {expected : Option Ty} {g g' : Gathered} {e : Expr}
    {r : Resolved} (hc : Constructs h scope expected g e r g') : g.Records g' r.madeArrays := by
  match hc with
  | .fits hn _ => exact hn.records

theorem ConstructsNode.records {scope : Scope} {expected : Option Ty} {g g' : Gathered} {e : Expr}
    {r : Resolved} (hc : ConstructsNode h scope expected g e r g') :
    g.Records g' r.madeArrays := by
  rw [Resolved.madeArrays_eq]
  match hc with
  | .literal _ => exact .refl g
  | .self _ => exact .refl g
  | .env _ => exact .refl g
  | .emptyEnv => exact .refl g
  | .field hr _ _ => simpa [madeArray?, children] using hr.records
  | .array hes _ => simpa [madeArray?, children] using hes.records.recordArray _
  | .lookup _ hk hsym he hb hrec hg =>
    -- The key is typed before the environment that it stands behind.
    have hoperands := (hk.records.trans he.records).perm List.perm_append_comm
    have hparts := hg ▸ (hoperands.trans hrec.records).recordLookup _
    have hall := hparts.addLocal "Env_Get_Result" fun _ hty => hg ▸ lookupValueTy_recorded hty
    rw [madeArray_lookup]
    simpa [children, hb.madeArrays_eq, hsym.madeArrays_eq] using hall
  | .evalInEnv he hx hb =>
    simpa [madeArray?, children] using (he.records.addEnv "New_Env").trans hb.records
  | .orphan he =>
    simpa [madeArray?, children] using he.records.addEnv "Orphan_Env"
  | .group he =>
    simpa [madeArray?, children] using he.records.addEnv "Group_Env"
  | .groupAll hes hg =>
    have henvs := hes.records.recordArray (.array .lexicalEnv)
    rw [← hg] at henvs
    simpa [madeArray?, children, Resolved.madeArrays_eq (array _ _ _), info] using
      henvs.addEnv "Group_Env"
  | .isVisibleFrom hb hr => simpa [madeArray?, children] using hb.records.trans hr.records
  | .envNode he _ => simpa [madeArray?, children] using he.records

theorem ConstructsAll.records {scope : Scope} {expected : Option Ty} {g g' : Gathered}
    {es : List Expr} {rs : List Resolved} (hc : ConstructsAll h scope expected g es rs g') :
    g.Records g' (rs.flatMap madeArrays) := by
  match hc with
  | .nil => exact .refl g
  | .cons he hes => exact he.records.trans hes.records

end

end

namespace Property

/-- Every array type of a node of the body or of a local is recorded. -/
def RecordsAll (ir : Property) : Prop :=
  (∀ n ∈ ir.body.nodes, ∀ element, n.ty = .array element → n.ty ∈ ir.arrayTypes) ∧
    ∀ l ∈ ir.locals, ∀ element, l.ty = .array element → l.ty ∈ ir.arrayTypes

structure RecordsMade (ir : Property) : Prop where
  nodup : ir.arrayTypes.Nodup
  /-- They are those of the arrays that the body makes. -/
  mem_iff : ∀ ty, ty ∈ ir.arrayTypes ↔ ∃ n ∈ ir.body.nodes, n.madeArray? = some ty
  locals : ∀ l ∈ ir.locals, ∀ element, l.ty = .array element → l.ty ∈ ir.arrayTypes
  /-- If the array type of a node is not recorded, the node has its value from a field. -/
  of_node : ∀ n ∈ ir.body.nodes, ∀ element, n.ty = .array element →
    n.ty ∈ ir.arrayTypes ∨ ∃ f ∈ n.nodes, f.isField = true ∧ f.ty = n.ty
  /-- So nothing is missing exactly if no array type of a field is. -/
  recordsAll_iff : ir.RecordsAll ↔ ∀ f ∈ ir.body.nodes, f.isField = true →
    ∀ element, f.ty = .array element → f.ty ∈ ir.arrayTypes

end Property

/-- An accepted property records, each once, the types of the arrays that its body makes. -/
theorem PropertyDecl.check_records {h : Hierarchy} {p : PropertyDecl} {ir : Property}
    (hc : p.check h = .ok ir) : ir.RecordsMade := by
  obtain ⟨-, -, r, g, hr, rfl⟩ := check_derives hc
  have htyped : ∀ n ∈ r.nodes, n.NodeTyped h p.signature.owner :=
    hr.typed (Scope.inside_bindDefault p.signature)
  have hrecords := hr.records
  have hmem (ty : Ty) : ty ∈ g.arrayTypes ↔ ∃ n ∈ r.nodes, n.madeArray? = some ty := by
    rw [hrecords.mem_iff, Resolved.mem_madeArrays_iff]
    exact or_iff_right List.not_mem_nil
  have hlocals : ∀ l ∈ g.locals.toList, ∀ element, l.ty = .array element → l.ty ∈ g.arrayTypes :=
    hrecords.locals (by simp [Locals.toList])
  -- What a node has from its parts is looked for among the nodes inside it, which are nodes of the
  -- body too.
  have hnode : ∀ n ∈ r.nodes, ∀ element, n.ty = .array element →
      n.ty ∈ g.arrayTypes ∨ ∃ f ∈ n.nodes, f.isField = true ∧ f.ty = n.ty := by
    intro n hn element hty
    have hparts : ∀ m ∈ n.nodes, m.NodeTyped h p.signature.owner := fun m hm =>
      htyped m (Resolved.mem_nodes_trans hn hm)
    rw [hty]
    rcases Resolved.array_origin hparts hty with hmade | hfield
    · obtain ⟨m, hm, hmade⟩ := Resolved.mem_madeArrays_iff.mp hmade
      exact .inl ((hmem _).mpr ⟨m, Resolved.mem_nodes_trans hn hm, hmade⟩)
    · exact .inr hfield
  constructor
  case nodup => exact hrecords.nodup List.nodup_nil
  case mem_iff => exact hmem
  case locals => exact hlocals
  case of_node => exact hnode
  case recordsAll_iff =>
    constructor
    · rintro ⟨hall, -⟩ f hf - element hty
      exact hall f hf element hty
    · intro hfields
      refine ⟨fun n hn element hty => ?_, hlocals⟩
      rcases hnode n hn element hty with hrecorded | ⟨f, hf, hfield, hsame⟩
      · exact hrecorded
      · have hrecorded :=
          hfields f (Resolved.mem_nodes_trans hn hf) hfield element (hsame.trans hty)
        rwa [hsame] at hrecorded

namespace Sample

def namesakes : PropertyDecl where
  signature := ⟨"Name", "namesakes", true⟩
  ty := some (.array .envElement)
  body := .lookup .env (.field .self "identifier") (.ofBool true) false false

theorem namesakes_records :
    ∃ ir, namesakes.check hierarchy = .ok ir ∧ ir.arrayTypes = [.array .envElement] ∧
      ir.RecordsMade := by
  obtain ⟨ir, hok, harrays⟩ : ∃ ir, namesakes.check hierarchy = .ok ir ∧
      ir.arrayTypes = [.array .envElement] := ⟨_, rfl, rfl⟩
  exact ⟨ir, hok, harrays, PropertyDecl.check_records hok⟩

def treeHierarchy : Hierarchy where
  nodes := [⟨"Node", none, [("parts", .array (.node "Node"))]⟩]
  faultless := rfl

def partsOfSelf : PropertyDecl where
  signature := ⟨"Node", "all_parts", false⟩
  ty := none
  body := .field .self "parts"

end Sample

/-- Not every array type that a property needs is recorded: the type of a field is not, even where
the generated function declares and returns a variable of it. -/
theorem PropertyDecl.array_unrecorded :
    ∃ ir, Sample.partsOfSelf.check Sample.treeHierarchy = .ok ir ∧
      ir.body.ty = .array (.node "Node") ∧ ir.arrayTypes = [] ∧ ¬ ir.RecordsAll ∧
      ir.function.returnType = "Node_Array_Access" ∧ ir.function.arrayTypes = [] := by
  obtain ⟨ir, hok, hty, harrays, hreturn⟩ : ∃ ir,
      Sample.partsOfSelf.check Sample.treeHierarchy = .ok ir ∧
        ir.body.ty = .array (.node "Node") ∧ ir.arrayTypes = [] ∧
        ir.body.ty.target = "Node_Array_Access" := ⟨_, rfl, rfl, rfl, rfl⟩
  refine ⟨ir, hok, hty, harrays, ?_, hreturn, congrArg (List.map Ty.target) harrays⟩
  rintro ⟨hall, -⟩
  have hrecorded := hall ir.body ir.body.self_mem_nodes (.node "Node") hty
  rw [harrays] at hrecorded
  cases hrecorded

end FrontEnd
