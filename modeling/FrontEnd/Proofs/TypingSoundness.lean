import FrontEnd.Proofs.Lineage
import FrontEnd.Proofs.TypedNodes
import FrontEnd.Proofs.TypingDerivations

namespace FrontEnd

namespace Hierarchy

variable {h : Hierarchy}

theorem lowestAbove_upper {tys : List Ty} {ty : Ty} (hl : h.lowestAbove? tys = some ty) :
    ∀ t ∈ tys, h.isSubtype t ty = true := by
  cases tys with
  | nil => cases hl
  | cons first rest =>
    change rest.foldlM h.leastCommonSupertype? first = some ty at hl
    rw [List.forall_mem_cons]
    -- The type reached so far is above all types passed, because going up is transitive.
    induction rest generalizing first with
    | nil =>
      cases hl
      exact ⟨h.isSubtype_refl _, by simp⟩
    | cons second rest ih =>
      rw [List.foldlM_cons] at hl
      obtain ⟨joined, hj, hl⟩ := Option.bind_eq_some_iff.mp hl
      obtain ⟨hfirst, hsecond⟩ := h.lcs_upper hj
      obtain ⟨hjoined, hrest⟩ := ih joined hl
      refine ⟨h.isSubtype_trans hfirst hjoined, ?_⟩
      rw [List.forall_mem_cons]
      exact ⟨h.isSubtype_trans hsecond hjoined, hrest⟩

theorem lowestAbove_declared {tys : List Ty} {ty : Ty} (hl : h.lowestAbove? tys = some ty)
    (hd : ∀ t ∈ tys, h.undeclared? t = none) : h.undeclared? ty = none := by
  cases tys with
  | nil => cases hl
  | cons first rest =>
    change rest.foldlM h.leastCommonSupertype? first = some ty at hl
    have hf := hd first List.mem_cons_self
    clear hd
    induction rest generalizing first with
    | nil =>
      cases hl
      exact hf
    | cons second rest ih =>
      rw [List.foldlM_cons] at hl
      obtain ⟨joined, hj, hl⟩ := Option.bind_eq_some_iff.mp hl
      exact ih joined hl (h.lcs_declared hf hj)

theorem ElementTy.upper {expected : Option Ty} {rs : List Resolved} {ty : Ty}
    (ht : h.ElementTy expected rs ty) (hrs : ∀ r ∈ rs, h.Fits r.ty expected) :
    ∀ r ∈ rs, h.isSubtype r.ty ty = true := by
  cases expected with
  | some t =>
    change t = ty at ht
    subst ht
    exact fun r hr => hrs r hr t rfl
  | none => exact fun r hr => lowestAbove_upper ht r.ty (List.mem_map_of_mem hr)

theorem ElementTy.declared {expected : Option Ty} {rs : List Resolved} {ty : Ty}
    (ht : h.ElementTy expected rs ty) (he : ∀ t ∈ expected, h.undeclared? t = none)
    (hrs : ∀ r ∈ rs, h.undeclared? r.ty = none) : h.undeclared? ty = none := by
  cases expected with
  | some t =>
    change t = ty at ht
    subst ht
    exact he t rfl
  | none => exact lowestAbove_declared ht (List.forall_mem_map.mpr hrs)

theorem expected_declared {ty : Ty} (ht : h.undeclared? ty = none) :
    ∀ t ∈ some ty, h.undeclared? t = none := by
  intro t hmem
  cases hmem
  exact ht

theorem element_declared {expected : Option Ty} (he : ∀ t ∈ expected, h.undeclared? t = none) :
    ∀ t ∈ expected.bind Ty.element?, h.undeclared? t = none := by
  intro t ht
  obtain ⟨t', ht', hel⟩ := Option.bind_eq_some_iff.mp ht
  cases t' <;> cases hel
  exact he (.array t) ht'

end Hierarchy

section Typed

open Resolved

variable {h : Hierarchy} {scope : Scope} {p : Signature}

theorem Constructs.fit {expected : Option Ty} {g g' : Gathered} {e : Expr} {r : Resolved}
    (hc : Constructs h scope expected g e r g') : h.Fits r.ty expected := by
  cases hc with
  | fits _ hf => exact hf

theorem Constructs.ty_eq {t : Ty} {g g' : Gathered} {e : Expr} {r : Resolved}
    (hc : Constructs h scope (some t) g e r g') (ht : ∀ u, t ≠ .node u) : r.ty = t :=
  h.eq_of_isSubtype (hc.fit t rfl) ht

theorem ConstructsAll.fit {expected : Option Ty} {g g' : Gathered} {es : List Expr}
    {rs : List Resolved} (hc : ConstructsAll h scope expected g es rs g') :
    ∀ r ∈ rs, h.Fits r.ty expected := by
  induction rs generalizing g es with
  | nil => simp
  | cons r rs ih =>
    cases hc with
    | cons he hes =>
      rw [List.forall_mem_cons]
      exact ⟨he.fit, ih hes⟩

theorem KeySymbol.typed {owner : String} {k k' : Resolved} (hs : KeySymbol k k')
    (hk : ∀ n ∈ k.nodes, n.NodeTyped h owner) :
    k'.ty = .symbol ∧ ∀ n ∈ k'.nodes, n.NodeTyped h owner := by
  cases hs with
  | symbol hsymbol => exact ⟨hsymbol, hk⟩
  | token htoken =>
    refine ⟨rfl, (forall_nodes_iff _).mpr ⟨⟨htoken, rfl⟩, ?_⟩⟩
    simpa [children] using hk

theorem Boundary.typed {sequential : Bool} {b : Option Resolved}
    (hb : Boundary h scope sequential b) (hp : scope.property = some p) :
    (∀ r ∈ b, r.ty = .node p.owner ∧
      ∃ root, h.root? = some root ∧ h.isSubtype (.node p.owner) root = true) ∧
    ∀ r ∈ b, ∀ n ∈ r.nodes, n.NodeTyped h p.owner := by
  cases hb with
  | none => simp
  | self hp' hr hs =>
    cases hp.symm.trans hp'
    refine ⟨?_, ?_⟩
    · intro r hb
      cases hb
      exact ⟨rfl, _, hr, hs⟩
    · intro r hb
      cases hb
      exact (forall_nodes_iff _).mpr ⟨(if_pos rfl).symm, by simp [children]⟩

mutual

theorem Constructs.typed {scope : Scope} {expected : Option Ty} {g g' : Gathered} {e : Expr}
    {r : Resolved} (hc : Constructs h scope expected g e r g') (hs : scope.Inside p) :
    ∀ n ∈ r.nodes, n.NodeTyped h p.owner := by
  match hc with
  | .fits hn _ => exact hn.typed hs

theorem ConstructsNode.typed {scope : Scope} {expected : Option Ty} {g g' : Gathered} {e : Expr}
    {r : Resolved} (hc : ConstructsNode h scope expected g e r g') (hs : scope.Inside p) :
    ∀ n ∈ r.nodes, n.NodeTyped h p.owner := by
  rw [forall_nodes_iff]
  match hc with
  | .literal v => cases v <;> exact ⟨rfl, by simp [children]⟩
  | .self hp =>
    cases hs.property.symm.trans hp
    exact ⟨(if_pos rfl).symm, by simp [children]⟩
  | .env _ => exact ⟨(if_neg hs.ne_self).symm, by simp [children]⟩
  | .emptyEnv => exact ⟨(if_neg (by decide)).symm, by simp [children]⟩
  | .field hr hn hf =>
    refine ⟨⟨_, hn, hf⟩, ?_⟩
    simpa [children] using hr.typed hs
  | .array hes ht => exact ⟨⟨ht.upper hes.fit, rfl⟩, hes.typed hs⟩
  | .lookup _ hk hsym he hb hrec _ =>
    obtain ⟨hsymbol, hkey⟩ := hsym.typed (hk.typed hs)
    obtain ⟨hboundary, hnodes⟩ := hb.typed hs.property
    refine ⟨⟨he.ty_eq (by simp), hsymbol, hrec.ty_eq (by simp), hboundary, rfl⟩, ?_⟩
    simpa [children, or_imp, forall_and] using
      ⟨he.typed hs, hkey, hnodes, hrec.typed hs⟩
  | .evalInEnv (x := x) he hx hb =>
    -- The body is typed in another scope, which belongs to the same property.
    have hbody : (scope.bindName x.name).Inside p := hx ▸ hs.bindName _
    refine ⟨⟨he.ty_eq (by simp), congrArg Local.ty hx, rfl⟩, ?_⟩
    simpa [children] using ⟨he.typed hs, hb.typed hbody⟩
  | .orphan he =>
    have ht := he.ty_eq (by simp)
    refine ⟨by simp [NodeTyped, calls, ht], ?_⟩
    simpa [children] using he.typed hs
  | .group he =>
    have ht := he.ty_eq (by simp)
    refine ⟨by simp [NodeTyped, calls, ht], ?_⟩
    simpa [children] using he.typed hs
  | .groupAll hes _ =>
    -- The array has no expression of its own; it stands between the call and the environments.
    have harray : ∀ n ∈ (array ⟨.array .lexicalEnv, none⟩ _ .lexicalEnv).nodes,
        n.NodeTyped h p.owner :=
      (forall_nodes_iff _).mpr ⟨⟨fun r hr => hes.fit r hr _ rfl, rfl⟩, hes.typed hs⟩
    refine ⟨List.mem_cons_of_mem _ List.mem_cons_self, ?_⟩
    simpa only [children, List.forall_mem_singleton] using harray
  | .isVisibleFrom hb hr =>
    have hbase := hb.ty_eq (by simp)
    have hreferenced := hr.ty_eq (by simp)
    refine ⟨by simp [NodeTyped, calls, hbase, hreferenced], ?_⟩
    simpa [children] using ⟨hb.typed hs, hr.typed hs⟩
  | .envNode he hr =>
    refine ⟨⟨he.ty_eq (by simp), hr⟩, ?_⟩
    simpa [children] using he.typed hs

theorem ConstructsAll.typed {scope : Scope} {expected : Option Ty} {g g' : Gathered}
    {es : List Expr} {rs : List Resolved} (hc : ConstructsAll h scope expected g es rs g')
    (hs : scope.Inside p) : ∀ r ∈ rs, ∀ n ∈ r.nodes, n.NodeTyped h p.owner := by
  match hc with
  | .nil => simp
  | .cons he hes =>
    rw [List.forall_mem_cons]
    exact ⟨he.typed hs, hes.typed hs⟩

end

end Typed

section Declared

open Resolved

variable {h : Hierarchy} {p : Signature}

/-- All types that are written down in a typed expression are declared. -/
def Resolved.Declared (h : Hierarchy) (r : Resolved) : Prop :=
  ∀ n ∈ r.nodes, ∀ ty ∈ n.typesAt, h.undeclared? ty = none

structure Gathered.Declared (h : Hierarchy) (g : Gathered) : Prop where
  locals : ∀ l ∈ g.locals.toList, h.undeclared? l.ty = none
  arrayTypes : ∀ ty ∈ g.arrayTypes, h.undeclared? ty = none

namespace Gathered.Declared

theorem empty : Gathered.Declared h {} := ⟨by simp [Locals.toList], by simp⟩

theorem addLocal {g : Gathered} (hg : g.Declared h) (stem : String) {ty : Ty}
    (ht : h.undeclared? ty = none) : (g.addLocal stem ty).Declared h := by
  refine ⟨?_, hg.arrayTypes⟩
  simp only [Gathered.addLocal, Locals.create, Locals.toList, List.forall_mem_append,
    List.forall_mem_singleton]
  exact ⟨hg.locals, ht⟩

theorem recordArray {g : Gathered} (hg : g.Declared h) {ty : Ty}
    (ht : h.undeclared? ty = none) : (g.recordArray ty).Declared h := by
  unfold Gathered.recordArray
  split
  · exact hg
  · refine ⟨hg.locals, ?_⟩
    rw [List.forall_mem_append, List.forall_mem_singleton]
    exact ⟨hg.arrayTypes, ht⟩

theorem recordLookup {g : Gathered} (hg : g.Declared h) (unique : Bool) :
    (g.recordLookup unique).Declared h := by
  unfold Gathered.recordLookup
  split
  · exact hg
  · exact hg.recordArray rfl

end Gathered.Declared

theorem Resolved.declared_iff (r : Resolved) :
    r.Declared h ↔
      (∀ ty ∈ r.typesAt, h.undeclared? ty = none) ∧ ∀ c ∈ r.children, c.Declared h :=
  forall_nodes_iff r

theorem Resolved.Declared.ty {r : Resolved} (hr : r.Declared h) : h.undeclared? r.ty = none :=
  (r.declared_iff.mp hr).1 _ List.mem_cons_self

theorem lookupValueTy_declared (h : Hierarchy) (unique : Bool) :
    h.undeclared? (lookupValueTy unique) = none := by
  cases unique <;> rfl

theorem KeySymbol.declared {k k' : Resolved} (hs : KeySymbol k k') (hk : k.Declared h) :
    k'.Declared h := by
  cases hs with
  | symbol => exact hk
  | token =>
    refine (declared_iff _).mpr ⟨?_, by simpa [children] using hk⟩
    simp [typesAt, info, Resolved.ty]
    rfl

theorem Boundary.declared {scope : Scope} {sequential : Bool} {b : Option Resolved}
    (hb : Boundary h scope sequential b) (hs : scope.Inside p)
    (ho : (h.node? p.owner).isSome = true) : ∀ r ∈ b, r.Declared h := by
  cases hb with
  | none => simp
  | self hp =>
    cases hs.property.symm.trans hp
    intro r hb
    cases hb
    refine (declared_iff _).mpr ⟨?_, by simp [children]⟩
    simpa [typesAt, info, Resolved.ty] using h.undeclared_node_iff.mpr ho

mutual

theorem Constructs.declared {scope : Scope} {expected : Option Ty} {g g' : Gathered} {e : Expr}
    {r : Resolved} (hc : Constructs h scope expected g e r g') (hs : scope.Inside p)
    (ho : (h.node? p.owner).isSome = true) (ht : ∀ t ∈ expected, h.undeclared? t = none)
    (hg : g.Declared h) : r.Declared h ∧ g'.Declared h := by
  match hc with
  | .fits hn _ => exact hn.declared hs ho ht hg

theorem ConstructsNode.declared {scope : Scope} {expected : Option Ty} {g g' : Gathered}
    {e : Expr} {r : Resolved} (hc : ConstructsNode h scope expected g e r g')
    (hs : scope.Inside p) (ho : (h.node? p.owner).isSome = true)
    (ht : ∀ t ∈ expected, h.undeclared? t = none) (hg : g.Declared h) :
    r.Declared h ∧ g'.Declared h := by
  have hnone : ∀ t ∈ (none : Option Ty), h.undeclared? t = none := by simp
  have henv : ∀ t ∈ some Ty.lexicalEnv, h.undeclared? t = none := Hierarchy.expected_declared rfl
  have henvs : ∀ t ∈ some (Ty.array .lexicalEnv), h.undeclared? t = none :=
    Hierarchy.expected_declared rfl
  have hbool : ∀ t ∈ some Ty.bool, h.undeclared? t = none := Hierarchy.expected_declared rfl
  have hheld : ∀ ty ∈ [Ty.lexicalEnv, .lexicalEnv], h.undeclared? ty = none :=
    List.forall_mem_cons.mpr ⟨rfl, List.forall_mem_singleton.mpr rfl⟩
  rw [declared_iff]
  match hc with
  | .literal v =>
    refine ⟨⟨List.forall_mem_singleton.mpr ?_, by simp [children]⟩, hg⟩
    cases v <;> rfl
  | .self hp =>
    cases hs.property.symm.trans hp
    refine ⟨⟨?_, by simp [children]⟩, hg⟩
    simpa [typesAt, info, Resolved.ty] using h.undeclared_node_iff.mpr ho
  | .env _ => exact ⟨⟨List.forall_mem_singleton.mpr rfl, by simp [children]⟩, hg⟩
  | .emptyEnv => exact ⟨⟨List.forall_mem_singleton.mpr rfl, by simp [children]⟩, hg⟩
  | .field hr _ hf =>
    obtain ⟨hreceiver, hg⟩ := hr.declared hs ho hnone hg
    have hty := h.fieldType_declared hf
    exact ⟨⟨List.forall_mem_singleton.mpr hty, by simpa [children] using hreceiver⟩, hg⟩
  | .array hes helement =>
    -- Without elements the element type is the expected one; joined types are of the hierarchy.
    have hexpected := Hierarchy.element_declared ht
    obtain ⟨hrs, hg⟩ := hes.declared hs ho hexpected hg
    have hty := helement.declared hexpected fun r hr => (hrs r hr).ty
    exact ⟨⟨List.forall_mem_cons.mpr ⟨hty, List.forall_mem_singleton.mpr hty⟩, hrs⟩,
      hg.recordArray hty⟩
  | .lookup _ hk hsym he hb hrec hg₄ =>
    obtain ⟨hkey, hg⟩ := hk.declared hs ho hnone hg
    obtain ⟨henvironment, hg⟩ := he.declared hs ho henv hg
    have hboundary := hb.declared hs ho
    obtain ⟨hrecursive, hg⟩ := hrec.declared hs ho hbool hg
    have hty := lookupValueTy_declared h
    refine ⟨⟨List.forall_mem_cons.mpr ⟨hty _, List.forall_mem_singleton.mpr (hty _)⟩, ?_⟩, ?_⟩
    · simpa [children, or_imp, forall_and] using
        ⟨henvironment, hsym.declared hkey, hboundary, hrecursive⟩
    · rw [hg₄]
      exact (hg.recordLookup _).addLocal _ (hty _)
  | .evalInEnv (x := x) he hx hb =>
    have hxty : x.ty = .lexicalEnv := congrArg Local.ty hx
    obtain ⟨henvironment, hg⟩ := he.declared hs ho henv hg
    obtain ⟨hbody, hg⟩ := hb.declared (hx ▸ hs.bindName _) ho hnone (hg.addLocal _ rfl)
    refine ⟨⟨List.forall_mem_cons.mpr ⟨hbody.ty, List.forall_mem_singleton.mpr ?_⟩, ?_⟩, hg⟩
    · exact hxty ▸ rfl
    · simpa [children] using ⟨henvironment, hbody⟩
  | .orphan he =>
    obtain ⟨henvironment, hg⟩ := he.declared hs ho henv hg
    exact ⟨⟨hheld, by simpa [children] using henvironment⟩, hg.addLocal _ rfl⟩
  | .group he =>
    obtain ⟨henvironments, hg⟩ := he.declared hs ho henvs hg
    exact ⟨⟨hheld, by simpa [children] using henvironments⟩, hg.addLocal _ rfl⟩
  | .groupAll hes hg₂ =>
    obtain ⟨hrs, hg⟩ := hes.declared hs ho henv hg
    have harray : (array ⟨.array .lexicalEnv, none⟩ _ .lexicalEnv).Declared h :=
      (declared_iff _).mpr
        ⟨List.forall_mem_cons.mpr ⟨rfl, List.forall_mem_singleton.mpr rfl⟩, hrs⟩
    refine ⟨⟨hheld, by simpa only [children, List.forall_mem_singleton] using harray⟩, ?_⟩
    rw [hg₂]
    exact (hg.recordArray rfl).addLocal _ rfl
  | .isVisibleFrom hb hr =>
    obtain ⟨hbase, hg⟩ := hb.declared hs ho henv hg
    obtain ⟨hreferenced, hg⟩ := hr.declared hs ho henv hg
    refine ⟨⟨List.forall_mem_singleton.mpr rfl, ?_⟩, hg⟩
    simpa [children] using ⟨hbase, hreferenced⟩
  | .envNode he hr =>
    obtain ⟨henvironment, hg⟩ := he.declared hs ho henv hg
    have hroot := h.root_declared hr
    exact ⟨⟨List.forall_mem_singleton.mpr hroot, by simpa [children] using henvironment⟩, hg⟩

theorem ConstructsAll.declared {scope : Scope} {expected : Option Ty} {g g' : Gathered}
    {es : List Expr} {rs : List Resolved} (hc : ConstructsAll h scope expected g es rs g')
    (hs : scope.Inside p) (ho : (h.node? p.owner).isSome = true)
    (ht : ∀ t ∈ expected, h.undeclared? t = none) (hg : g.Declared h) :
    (∀ r ∈ rs, r.Declared h) ∧ g'.Declared h := by
  match hc with
  | .nil => exact ⟨by simp, hg⟩
  | .cons he hes =>
    obtain ⟨hr, hg⟩ := he.declared hs ho ht hg
    obtain ⟨hrs, hg⟩ := hes.declared hs ho ht hg
    exact ⟨List.forall_mem_cons.mpr ⟨hr, hrs⟩, hg⟩

end

end Declared

/-- Type soundness: when a property is accepted, every node of its body keeps the rule of its kind,
the body is of the declared type or of one below it, and all types in the outcome are declared. -/
theorem PropertyDecl.check_sound {h : Hierarchy} {p : PropertyDecl} {ir : Property}
    (hc : p.check h = .ok ir) :
    (∀ n ∈ ir.body.nodes, n.NodeTyped h ir.signature.owner) ∧
      (∀ ty ∈ p.ty, h.isSubtype ir.body.ty ty = true) ∧
      ∀ ty ∈ ir.types, h.undeclared? ty = none := by
  obtain ⟨howner, hty, r, g, hr, rfl⟩ := check_derives hc
  have hscope := Scope.inside_bindDefault p.signature
  obtain ⟨hbody, hg⟩ := hr.declared hscope howner hty .empty
  refine ⟨hr.typed hscope, hr.fit, ?_⟩
  simp only [Property.types, List.forall_mem_append, List.forall_mem_flatMap, List.forall_mem_map]
  exact ⟨⟨hbody, hg.locals⟩, hg.arrayTypes⟩

theorem Sample.property_sound :
    ∃ ir, property.check hierarchy = .ok ir ∧
      (∀ n ∈ ir.body.nodes, n.NodeTyped hierarchy ir.signature.owner) ∧
      (∀ ty ∈ property.ty, hierarchy.isSubtype ir.body.ty ty = true) ∧
      ∀ ty ∈ ir.types, hierarchy.undeclared? ty = none := by
  obtain ⟨ir, hok⟩ : ∃ ir, property.check hierarchy = .ok ir := ⟨_, rfl⟩
  exact ⟨ir, hok, PropertyDecl.check_sound hok⟩

end FrontEnd
