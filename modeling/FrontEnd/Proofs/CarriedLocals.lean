import FrontEnd.Proofs.LocalNames
import FrontEnd.Proofs.TypedNodes
import FrontEnd.Proofs.TypingDerivations

namespace FrontEnd

namespace Resolved

def locals (r : Resolved) : List Local := r.nodes.flatMap ownLocals

theorem locals_eq (r : Resolved) : r.locals = r.ownLocals ++ r.children.flatMap locals :=
  flatMap_nodes ownLocals r

/-- What the node carries has the type of what it holds: the bound local that of an environment, the
other one that of the node itself. -/
structure CarriesTyped (r : Resolved) : Prop where
  bound : ∀ l ∈ r.bound?, l.ty = .lexicalEnv
  result : ∀ l ∈ r.info.result, l.ty = r.ty

theorem CarriesTyped.of_none {r : Resolved} (hb : r.bound? = none) (hr : r.info.result = none) :
    r.CarriesTyped :=
  ⟨by simp [hb], by simp [hr]⟩

theorem CarriesTyped.of_result {r : Resolved} {l : Local} (hb : r.bound? = none)
    (hr : r.info.result = some l) (hl : l.ty = r.ty) : r.CarriesTyped :=
  ⟨by simp [hb], by simpa [hr] using hl⟩

theorem CarriesTyped.of_bound {r : Resolved} {l : Local} (hb : r.bound? = some l)
    (hl : l.ty = .lexicalEnv) (hr : r.info.result = none) : r.CarriesTyped :=
  ⟨by simpa [hb] using hl, by simp [hr]⟩

end Resolved

/-- From `g` to `g'` the locals `ls` are made, in any order, and numbered apart from the others. -/
structure Gathered.Makes (g g' : Gathered) (ls : List Local) : Prop where
  locals : g'.locals.toList.Perm (g.locals.toList ++ ls)
  numbered : g.locals.Numbered → g'.locals.Numbered

namespace Gathered.Makes

variable {g g₁ g₂ : Gathered} {ls ms : List Local}

theorem refl (g : Gathered) : g.Makes g [] := ⟨by simp, id⟩

theorem trans (h₁ : g.Makes g₁ ls) (h₂ : g₁.Makes g₂ ms) : g.Makes g₂ (ls ++ ms) where
  locals := by
    have hall := h₂.locals.trans (h₁.locals.append_right ms)
    rwa [List.append_assoc] at hall
  numbered := h₂.numbered ∘ h₁.numbered

theorem perm (h : g.Makes g₁ ls) (hp : ls.Perm ms) : g.Makes g₁ ms :=
  ⟨h.locals.trans (hp.append_left _), h.numbered⟩

theorem addLocal (h : g.Makes g₁ ls) (stem : String) (ty : Ty) :
    g.Makes (g₁.addLocal stem ty) (g₁.locals.next stem ty :: ls) where
  locals := by
    have hnew : (g₁.addLocal stem ty).locals.toList =
        g₁.locals.toList ++ [g₁.locals.next stem ty] := g₁.locals.toList_create stem ty
    rw [hnew]
    refine (h.locals.append_right _).trans ?_
    rw [List.append_assoc]
    exact (List.perm_append_singleton _ ls).append_left _
  numbered hg := (h.numbered hg).create stem ty

theorem recordArray (h : g.Makes g₁ ls) (ty : Ty) : g.Makes (g₁.recordArray ty) ls := by
  have hlocals : (g₁.recordArray ty).locals = g₁.locals := by
    unfold Gathered.recordArray
    split <;> rfl
  constructor
  · rw [hlocals]
    exact h.locals
  · rw [hlocals]
    exact h.numbered

theorem recordLookup (h : g.Makes g₁ ls) (unique : Bool) :
    g.Makes (g₁.recordLookup unique) ls := by
  unfold Gathered.recordLookup
  split
  · exact h
  · exact h.recordArray _

end Gathered.Makes

section

open Resolved

variable {h : Hierarchy}

theorem KeySymbol.locals_eq {k k' : Resolved} (hs : KeySymbol k k') : k'.locals = k.locals := by
  cases hs with
  | symbol => rfl
  | token => simp [Resolved.locals_eq (getSymbol _ k), ownLocals, bound?, info, children]

theorem Boundary.locals_eq {scope : Scope} {sequential : Bool} {b : Option Resolved}
    (hb : Boundary h scope sequential b) : b.toList.flatMap Resolved.locals = [] := by
  cases hb with
  | none => rfl
  | self => rfl

mutual

theorem Constructs.makes {scope : Scope} {expected : Option Ty} {g g' : Gathered} {e : Expr}
    {r : Resolved} (hc : Constructs h scope expected g e r g') : g.Makes g' r.locals := by
  match hc with
  | .fits hn _ => exact hn.makes

theorem ConstructsNode.makes {scope : Scope} {expected : Option Ty} {g g' : Gathered} {e : Expr}
    {r : Resolved} (hc : ConstructsNode h scope expected g e r g') : g.Makes g' r.locals := by
  rw [Resolved.locals_eq]
  match hc with
  | .literal _ => exact .refl g
  | .self _ => exact .refl g
  | .env _ => exact .refl g
  | .emptyEnv => exact .refl g
  | .field hr _ _ => simpa [ownLocals, bound?, info, children] using hr.makes
  | .array hes _ => simpa [ownLocals, bound?, info, children] using hes.makes.recordArray _
  | .lookup _ hk hsym he hb hrec hg =>
    -- The key is typed before the environment that it stands behind.
    have hoperands := (hk.makes.trans he.makes).perm List.perm_append_comm
    have hparts := hg ▸ (hoperands.trans hrec.makes).recordLookup _
    simpa [ownLocals, bound?, info, children, List.flatMap_append, hb.locals_eq, hsym.locals_eq]
      using hparts.addLocal "Env_Get_Result" (lookupValueTy _)
  | .evalInEnv he hx hb =>
    have henv := he.makes.addLocal "New_Env" .lexicalEnv
    rw [← hx] at henv
    simpa [ownLocals, bound?, info, children] using henv.trans hb.makes
  | .orphan he =>
    simpa [ownLocals, bound?, info, children] using he.makes.addLocal "Orphan_Env" .lexicalEnv
  | .group he =>
    simpa [ownLocals, bound?, info, children] using he.makes.addLocal "Group_Env" .lexicalEnv
  | .groupAll hes hg =>
    have henvs := hes.makes.recordArray (.array .lexicalEnv)
    rw [← hg] at henvs
    simpa [ownLocals, bound?, info, children, Resolved.locals_eq (array _ _ _)] using
      henvs.addLocal "Group_Env" .lexicalEnv
  | .isVisibleFrom hb hr =>
    simpa [ownLocals, bound?, info, children] using hb.makes.trans hr.makes
  | .envNode he _ =>
    simpa [ownLocals, bound?, info, children] using he.makes

theorem ConstructsAll.makes {scope : Scope} {expected : Option Ty} {g g' : Gathered}
    {es : List Expr} {rs : List Resolved} (hc : ConstructsAll h scope expected g es rs g') :
    g.Makes g' (rs.flatMap Resolved.locals) := by
  match hc with
  | .nil => exact .refl g
  | .cons he hes => exact he.makes.trans hes.makes

end

theorem KeySymbol.carries_typed {k k' : Resolved} (hs : KeySymbol k k')
    (hk : ∀ n ∈ k.nodes, n.CarriesTyped) : ∀ n ∈ k'.nodes, n.CarriesTyped := by
  cases hs with
  | symbol => exact hk
  | token => exact (forall_nodes_iff _).mpr ⟨.of_none rfl rfl, by simpa [children] using hk⟩

theorem Boundary.carries_typed {scope : Scope} {sequential : Bool} {b : Option Resolved}
    (hb : Boundary h scope sequential b) : ∀ r ∈ b, ∀ n ∈ r.nodes, n.CarriesTyped := by
  cases hb with
  | none => simp
  | self =>
    intro r hr
    cases hr
    exact (forall_nodes_iff _).mpr ⟨.of_none rfl rfl, by simp [children]⟩

mutual

theorem Constructs.carries_typed {scope : Scope} {expected : Option Ty} {g g' : Gathered}
    {e : Expr} {r : Resolved} (hc : Constructs h scope expected g e r g') :
    ∀ n ∈ r.nodes, n.CarriesTyped := by
  match hc with
  | .fits hn _ => exact hn.carries_typed

theorem ConstructsNode.carries_typed {scope : Scope} {expected : Option Ty} {g g' : Gathered}
    {e : Expr} {r : Resolved} (hc : ConstructsNode h scope expected g e r g') :
    ∀ n ∈ r.nodes, n.CarriesTyped := by
  rw [forall_nodes_iff]
  -- A node carries a local only for a result or for a body; its parts carry theirs by recursion.
  match hc with
  | .literal _ => exact ⟨.of_none rfl rfl, by simp [children]⟩
  | .self _ => exact ⟨.of_none rfl rfl, by simp [children]⟩
  | .env _ => exact ⟨.of_none rfl rfl, by simp [children]⟩
  | .emptyEnv => exact ⟨.of_none rfl rfl, by simp [children]⟩
  | .field hr _ _ => exact ⟨.of_none rfl rfl, by simpa [children] using hr.carries_typed⟩
  | .array hes _ => exact ⟨.of_none rfl rfl, hes.carries_typed⟩
  | .lookup _ hk hsym he hb hrec _ =>
    refine ⟨.of_result rfl rfl rfl, ?_⟩
    simpa [children, or_imp, forall_and] using
      ⟨he.carries_typed, hsym.carries_typed hk.carries_typed, hb.carries_typed, hrec.carries_typed⟩
  | .evalInEnv he hx hb =>
    refine ⟨.of_bound rfl (congrArg Local.ty hx) rfl, ?_⟩
    simpa [children] using ⟨he.carries_typed, hb.carries_typed⟩
  | .orphan he => exact ⟨.of_result rfl rfl rfl, by simpa [children] using he.carries_typed⟩
  | .group he => exact ⟨.of_result rfl rfl rfl, by simpa [children] using he.carries_typed⟩
  | .groupAll hes _ =>
    have harray : ∀ n ∈ (array ⟨.array .lexicalEnv, none⟩ _ .lexicalEnv).nodes, n.CarriesTyped :=
      (forall_nodes_iff _).mpr ⟨.of_none rfl rfl, hes.carries_typed⟩
    exact ⟨.of_result rfl rfl rfl, by simpa only [children, List.forall_mem_singleton] using harray⟩
  | .isVisibleFrom hb hr =>
    exact ⟨.of_none rfl rfl, by simpa [children] using ⟨hb.carries_typed, hr.carries_typed⟩⟩
  | .envNode he _ => exact ⟨.of_none rfl rfl, by simpa [children] using he.carries_typed⟩

theorem ConstructsAll.carries_typed {scope : Scope} {expected : Option Ty} {g g' : Gathered}
    {es : List Expr} {rs : List Resolved} (hc : ConstructsAll h scope expected g es rs g') :
    ∀ r ∈ rs, ∀ n ∈ r.nodes, n.CarriesTyped := by
  match hc with
  | .nil => simp
  | .cons he hes =>
    rw [List.forall_mem_cons]
    exact ⟨he.carries_typed, hes.carries_typed⟩

end

end

/-- The locals of an accepted property are those that the nodes of its body carry, each of them
once. Their names are distinct, and no constant or parameter of generated code is named like one;
their types are those of what they hold, and say which of them are released. -/
theorem PropertyDecl.check_locals {h : Hierarchy} {p : PropertyDecl} {ir : Property}
    (hc : p.check h = .ok ir) :
    ir.locals.Perm ir.body.locals ∧ (ir.locals.map Local.name).Nodup ∧
      (∀ l ∈ ir.locals, l.name ≠ "Self" ∧ l.name ≠ Scope.parameterName ∧
        l.name ≠ Scope.emptyEnvName) ∧
      (∀ n ∈ ir.body.nodes, n.CarriesTyped) ∧
      ∀ l ∈ ir.locals, l.isRefCounted = l.ty.isRefCounted := by
  obtain ⟨-, -, r, g, hr, rfl⟩ := check_derives hc
  have hmakes := hr.makes
  have hnumbered : g.locals.Numbered := hmakes.numbered Locals.numbered_empty
  refine ⟨by simpa [Locals.toList] using hmakes.locals, hnumbered.distinct, ?_, hr.carries_typed,
    fun l hl => congrArg Storage.isRefCounted (hnumbered.stored l hl)⟩
  intro l hl
  exact ⟨hnumbered.name_ne rfl l hl, hnumbered.name_ne rfl l hl, hnumbered.name_ne rfl l hl⟩

theorem Sample.property_locals :
    ∃ ir, property.check hierarchy = .ok ir ∧
      ir.locals.Perm ir.body.locals ∧ (ir.locals.map Local.name).Nodup ∧
      (∀ l ∈ ir.locals, l.name ≠ "Self" ∧ l.name ≠ Scope.parameterName ∧
        l.name ≠ Scope.emptyEnvName) ∧
      (∀ n ∈ ir.body.nodes, n.CarriesTyped) ∧
      ∀ l ∈ ir.locals, l.isRefCounted = l.ty.isRefCounted := by
  obtain ⟨ir, hok⟩ : ∃ ir, property.check hierarchy = .ok ir := ⟨_, rfl⟩
  exact ⟨ir, hok, PropertyDecl.check_locals hok⟩

end FrontEnd
