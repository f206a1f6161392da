import Mathlib.Data.List.Nodup
import Mathlib.Data.List.Perm.Basic
import FrontEnd.Proofs.CarriedLocals
import FrontEnd.Proofs.FunctionTexts
import FrontEnd.Proofs.Lowering

/-!
References to shared values in generated functions. A function is read as what its statements do to
variables, one effect for each. The function of an accepted property assigns each local once,
retains what it binds and what it returns, and releases each shared local once on either way out.
-/
namespace FrontEnd

inductive Effect where
  | assign (var : String)
  | retain (var : String)
  | release (var : String)
  | result (term : String)
  | returnResult
  | reraise
  deriving DecidableEq

/-- How a statement that does this is written. -/
inductive Effect.IsWritten : Effect → String → Prop
  | assign (x term : String) : IsWritten (.assign x) (x ++ " := " ++ term ++ ";")
  | retain (x : String) : IsWritten (.retain x) ("Inc_Ref (" ++ x ++ ");")
  | release (x : String) : IsWritten (.release x) ("Dec_Ref (" ++ x ++ ");")
  | result (term : String) : IsWritten (.result term) ("Property_Result := " ++ term ++ ";")
  | returnResult : IsWritten .returnResult "return Property_Result;"
  | reraise : IsWritten .reraise "raise;"

theorem Effect.nodup_map_names {f : String → Effect} (hf : Function.Injective f) {ls : List Local}
    (hls : (ls.map Local.name).Nodup) : (ls.map (f ·.name)).Nodup := by
  simpa [Function.comp_def] using hls.map hf

def resultName : String := "Property_Result"

def Statement.effect : Statement → Effect
  | assign x _ => .assign x
  | retain x => .retain x

def Closing.effect : Closing → Effect
  | setResult term => .result term
  | retainResult => .retain resultName
  | release x => .release x
  | returnResult => .returnResult
  | reraise => .reraise

theorem Statement.effect_isWritten (st : Statement) : st.effect.IsWritten st.text := by
  cases st with
  | assign x value => exact .assign x value.text
  | retain x => exact .retain x

theorem Closing.effect_isWritten (s : Closing) : s.effect.IsWritten s.text := by
  cases s with
  | setResult term => exact .result term
  | retainResult => exact .retain resultName
  | release x => exact .release x
  | returnResult => exact .returnResult
  | reraise => exact .reraise

theorem Closing.effects_areWritten (statements : List Closing) :
    List.Forall₂ Effect.IsWritten (statements.map effect) (statements.map text) := by
  rw [List.forall₂_map_left_iff, List.forall₂_map_right_iff, List.forall₂_same]
  exact fun s _ => s.effect_isWritten

namespace Resolved

def boundLocals (r : Resolved) : List Local := r.nodes.flatMap (·.bound?.toList)

def effects (r : Resolved) : List Effect := r.statements.map Statement.effect

theorem mem_boundLocals_iff {r : Resolved} {l : Local} :
    l ∈ r.boundLocals ↔ ∃ n ∈ r.nodes, n.bound? = some l := by
  simp [boundLocals]

theorem boundLocals_eq (r : Resolved) :
    r.boundLocals = r.bound?.toList ++ r.children.flatMap boundLocals :=
  flatMap_nodes (·.bound?.toList) r

theorem boundLocals_results_perm (r : Resolved) :
    (r.boundLocals ++ r.nodes.flatMap (·.info.result.toList)).Perm r.locals :=
  List.flatMap_append_perm r.nodes _ _

theorem statementsAll_eq_flatMap (rs : List Resolved) :
    statementsAll rs = rs.flatMap statements := by
  induction rs with
  | nil => rfl
  | cons r rs ih => rw [statementsAll, ih, List.flatMap_cons]

theorem store_effects (info : NodeInfo) (value : Term) :
    (store info value).map Statement.effect = info.result.toList.map (.assign ·.name) := by
  unfold store
  cases info.result <;> rfl

theorem effects_of_unbound {r : Resolved} (hb : r.bound? = none) :
    r.effects = r.children.flatMap effects ++ r.info.result.toList.map (.assign ·.name) := by
  unfold effects
  rw [statements_eq hb, List.map_append, store_effects, statementsAll_eq_flatMap,
    List.map_flatMap]

theorem effects_bind (i : NodeInfo) (e body : Resolved) (x : Local) :
    (bind i e x body).effects = e.effects ++ [.assign x.name, .retain x.name] ++ body.effects ++
      i.result.toList.map (.assign ·.name) := by
  simp [effects, statements, store_effects, Statement.effect]

theorem effects_infix_of_child {r c : Resolved} (hc : c ∈ r.children) :
    c.effects <:+: r.effects := by
  cases hb : r.bound? with
  | none =>
    obtain ⟨before, after, hsplit⟩ := List.append_of_mem hc
    rw [effects_of_unbound hb, hsplit, List.flatMap_append, List.flatMap_cons]
    refine ⟨before.flatMap effects,
      after.flatMap effects ++ r.info.result.toList.map (.assign ·.name), ?_⟩
    simp only [List.append_assoc]
  | some x =>
    obtain ⟨i, e, body, rfl⟩ := eq_bind_of_bound hb
    rw [effects_bind]
    rcases mem_children_bind.mp hc with rfl | rfl
    · rw [List.append_assoc, List.append_assoc]
      exact (List.prefix_append _ _).isInfix
    · exact ⟨_, _, rfl⟩

theorem retained_behind_assignment {r n : Resolved} (hn : n ∈ r.nodes) {x : Local}
    (hx : n.bound? = some x) : [.assign x.name, .retain x.name] <:+: r.effects := by
  induction r using children_induction with
  | step r ih =>
    rw [nodes_eq, List.mem_cons, List.mem_flatMap] at hn
    rcases hn with rfl | ⟨c, hc, hn⟩
    · obtain ⟨i, e, body, rfl⟩ := eq_bind_of_bound hx
      rw [effects_bind, List.append_assoc]
      exact ⟨e.effects, _, rfl⟩
    · exact (ih c hc hn).trans (effects_infix_of_child hc)

/-- A node adds to the effects of its parts the assignments of the locals that it carries, and the
retaining of the one that it binds. -/
theorem effects_perm_own (r : Resolved) :
    r.effects.Perm (r.children.flatMap effects ++ r.ownLocals.map (.assign ·.name) ++
      r.bound?.toList.map (.retain ·.name)) := by
  cases hb : r.bound? with
  | none => simp [effects_of_unbound hb, ownLocals, hb]
  | some x =>
    obtain ⟨i, e, body, rfl⟩ := eq_bind_of_bound hb
    rw [effects_bind, List.perm_iff_count]
    intro effect
    simp only [children, ownLocals, info, hb, List.flatMap_cons, List.flatMap_nil,
      Option.toList_some, List.map_append, List.map_cons, List.map_nil, List.count_append,
      List.count_cons, List.count_nil]
    omega

theorem effects_perm (r : Resolved) :
    r.effects.Perm (r.locals.map (.assign ·.name) ++ r.boundLocals.map (.retain ·.name)) := by
  induction r using children_induction with
  | step r ih =>
    have hparts : (r.children.flatMap effects).Perm
        ((r.children.flatMap locals).map (.assign ·.name) ++
          (r.children.flatMap boundLocals).map (.retain ·.name)) := by
      rw [List.map_flatMap, List.map_flatMap]
      exact (List.Perm.flatMap_left _ ih).trans (List.flatMap_append_perm r.children _ _).symm
    rw [List.perm_iff_count]
    intro effect
    have hown := r.effects_perm_own.count_eq effect
    have hinside := hparts.count_eq effect
    simp only [List.count_append] at hown hinside
    simp only [locals_eq r, boundLocals_eq r, List.map_append, List.count_append]
    omega

theorem assign_mem_effects_iff {r : Resolved} {x : String} :
    .assign x ∈ r.effects ↔ ∃ l ∈ r.locals, l.name = x := by
  simp [r.effects_perm.mem_iff]

theorem retain_mem_effects_iff {r : Resolved} {x : String} :
    .retain x ∈ r.effects ↔ ∃ l ∈ r.boundLocals, l.name = x := by
  simp [r.effects_perm.mem_iff]

theorem release_notMem_effects (r : Resolved) (x : String) : .release x ∉ r.effects := by
  simp [r.effects_perm.mem_iff]

theorem effects_nodup {r : Resolved} (hr : (r.locals.map Local.name).Nodup) : r.effects.Nodup := by
  have hbound : (r.boundLocals.map Local.name).Nodup := by
    have hnames := (r.boundLocals_results_perm.map Local.name).nodup_iff.mpr hr
    rw [List.map_append] at hnames
    exact (List.nodup_append.mp hnames).1
  rw [r.effects_perm.nodup_iff, List.nodup_append]
  refine ⟨Effect.nodup_map_names (fun _ _ h => ?_) hr, Effect.nodup_map_names (fun _ _ h => ?_) hbound,
    by simp⟩
  · exact Effect.assign.inj h
  · exact Effect.retain.inj h

end Resolved

namespace Property

def closing (p : Property) : List Effect := p.function.closing.map Closing.effect

def normalPath (p : Property) : List Effect := p.body.effects ++ p.closing

def handlerPath? (p : Property) : Option (List Effect) :=
  p.function.handler.map (·.map Closing.effect)

def releases (p : Property) : List Effect :=
  (p.locals.filter (·.ty.isRefCounted)).map (.release ·.name)

/-- The lines are those of a handler that goes this way; there are none without a handler. -/
inductive HandlerLines : Option (List Effect) → List String → Prop
  | none : HandlerLines none []
  | some {path statements} (h : List.Forall₂ Effect.IsWritten path statements) :
    HandlerLines (some path)
      (["exception", "   when Property_Error =>"] ++ statements.map ("      " ++ ·))

/-- The text of the property's function has the statements of its body, joined and cut into lines,
then those of the way to the caller and those of the handler. -/
def Follows (p : Property) : Prop :=
  ∃ statements shown closing handler,
    List.Forall₂ Effect.IsWritten p.body.effects statements ∧
    IsCut ("\n".intercalate statements) shown ∧
    List.Forall₂ Effect.IsWritten p.closing closing ∧
    HandlerLines p.handlerPath? handler ∧
    p.function.text = String.join ((p.function.headLines ++ (shown ++ closing).map ("   " ++ ·) ++
      handler ++ ["end " ++ p.function.functionName ++ ";"]).map (· ++ "\n"))

/-- The function of the property keeps count of the references to shared values. -/
structure KeepsCount (p : Property) : Prop where
  /-- The function is written with these statements, on either way out. -/
  follows : p.Follows
  /-- The statements of the body assign each local once. -/
  assigned_once : ∀ l ∈ p.locals, p.body.effects.count (.assign l.name) = 1
  /-- A bound local is retained once, right behind its assignment. -/
  bound_retained : ∀ n ∈ p.body.nodes, ∀ l ∈ n.bound?,
    p.normalPath.count (.retain l.name) = 1 ∧
      [.assign l.name, .retain l.name] <:+: p.body.effects
  /-- No other local is retained. -/
  retained_bound : ∀ l ∈ p.locals, .retain l.name ∈ p.normalPath →
    ∃ n ∈ p.body.nodes, n.bound? = some l
  /-- Behind the statements of the body the result is assigned, retained if it is shared, and, when
  the shared locals and no others are released, returned. -/
  result_behind : p.normalPath = p.body.effects ++ .result p.body.termText ::
    (if p.body.ty.isRefCounted then [.retain resultName] else []) ++ p.releases ++ [.returnResult]
  /-- The body has nothing to do with the result, and releases nothing. -/
  body_apart : .assign resultName ∉ p.body.effects ∧ .retain resultName ∉ p.body.effects ∧
    ∀ x, .release x ∉ p.body.effects
  /-- The result is retained if it is shared, once. -/
  result_retained :
    p.normalPath.count (.retain resultName) = if p.body.ty.isRefCounted then 1 else 0
  /-- A local is released if it is shared, once. -/
  released_once : ∀ l ∈ p.locals,
    p.normalPath.count (.release l.name) = if l.ty.isRefCounted then 1 else 0
  /-- There is a handler if there is a shared local. -/
  handler_iff : p.handlerPath?.isSome = true ↔ ∃ l ∈ p.locals, l.ty.isRefCounted = true
  /-- The handler releases the shared locals and no others, each of them once, and passes the
  exception on. -/
  handler_released_once : ∀ path ∈ p.handlerPath?,
    path = p.releases ++ [.reraise] ∧
      ∀ l ∈ p.locals, path.count (.release l.name) = if l.ty.isRefCounted then 1 else 0

/-- What is released is what the types of the locals say. -/
def Stored (p : Property) : Prop := ∀ l ∈ p.locals, l.isRefCounted = l.ty.isRefCounted

theorem text_follows (p : Property) : p.Follows := by
  obtain ⟨shown, hcut, htext⟩ := p.function.text_isWritten
  refine ⟨p.body.statements.map Statement.text, shown, p.function.closingLines,
    p.function.handlerLines, ?_, hcut, ?_, ?_, htext⟩
  · rw [Resolved.effects, List.forall₂_map_left_iff, List.forall₂_map_right_iff, List.forall₂_same]
    exact fun st _ => st.effect_isWritten
  · rw [← p.function.closingLines_eq]
    exact Closing.effects_areWritten _
  · rw [handlerPath?]
    cases hhandler : p.function.handler with
    | none =>
      rw [FunctionContext.handlerLines_of_none hhandler]
      exact .none
    | some statements =>
      rw [FunctionContext.handlerLines_of_some hhandler]
      exact .some (Closing.effects_areWritten statements)

variable {p : Property}

theorem Stored.releases_effects (hp : p.Stored) :
    p.function.releases.map Closing.effect = p.releases := by
  have hfilter : p.locals.filter Local.isRefCounted = p.locals.filter (·.ty.isRefCounted) :=
    List.filter_congr hp
  rw [releases, ← hfilter]
  simp [FunctionContext.releases, function, List.filter_map, Function.comp_def, Local.decl,
    Closing.effect]

theorem Stored.normalPath_eq (hp : p.Stored) :
    p.normalPath = p.body.effects ++ .result p.body.termText ::
      (if p.body.ty.isRefCounted then [.retain resultName] else []) ++ p.releases ++
        [.returnResult] := by
  rw [normalPath, closing, FunctionContext.closing, ← hp.releases_effects]
  change _ ++ List.map _ (_ :: (if p.body.ty.isRefCounted then _ else _) ++ _ ++ _) = _
  split <;> simp [Closing.effect, function]

theorem Stored.handlerPath_eq (hp : p.Stored) :
    p.handlerPath? =
      if p.locals.any (·.ty.isRefCounted) then some (p.releases ++ [.reraise]) else none := by
  have hany : p.function.vars.any (·.isRefCounted) = p.locals.any (·.ty.isRefCounted) := by
    rw [function, List.any_map, Bool.eq_iff_iff, List.any_eq_true, List.any_eq_true]
    refine exists_congr fun l => and_congr_right fun hl => ?_
    rw [← hp l hl]
    rfl
  rw [handlerPath?, FunctionContext.handler, hany, ← hp.releases_effects]
  split <;> simp [Closing.effect]

theorem Stored.count_retain (hp : p.Stored) (x : String) :
    p.normalPath.count (.retain x) = p.body.effects.count (.retain x) +
      if resultName = x ∧ p.body.ty.isRefCounted = true then 1 else 0 := by
  have hreleases : p.releases.count (.retain x) = 0 := by
    rw [List.count_eq_zero]
    simp [releases]
  rw [hp.normalPath_eq]
  by_cases hty : p.body.ty.isRefCounted = true
  · simp [hty, hreleases, List.count_cons]
  · simp [hty, hreleases]

theorem Stored.count_release (hp : p.Stored) (x : String) :
    p.normalPath.count (.release x) = p.releases.count (.release x) := by
  have hbody : p.body.effects.count (.release x) = 0 :=
    List.count_eq_zero.mpr (p.body.release_notMem_effects x)
  rw [hp.normalPath_eq]
  by_cases hty : p.body.ty.isRefCounted = true
  · simp [hty, hbody]
  · simp [hty, hbody]

theorem count_releases (hp : (p.locals.map Local.name).Nodup) {l : Local} (hl : l ∈ p.locals) :
    p.releases.count (.release l.name) = if l.ty.isRefCounted then 1 else 0 := by
  -- Shared locals are released once each, as their names are distinct.
  have hnames : ((p.locals.filter (·.ty.isRefCounted)).map Local.name).Nodup :=
    hp.sublist (List.filter_sublist.map Local.name)
  have hnodup : p.releases.Nodup :=
    Effect.nodup_map_names (fun _ _ h => Effect.release.inj h) hnames
  have hmem : .release l.name ∈ p.releases ↔ l.ty.isRefCounted = true := by
    rw [releases, List.mem_map]
    constructor
    · intro hx
      obtain ⟨l', hl', heq⟩ := hx
      obtain ⟨hmem, hshared⟩ := List.mem_filter.mp hl'
      rw [← List.inj_on_of_nodup_map hp hmem hl (Effect.release.inj heq)]
      exact hshared
    · intro hshared
      exact ⟨l, List.mem_filter.mpr ⟨hl, hshared⟩, rfl⟩
  simp only [hnodup.count, hmem]

theorem keepsCount_of_locals (hperm : p.locals.Perm p.body.locals)
    (hnames : (p.locals.map Local.name).Nodup) (hresult : ∀ l ∈ p.locals, l.name ≠ resultName)
    (hstored : p.Stored) : p.KeepsCount := by
  have hbody : p.body.effects.Nodup :=
    Resolved.effects_nodup ((hperm.map Local.name).nodup_iff.mp hnames)
  have hbound : ∀ l ∈ p.body.boundLocals, l ∈ p.locals := fun l hl =>
    hperm.mem_iff.mpr (p.body.boundLocals_results_perm.mem_iff.mp (List.mem_append_left _ hl))
  have hassign : .assign resultName ∉ p.body.effects := by
    intro hx
    obtain ⟨l, hl, heq⟩ := Resolved.assign_mem_effects_iff.mp hx
    exact hresult l (hperm.mem_iff.mpr hl) heq
  have hretain : .retain resultName ∉ p.body.effects := by
    intro hx
    obtain ⟨l, hl, heq⟩ := Resolved.retain_mem_effects_iff.mp hx
    exact hresult l (hbound l hl) heq
  -- Outside the body only the result is retained, so locals are retained where the body does so.
  have hretained : ∀ l ∈ p.locals,
      p.normalPath.count (.retain l.name) = p.body.effects.count (.retain l.name) := by
    intro l hl
    simp [hstored.count_retain, (hresult l hl).symm]
  constructor
  case follows => exact p.text_follows
  case assigned_once =>
    intro l hl
    have hmem := Resolved.assign_mem_effects_iff.mpr ⟨l, hperm.mem_iff.mp hl, rfl⟩
    exact List.count_eq_one_of_mem hbody hmem
  case bound_retained =>
    intro n hn l hl
    have hmem : l ∈ p.body.boundLocals := Resolved.mem_boundLocals_iff.mpr ⟨n, hn, hl⟩
    have hone := Resolved.retain_mem_effects_iff.mpr ⟨l, hmem, rfl⟩
    refine ⟨?_, Resolved.retained_behind_assignment hn hl⟩
    rw [hretained l (hbound l hmem)]
    exact List.count_eq_one_of_mem hbody hone
  case retained_bound =>
    intro l hl hx
    rw [← List.count_pos_iff, hretained l hl, List.count_pos_iff] at hx
    obtain ⟨l', hl', heq⟩ := Resolved.retain_mem_effects_iff.mp hx
    rw [List.inj_on_of_nodup_map hnames (hbound l' hl') hl heq] at hl'
    exact Resolved.mem_boundLocals_iff.mp hl'
  case result_behind => exact hstored.normalPath_eq
  case body_apart => exact ⟨hassign, hretain, p.body.release_notMem_effects⟩
  case result_retained =>
    simp [hstored.count_retain, List.count_eq_zero.mpr hretain]
  case released_once =>
    intro l hl
    rw [hstored.count_release, count_releases hnames hl]
  case handler_iff =>
    rw [hstored.handlerPath_eq, ← List.any_eq_true]
    split <;> simp_all
  case handler_released_once =>
    intro path hpath
    rw [hstored.handlerPath_eq] at hpath
    split at hpath
    · cases hpath
      refine ⟨rfl, fun l hl => ?_⟩
      rw [List.count_append, count_releases hnames hl]
      rfl
    · cases hpath

end Property

/-- The function of an accepted property keeps count of the references to shared values: what it
binds and returns it retains, and what it has stored it releases, whether it fails or not. -/
theorem PropertyDecl.check_keeps_count {h : Hierarchy} {p : PropertyDecl} {ir : Property}
    (hc : p.check h = .ok ir) : ir.KeepsCount := by
  obtain ⟨-, -, r, g, hr, rfl⟩ := check_derives hc
  have hmakes := hr.makes
  have hnumbered : g.locals.Numbered := hmakes.numbered Locals.numbered_empty
  refine Property.keepsCount_of_locals ?_ hnumbered.distinct ?_ ?_
  · simpa [Locals.toList] using hmakes.locals
  · exact hnumbered.name_ne rfl
  · exact fun l hl => congrArg Storage.isRefCounted (hnumbered.stored l hl)

example : (Sample.property.check Sample.hierarchy).toOption.map Property.normalPath =
    some [.assign "Orphan_Env_0", .assign "New_Env_0", .retain "New_Env_0",
      .assign "Env_Get_Result_0", .result "Env_Get_Result_0", .release "Orphan_Env_0",
      .release "New_Env_0", .returnResult] := by rfl

theorem Sample.property_keeps_count :
    ∃ ir, property.check hierarchy = .ok ir ∧ ir.KeepsCount := by
  obtain ⟨ir, hok⟩ : ∃ ir, property.check hierarchy = .ok ir := ⟨_, rfl⟩
  exact ⟨ir, hok, PropertyDecl.check_keeps_count hok⟩

end FrontEnd
