import Mathlib.Data.List.Infix
import FrontEnd.Property.Session

namespace FrontEnd

/-- From `s` to `t` nothing changes but what is gathered, which only grows. -/
structure Session.Keeps (s t : Session) : Prop where
  scope : t.scope = s.scope
  outer : t.outer = s.outer
  depth : t.depth = s.depth
  locals : s.gathered.locals.toList <+: t.gathered.locals.toList
  arrayTypes : s.gathered.arrayTypes <+: t.gathered.arrayTypes

namespace Session.Keeps

theorem refl (s : Session) : s.Keeps s :=
  ⟨rfl, rfl, rfl, List.prefix_refl _, List.prefix_refl _⟩

theorem trans {s t u : Session} (hst : s.Keeps t) (htu : t.Keeps u) : s.Keeps u where
  scope := htu.scope.trans hst.scope
  outer := htu.outer.trans hst.outer
  depth := htu.depth.trans hst.depth
  locals := hst.locals.trans htu.locals
  arrayTypes := hst.arrayTypes.trans htu.arrayTypes

theorem leave {s t : Session} {opening : Opening} (ht : (s.enter opening).Keeps t) :
    s.Keeps t.leave := by
  -- A scope that is closed gives back the one it was opened in, because whatever was done
  -- inside has closed what it opened.
  have ho : t.outer = s.scope :: s.outer := ht.outer
  unfold Session.leave
  rw [ho]
  exact ⟨rfl, rfl, ht.depth, ht.locals, ht.arrayTypes⟩

end Session.Keeps

namespace Construction

variable {α β : Type}

theorem run_bind (m : Construction α) (f : α → Construction β) (s : Session) :
    (m >>= f).run s =
      match m.run s with
      | (.ok a, t) => (f a).run t
      | (.error fault, t) => (.error fault, t) := by
  rw [ExceptT.run_bind, Bind.bind]
  rcases h : m.run s with ⟨_ | _, _⟩ <;>
    simp only [StateT.instMonad, Monad.toBind, StateT.bind, h] <;> rfl

/-- The step keeps the session as it was but for what it gathers. -/
def Tidy (m : Construction α) : Prop := ∀ s : Session, s.Keeps (m.run s).2

namespace Tidy

theorem pure (a : α) : Tidy (Pure.pure a) := Session.Keeps.refl

theorem throw (fault : TypingFault) : Tidy (MonadExcept.throw fault : Construction α) :=
  Session.Keeps.refl

theorem get : Tidy (MonadState.get : Construction Session) := Session.Keeps.refl

theorem bind {m : Construction α} {f : α → Construction β} (hm : Tidy m)
    (hf : ∀ a, Tidy (f a)) : Tidy (m >>= f) := by
  intro s
  have hs := hm s
  rw [run_bind]
  rcases h : m.run s with ⟨fault | a, t⟩ <;> rw [h] at hs
  · exact hs
  · exact hs.trans (hf a t)

theorem map {m : Construction α} (f : α → β) (hm : Tidy m) : Tidy (f <$> m) := by
  rw [map_eq_pure_bind]
  exact hm.bind fun a => pure (f a)

theorem ite (p : Prop) [Decidable p] {m n : Construction α} (hm : Tidy m) (hn : Tidy n) :
    Tidy (if p then m else n) := by
  split
  · exact hm
  · exact hn

theorem orFail (fault : TypingFault) (a : Option α) : Tidy (Construction.orFail fault a) := by
  cases a with
  | none => exact throw fault
  | some a => exact pure a

theorem recordArray (ty : Ty) : Tidy (Construction.recordArray ty) := by
  intro s
  have hl : (s.gathered.recordArray ty).locals = s.gathered.locals := by
    unfold Gathered.recordArray
    split <;> rfl
  have ha : s.gathered.arrayTypes <+: (s.gathered.recordArray ty).arrayTypes := by
    unfold Gathered.recordArray
    split
    · exact List.prefix_refl _
    · exact List.prefix_append _ _
  refine ⟨rfl, rfl, rfl, ?_, ha⟩
  change _ <+: (s.gathered.recordArray ty).locals.toList
  rw [hl]

theorem newLocal (stem : String) (ty : Ty) : Tidy (Construction.newLocal stem ty) := by
  intro s
  refine ⟨rfl, rfl, rfl, ?_, List.prefix_refl _⟩
  change _ <+: (s.gathered.locals.create stem ty).toList
  exact List.prefix_append _ _

theorem deeper {m : Construction α} (hm : Tidy m) : Tidy (Construction.deeper m) := by
  -- The depth goes up and down again, because the body leaves it where it found it.
  intro s
  have hs := hm { s with depth := s.depth + 1 }
  refine ⟨hs.scope, hs.outer, ?_, hs.locals, hs.arrayTypes⟩
  change ((m.run { s with depth := s.depth + 1 }).2).depth - 1 = s.depth
  rw [hs.depth, Nat.add_sub_cancel]

theorem within (opening : Opening) {m : Construction α} (hm : Tidy m) :
    Tidy (Construction.within opening m) :=
  fun s => (hm (s.enter opening)).leave

theorem selfNode : Tidy Construction.selfNode :=
  get.bind fun _ => (orFail _ _).bind fun _ => pure _

theorem ambientEnv : Tidy Construction.ambientEnv :=
  get.bind fun _ => ite _ (pure _) (throw _)

theorem expect (h : Hierarchy) (expected : Option Ty) (e : Expr) (r : Resolved) :
    Tidy (Construction.expect h expected e r) := by
  cases expected with
  | none => exact pure r
  | some ty => exact ite _ (pure r) (throw _)

theorem nested (h : Hierarchy) (e : Expr) (expected : Option Ty) {m : Construction Resolved}
    (hm : Tidy m) : Tidy (Construction.nested h e expected m) :=
  get.bind fun _ => ite _ (hm.deeper.bind fun r => expect h expected e r) (throw _)

theorem elementTy (h : Hierarchy) (rs : List Resolved) : Tidy (Construction.elementTy h rs) := by
  cases rs with
  | nil => exact throw _
  | cons r rs =>
    -- The type reached so far is any type: the join of two of them gathers nothing.
    change Tidy (rs.foldlM _ r.ty)
    generalize r.ty = ty
    induction rs generalizing ty with
    | nil => exact pure ty
    | cons r rs ih =>
      rw [List.foldlM_cons]
      exact (orFail _ _).bind ih

theorem arrayOf (h : Hierarchy) (expected : Option Ty) (rs : List Resolved) :
    Tidy (Construction.arrayOf h expected rs) := by
  have hr (ty : Ty) : Tidy (do
      Construction.recordArray (.array ty)
      Pure.pure (Resolved.array ⟨.array ty, none⟩ rs ty)) :=
    (recordArray _).bind fun _ => pure _
  cases expected with
  | none => exact (elementTy h rs).bind hr
  | some ty => exact hr ty

theorem keySymbol (key : Resolved) : Tidy (Construction.keySymbol key) := by
  unfold Construction.keySymbol
  split
  · exact pure key
  · exact pure _
  · exact throw _

theorem checkKey (key : Expr) : Tidy (Construction.checkKey key) := by
  unfold Construction.checkKey
  split
  · exact throw _
  · exact pure ()

theorem boundaryNode (h : Hierarchy) (sequential : Bool) :
    Tidy (Construction.boundaryNode h sequential) :=
  ite _ ((orFail _ _).bind fun root => (selfNode.nested h .self (some root)).map some) (pure none)

theorem lookupTy (unique : Bool) : Tidy (Construction.lookupTy unique) :=
  ite _ (pure _) ((recordArray _).bind fun _ => pure _)

theorem heldCall (callee stem : String) (args : List Resolved) (ty : Ty) :
    Tidy (Construction.heldCall callee stem args ty) :=
  (newLocal stem ty).bind fun _ => pure _

end Tidy

mutual

theorem construct_tidy (h : Hierarchy) (e : Expr) (expected : Option Ty) :
    Tidy (construct h e expected) := by
  -- Typing an expression keeps the session, whatever fails inside: one case for each kind of
  -- expression, in which the operands are tidy by induction.
  rw [construct.eq_def]
  apply Tidy.nested
  cases e with
  | literal value => exact Tidy.pure _
  | self => exact Tidy.selfNode
  | env => exact Tidy.ambientEnv
  | emptyEnv => exact Tidy.pure _
  | field receiver name =>
    refine (construct_tidy h receiver none).bind fun r => ?_
    split
    · exact (Tidy.orFail _ _).bind fun _ => Tidy.pure _
    · exact Tidy.throw _
  | array elements =>
    exact (constructAll_tidy h elements _).bind fun rs => Tidy.arrayOf h _ rs
  | lookup e key recursive sequential unique =>
    refine (Tidy.checkKey key).bind fun _ => ?_
    refine ((construct_tidy h key none).bind Tidy.keySymbol).bind fun _ => ?_
    refine (construct_tidy h e _).bind fun _ => ?_
    refine (Tidy.boundaryNode h sequential).bind fun _ => ?_
    refine (construct_tidy h recursive _).bind fun _ => ?_
    refine (Tidy.lookupTy unique).bind fun _ => ?_
    exact (Tidy.newLocal _ _).bind fun _ => Tidy.pure _
  | evalInEnv e body =>
    refine (construct_tidy h e _).bind fun _ => ?_
    refine (Tidy.newLocal _ _).bind fun _ => ?_
    exact ((construct_tidy h body none).within _).bind fun _ => Tidy.pure _
  | orphan e => exact (construct_tidy h e _).bind fun _ => Tidy.heldCall _ _ _ _
  | group envs => exact (construct_tidy h envs _).bind fun _ => Tidy.heldCall _ _ _ _
  | groupAll envs =>
    refine (constructAll_tidy h envs _).bind fun rs => ?_
    exact (Tidy.arrayOf h _ rs).bind fun _ => Tidy.heldCall _ _ _ _
  | isVisibleFrom referenced base =>
    refine (construct_tidy h base _).bind fun _ => ?_
    exact (construct_tidy h referenced _).bind fun _ => Tidy.pure _
  | envNode e =>
    exact (construct_tidy h e _).bind fun _ => (Tidy.orFail _ _).bind fun _ => Tidy.pure _

theorem constructAll_tidy (h : Hierarchy) (es : List Expr) (expected : Option Ty) :
    Tidy (constructAll h es expected) := by
  rw [constructAll.eq_def]
  cases es with
  | nil => exact Tidy.pure _
  | cons e es =>
    refine (construct_tidy h e expected).bind fun _ => ?_
    exact (constructAll_tidy h es expected).bind fun _ => Tidy.pure _

end

end Construction

namespace Session

theorem after_append (h : Hierarchy) (s : Session) (as bs : List Move) :
    s.after h (as ++ bs) = (s.after h as).after h bs := by
  simp only [after, List.foldl_append]

mutual

theorem moves_keep (h : Hierarchy) (s : Session) (st : Step) : s.Keeps (s.after h st.moves) := by
  -- A step keeps the session: a scope is closed behind everything that was done inside.
  cases st with
  | observe => exact Keeps.refl s
  | construct e expected => exact Construction.construct_tidy h e expected s
  | within opening steps =>
    -- What is kept is told of the opened session, and closing it turns that into the outer one.
    rw [Step.moves, after_append]
    exact (movesAll_keep h (s.enter opening) steps).leave

theorem movesAll_keep (h : Hierarchy) (s : Session) (sts : List Step) :
    s.Keeps (s.after h (Step.movesAll sts)) := by
  cases sts with
  | nil => exact Keeps.refl s
  | cons st sts =>
    rw [Step.movesAll, after_append]
    exact (moves_keep h s st).trans (movesAll_keep h _ sts)

end

theorem act_grows (h : Hierarchy) (s : Session) (m : Move) :
    s.gathered.locals.toList <+: (s.act h m).2.gathered.locals.toList ∧
      s.gathered.arrayTypes <+: (s.act h m).2.gathered.arrayTypes := by
  cases m with
  | observe | enter => exact ⟨List.prefix_refl _, List.prefix_refl _⟩
  | construct e expected =>
    have hk := Construction.construct_tidy h e expected s
    exact ⟨hk.locals, hk.arrayTypes⟩
  | leave =>
    have hg : s.leave.gathered = s.gathered := by
      unfold leave
      split <;> rfl
    change _ <+: s.leave.gathered.locals.toList ∧ _ <+: s.leave.gathered.arrayTypes
    rw [hg]
    exact ⟨List.prefix_refl _, List.prefix_refl _⟩

theorem after_grows (h : Hierarchy) (s : Session) (ms : List Move) :
    s.gathered.locals.toList <+: (s.after h ms).gathered.locals.toList ∧
      s.gathered.arrayTypes <+: (s.after h ms).gathered.arrayTypes := by
  induction ms generalizing s with
  | nil => exact ⟨List.prefix_refl _, List.prefix_refl _⟩
  | cons m ms ih =>
    have hm := act_grows h s m
    have hms := ih (s.act h m).2
    exact ⟨hm.1.trans hms.1, hm.2.trans hms.2⟩

/-- The discipline of a whole run, from any session and behind any moves made so far: typing an
expression, with or without success, leaves the scope and the depth as they were; leaving a scope
gives back the one it was entered from, whatever steps were taken inside; and the locals and array
types gathered by then begin those gathered later. -/
theorem run_restores_bindings (h : Hierarchy) (s : Session) (before : List Move) :
    (∀ e expected,
      let s₀ := s.after h before
      let s₁ := s.after h (before ++ [.construct e expected])
      s₁.scope = s₀.scope ∧ s₁.depth = s₀.depth) ∧
    (∀ opening inside,
      let s₀ := s.after h before
      let s₁ := s.after h (before ++ (Step.within opening inside).moves)
      s₁.scope = s₀.scope ∧ s₁.depth = s₀.depth) ∧
    (∀ more,
      let s₀ := s.after h before
      let s₁ := s.after h (before ++ more)
      s₀.gathered.locals.toList <+: s₁.gathered.locals.toList ∧
        s₀.gathered.arrayTypes <+: s₁.gathered.arrayTypes) := by
  refine ⟨fun e expected => ?_, fun opening inside => ?_, fun more => ?_⟩
  · have hk := moves_keep h (s.after h before) (.construct e expected)
    rw [after_append]
    exact ⟨hk.scope, hk.depth⟩
  · have hk := moves_keep h (s.after h before) (.within opening inside)
    rw [after_append]
    exact ⟨hk.scope, hk.depth⟩
  · rw [after_append]
    exact after_grows h _ more

end Session

end FrontEnd
