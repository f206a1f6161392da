import FrontEnd.Proofs.TypingDerivations

namespace FrontEnd

/-- There is a reason for the fault in the body of such a property, or outside of any, where typing
goes down to the level `lowest`. A body has none of the faults of a head. -/
def TypingFault.Warranted (h : Hierarchy) (property : Option Signature) (lowest : Nat) :
    TypingFault → Prop
  | tooDeep => Expr.maxNesting < lowest
  | selfOutsideProperty => property = none
  | noRoot => h.root? = none
  | unknownOwner _ | undeclared _ => False
  | mismatch expected actual _ => ¬ h.isSubtype actual expected
  | noAmbientEnv | fieldOfNonNode .. | noSuchField .. | emptyArray
  | incompatibleElements .. | lookupKey _ => True

open TypingFault (Warranted)

namespace Construction

variable {α β : Type} {P : TypingFault → Prop} {scope : Scope} {depth : Nat}

/-- From sessions that stand in the scope at the depth, the step ends in no faults but these. -/
structure FailsBy (P : TypingFault → Prop) (scope : Scope) (depth : Nat) (m : Construction α) :
    Prop where
  tidy : Tidy m
  allowed : ∀ s : Session, s.scope = scope → s.depth = depth →
    ∀ fault, (m.run s).1 = .error fault → P fault

namespace FailsBy

theorem pure (a : α) : FailsBy P scope depth (Pure.pure a) where
  tidy := Tidy.pure a
  allowed _ _ _ _ hf := nomatch hf

theorem throw {fault : TypingFault} (hP : P fault) :
    FailsBy P scope depth (MonadExcept.throw fault : Construction α) where
  tidy := Tidy.throw fault
  allowed _ _ _ _ hf := Except.error.inj hf ▸ hP

theorem bind {m : Construction α} {f : α → Construction β} (hm : FailsBy P scope depth m)
    (hf : ∀ a, FailsBy P scope depth (f a)) : FailsBy P scope depth (m >>= f) where
  tidy := hm.tidy.bind fun a => (hf a).tidy
  allowed s hscope hdepth fault hfault := by
    -- The second step starts in the scope and at the depth of the first, whatever was gathered.
    have hkeeps := hm.tidy s
    have hallowed := hm.allowed s hscope hdepth
    rw [run_bind] at hfault
    rcases hrun : m.run s with ⟨fault' | a, t⟩ <;> rw [hrun] at hfault hkeeps hallowed
    · exact Except.error.inj hfault ▸ hallowed fault' rfl
    · exact (hf a).allowed t (hkeeps.scope.trans hscope) (hkeeps.depth.trans hdepth) fault hfault

theorem get_bind {f : Session → Construction α}
    (hf : ∀ s, s.scope = scope → s.depth = depth → FailsBy P scope depth (f s))
    (htidy : ∀ s, Tidy (f s)) : FailsBy P scope depth (MonadState.get >>= f) where
  tidy := Tidy.get.bind htidy
  allowed s hscope hdepth := (hf s hscope hdepth).allowed s hscope hdepth

theorem map {m : Construction α} (f : α → β) (hm : FailsBy P scope depth m) :
    FailsBy P scope depth (f <$> m) := by
  rw [map_eq_pure_bind]
  exact hm.bind fun a => pure (f a)

theorem ite {p : Prop} [Decidable p] {m n : Construction α} (hm : p → FailsBy P scope depth m)
    (hn : ¬ p → FailsBy P scope depth n) : FailsBy P scope depth (if p then m else n) := by
  split
  · rename_i hp
    exact hm hp
  · rename_i hp
    exact hn hp

theorem orFail {fault : TypingFault} {a : Option α} (hP : a = none → P fault) :
    FailsBy P scope depth (Construction.orFail fault a) := by
  cases a with
  | none => exact throw (hP rfl)
  | some a => exact pure a

theorem recordArray (ty : Ty) : FailsBy P scope depth (Construction.recordArray ty) where
  tidy := Tidy.recordArray ty
  allowed _ _ _ _ hf := nomatch hf

theorem newLocal (stem : String) (ty : Ty) :
    FailsBy P scope depth (Construction.newLocal stem ty) where
  tidy := Tidy.newLocal stem ty
  allowed _ _ _ _ hf := nomatch hf

theorem heldCall (callee stem : String) (args : List Resolved) (ty : Ty) :
    FailsBy P scope depth (Construction.heldCall callee stem args ty) :=
  (newLocal stem ty).bind fun _ => pure _

theorem deeper {m : Construction α} (hm : FailsBy P scope (depth + 1) m) :
    FailsBy P scope depth (Construction.deeper m) where
  tidy := hm.tidy.deeper
  allowed s hscope hdepth :=
    hm.allowed { s with depth := s.depth + 1 } hscope (congrArg (· + 1) hdepth)

theorem within (opening : Opening) {m : Construction α}
    (hm : FailsBy P (opening.apply scope) depth m) :
    FailsBy P scope depth (Construction.within opening m) where
  tidy := hm.tidy.within opening
  allowed s hscope hdepth := hm.allowed (s.enter opening) (congrArg opening.apply hscope) hdepth

theorem expect (h : Hierarchy) (expected : Option Ty) (e : Expr) (r : Resolved)
    (hP : ∀ ty actual shown, ¬ h.isSubtype actual ty → P (.mismatch ty actual shown)) :
    FailsBy P scope depth (Construction.expect h expected e r) := by
  cases expected with
  | none => exact pure r
  | some ty => exact ite (fun _ => pure r) fun hnot => throw (hP _ _ _ hnot)

theorem nested (h : Hierarchy) (e : Expr) (expected : Option Ty) {m : Construction Resolved}
    (hdeep : Expr.maxNesting ≤ depth → P .tooDeep)
    (hP : ∀ ty actual shown, ¬ h.isSubtype actual ty → P (.mismatch ty actual shown))
    (hm : FailsBy P scope (depth + 1) m) :
    FailsBy P scope depth (Construction.nested h e expected m) := by
  refine get_bind (fun s _ hdepth => ?_) fun _ =>
    Tidy.ite _ (hm.tidy.deeper.bind fun r => Tidy.expect h expected e r) (Tidy.throw _)
  refine ite (fun _ => hm.deeper.bind fun r => expect h expected e r hP) fun hroom => ?_
  exact throw (hdeep (hdepth ▸ Nat.le_of_not_lt hroom))

end FailsBy

variable {h : Hierarchy} {lowest : Nat}

theorem selfNode_fails : FailsBy (Warranted h scope.property lowest) scope depth selfNode := by
  refine .get_bind (fun s hscope _ => ?_) fun _ => (Tidy.orFail _ _).bind fun _ => Tidy.pure _
  rw [hscope]
  exact (FailsBy.orFail fun hnone => hnone).bind fun _ => .pure _

theorem ambientEnv_fails : FailsBy (Warranted h scope.property lowest) scope depth ambientEnv :=
  .get_bind (fun _ _ _ => .ite (fun _ => .pure _) fun _ => .throw trivial) fun _ =>
    Tidy.ite _ (Tidy.pure _) (Tidy.throw _)

theorem elementTy_fails (rs : List Resolved) :
    FailsBy (Warranted h scope.property lowest) scope depth (elementTy h rs) := by
  cases rs with
  | nil => exact .throw trivial
  | cons r rs =>
    -- The faults do not depend on the type that was reached so far.
    change FailsBy _ _ _ (rs.foldlM _ r.ty)
    generalize r.ty = ty
    induction rs generalizing ty with
    | nil => exact .pure ty
    | cons r rs ih =>
      rw [List.foldlM_cons]
      exact (FailsBy.orFail fun _ => trivial).bind ih

theorem arrayOf_fails (expected : Option Ty) (rs : List Resolved) :
    FailsBy (Warranted h scope.property lowest) scope depth (arrayOf h expected rs) := by
  have hrecord (ty : Ty) : FailsBy (Warranted h scope.property lowest) scope depth (do
      recordArray (.array ty)
      Pure.pure (Resolved.array ⟨.array ty, none⟩ rs ty)) :=
    (FailsBy.recordArray _).bind fun _ => .pure _
  cases expected with
  | none => exact (elementTy_fails rs).bind hrecord
  | some ty => exact hrecord ty

theorem keySymbol_fails (key : Resolved) :
    FailsBy (Warranted h scope.property lowest) scope depth (keySymbol key) := by
  unfold keySymbol
  split
  · exact .pure key
  · exact .pure _
  · exact .throw trivial

theorem checkKey_fails (key : Expr) :
    FailsBy (Warranted h scope.property lowest) scope depth (checkKey key) := by
  unfold checkKey
  split
  · exact .throw trivial
  · exact .pure ()

theorem boundaryNode_fails (sequential : Bool) (hlowest : depth < lowest) :
    FailsBy (Warranted h scope.property lowest) scope depth (boundaryNode h sequential) := by
  refine .ite (fun _ => ?_) fun _ => .pure none
  refine (FailsBy.orFail fun hnone => hnone).bind fun root => .map _ ?_
  exact .nested h .self _ (fun hmax => Nat.lt_of_le_of_lt hmax hlowest) (fun _ _ _ => id)
    selfNode_fails

theorem lookupTy_fails (unique : Bool) :
    FailsBy (Warranted h scope.property lowest) scope depth (lookupTy unique) :=
  .ite (fun _ => .pure _) fun _ => (FailsBy.recordArray _).bind fun _ => .pure _

mutual

theorem construct_fails (h : Hierarchy) (e : Expr) (expected : Option Ty) (scope : Scope)
    (depth : Nat) {lowest : Nat} (hle : depth + e.height ≤ lowest) :
    FailsBy (Warranted h scope.property lowest) scope depth (construct h e expected) := by
  -- There is a reason for every fault of a typing: one case for each kind of expression,
  -- whose parts are typed one level deeper, in the same property, and go down no further than
  -- the expression.
  obtain ⟨hroom, hparts⟩ := Expr.fits_iff.mp hle
  rw [construct.eq_def]
  refine .nested h e expected (fun hmax => Nat.lt_of_le_of_lt hmax hroom) (fun _ _ _ => id) ?_
  cases e with
  | literal value => exact .pure _
  | self => exact selfNode_fails
  | env => exact ambientEnv_fails
  | emptyEnv => exact .pure _
  | field receiver name =>
    have hreceiver := List.forall_mem_singleton.mp hparts
    refine (construct_fails h receiver none scope _ hreceiver).bind fun r => ?_
    split
    · exact (FailsBy.orFail fun _ => trivial).bind fun _ => .pure _
    · exact .throw trivial
  | array elements =>
    exact (constructAll_fails h elements _ scope _ hparts).bind fun rs => arrayOf_fails _ rs
  | lookup e key recursive sequential unique =>
    simp only [Expr.parts, List.forall_mem_cons] at hparts
    obtain ⟨he, hkey, hrecursive, -⟩ := hparts
    have hbelow : depth + 1 < lowest := (Expr.fits_iff.mp he).1
    refine (checkKey_fails key).bind fun _ => ?_
    refine ((construct_fails h key none scope _ hkey).bind keySymbol_fails).bind fun _ => ?_
    refine (construct_fails h e _ scope _ he).bind fun _ => ?_
    refine (boundaryNode_fails sequential hbelow).bind fun _ => ?_
    refine (construct_fails h recursive _ scope _ hrecursive).bind fun _ => ?_
    refine (lookupTy_fails unique).bind fun _ => ?_
    exact (FailsBy.newLocal _ _).bind fun _ => .pure _
  | evalInEnv e body =>
    simp only [Expr.parts, List.forall_mem_cons] at hparts
    obtain ⟨he, hbody, -⟩ := hparts
    refine (construct_fails h e _ scope _ he).bind fun _ => ?_
    refine (FailsBy.newLocal _ _).bind fun x => ?_
    -- Binding the environment leaves the property as it is.
    have hinside := construct_fails h body none (scope.bindName x.name) _ hbody
    exact (FailsBy.within (.bindName x.name) hinside).bind fun _ => .pure _
  | orphan e =>
    have he := List.forall_mem_singleton.mp hparts
    exact (construct_fails h e _ scope _ he).bind fun _ => .heldCall _ _ _ _
  | group envs =>
    have henvs := List.forall_mem_singleton.mp hparts
    exact (construct_fails h envs _ scope _ henvs).bind fun _ => .heldCall _ _ _ _
  | groupAll envs =>
    refine (constructAll_fails h envs _ scope _ hparts).bind fun rs => ?_
    exact (arrayOf_fails _ rs).bind fun _ => .heldCall _ _ _ _
  | isVisibleFrom referenced base =>
    simp only [Expr.parts, List.forall_mem_cons] at hparts
    obtain ⟨hreferenced, hbase, -⟩ := hparts
    refine (construct_fails h base _ scope _ hbase).bind fun _ => ?_
    exact (construct_fails h referenced _ scope _ hreferenced).bind fun _ => .pure _
  | envNode e =>
    have he := List.forall_mem_singleton.mp hparts
    refine (construct_fails h e _ scope _ he).bind fun _ => ?_
    exact (FailsBy.orFail fun hnone => hnone).bind fun _ => .pure _

theorem constructAll_fails (h : Hierarchy) (es : List Expr) (expected : Option Ty) (scope : Scope)
    (depth : Nat) {lowest : Nat} (hle : ∀ e ∈ es, depth + e.height ≤ lowest) :
    FailsBy (Warranted h scope.property lowest) scope depth (constructAll h es expected) := by
  rw [constructAll.eq_def]
  cases es with
  | nil => exact .pure _
  | cons e es =>
    obtain ⟨he, hes⟩ := List.forall_mem_cons.mp hle
    refine (construct_fails h e expected scope depth he).bind fun _ => ?_
    exact (constructAll_fails h es expected scope depth hes).bind fun _ => .pure _

end

section

variable {e : Expr} {expected : Option Ty} {m : Construction Resolved} {fault : TypingFault}
  {s : Session}

theorem bind_error {α β : Type} {m : Construction α} {f : α → Construction β}
    (hm : (m.run s).1 = .error fault) : ((m >>= f).run s).1 = .error fault := by
  rw [run_bind]
  rcases hrun : m.run s with ⟨r, t⟩
  rw [hrun] at hm
  cases hm
  rfl

theorem nested_tooDeep (hs : Expr.maxNesting ≤ s.depth) :
    ((nested h e expected m).run s).1 = .error .tooDeep := by
  change ((if s.depth < Expr.maxNesting then _ else throw .tooDeep : Construction _).run s).1 = _
  rw [if_neg (Nat.not_lt_of_le hs)]
  rfl

theorem nested_error (hs : s.depth < Expr.maxNesting)
    (hm : (m.run { s with depth := s.depth + 1 }).1 = .error fault) :
    ((nested h e expected m).run s).1 = .error fault := by
  have hdeeper : ((deeper m).run s).1 = .error fault := hm
  change ((if s.depth < Expr.maxNesting then _ else throw .tooDeep : Construction _).run s).1 = _
  rw [if_pos hs]
  exact bind_error hdeeper

end

end Construction

namespace PropertyDecl

variable {h : Hierarchy} {p : PropertyDecl} {fault : TypingFault}

theorem headFault_eq_some (hf : p.headFault? h = some fault) :
    (∃ owner, fault = .unknownOwner owner) ∨ ∃ node, fault = .undeclared node := by
  unfold headFault? at hf
  split at hf
  · exact .inl ⟨_, (Option.some.inj hf).symm⟩
  · obtain ⟨node, -, hnode⟩ := Option.map_eq_some_iff.mp hf
    exact .inr ⟨node, hnode.symm⟩

theorem construct_eq_error_iff :
    p.construct h = .error fault ↔ p.headFault? h = some fault ∨ p.headFault? h = none ∧
      ((Construction.construct h p.body p.ty).run
        (Session.enter {} (.bindDefault p.signature))).1 = .error fault := by
  have hwithin : ((Construction.within (.bindDefault p.signature)
      (Construction.construct h p.body p.ty)).run {}).1 =
        ((Construction.construct h p.body p.ty).run
          (Session.enter {} (.bindDefault p.signature))).1 := rfl
  rw [← hwithin]
  unfold construct
  cases p.headFault? h with
  | some fault' => simp
  | none =>
    dsimp only
    split <;> rename_i hrun <;> simp [hrun]

theorem construct_fails (hc : p.construct h = .error fault) :
    p.headFault? h = some fault ∨ p.headFault? h = none ∧
      fault.Warranted h (some p.signature) p.body.height := by
  rcases construct_eq_error_iff.mp hc with hhead | ⟨hhead, hbody⟩
  · exact .inl hhead
  · have hproperty : (({} : Scope).bindDefault p.signature).property = some p.signature := by
      unfold Scope.bindDefault
      split <;> rfl
    have hfails := Construction.construct_fails h p.body p.ty
      (({} : Scope).bindDefault p.signature) 0 (Nat.le_of_eq (Nat.zero_add _))
    rw [hproperty] at hfails
    exact .inr ⟨hhead, hfails.allowed _ rfl rfl fault hbody⟩

theorem height_of_tooDeep (hc : p.construct h = .error .tooDeep) :
    Expr.maxNesting < p.body.height := by
  rcases construct_fails hc with hhead | ⟨-, hbody⟩
  · rcases headFault_eq_some hhead with ⟨_, howner⟩ | ⟨_, hnode⟩
    · cases howner
    · cases hnode
  · exact hbody

end PropertyDecl

end FrontEnd
