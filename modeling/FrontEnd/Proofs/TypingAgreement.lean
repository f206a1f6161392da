import FrontEnd.Property.Code
import FrontEnd.Proofs.TypingDerivations

/-!
Two runs of typing. What a session has gathered, how its environment variable is called and how it
came to have one do not matter to the verdict: sessions that agree on the rest find the same fault,
or make expressions that are alike up to the names of locals and of the environment variable.
-/
namespace FrontEnd

/-- The nodes have the same type, and results with the same storage if they hold any. -/
structure NodeInfo.Alike (i j : NodeInfo) : Prop where
  ty : i.ty = j.ty
  result : i.result.map Local.storage = j.result.map Local.storage

theorem NodeInfo.Alike.refl (i : NodeInfo) : i.Alike i := ⟨rfl, rfl⟩

theorem NodeInfo.Alike.of_ty {ty ty' : Ty} (hty : ty = ty') : Alike ⟨ty, none⟩ ⟨ty', none⟩ :=
  ⟨hty, rfl⟩

theorem NodeInfo.Alike.of_result {ty : Ty} {x y : Local} (hxy : x.storage = y.storage) :
    Alike ⟨ty, some x⟩ ⟨ty, some y⟩ :=
  ⟨rfl, congrArg some hxy⟩

namespace Resolved

mutual

/-- The expressions have one shape and the same types. Their locals may differ in name; so may the
variable of the ambient environment, which is `a` in the first expression and `b` in the second, and
a local in the body of a node that binds it. -/
inductive Alike : String → String → Resolved → Resolved → Prop
  | literal {a b i j} (hi : i.Alike j) (v : Literal) : Alike a b (.literal i v) (.literal j v)
  | var {a b i j} (hi : i.Alike j) (name : String) : Alike a b (.var i name) (.var j name)
  | ambient {a b i j} (hi : i.Alike j) : Alike a b (.var i a) (.var j b)
  | getSymbol {a b i j t u} (hi : i.Alike j) (ht : Alike a b t u) :
    Alike a b (.getSymbol i t) (.getSymbol j u)
  | field {a b i j r s} (hi : i.Alike j) (hr : Alike a b r s) (name : String) :
    Alike a b (.field i r name) (.field j s name)
  | lookup {a b i j e f k l m n c d} (hi : i.Alike j) (he : Alike a b e f) (hk : Alike a b k l)
    (hb : AlikeAll a b m.toList n.toList) (hc : Alike a b c d) (unique : Bool) :
    Alike a b (.lookup i e k m c unique) (.lookup j f l n d unique)
  | call {a b i j rs ss} (hi : i.Alike j) (callee : String) (hargs : AlikeAll a b rs ss) :
    Alike a b (.call i callee rs) (.call j callee ss)
  | envNode {a b i j e f} (hi : i.Alike j) (he : Alike a b e f) :
    Alike a b (.envNode i e) (.envNode j f)
  | array {a b i j rs ss} (hi : i.Alike j) (hes : AlikeAll a b rs ss) (elementTy : Ty) :
    Alike a b (.array i rs elementTy) (.array j ss elementTy)
  | bind {a b i j e f x y r s} (hi : i.Alike j) (he : Alike a b e f) (hx : x.storage = y.storage)
    (hr : Alike x.name y.name r s) : Alike a b (.bind i e x r) (.bind j f y s)

inductive AlikeAll : String → String → List Resolved → List Resolved → Prop
  | nil {a b} : AlikeAll a b [] []
  | cons {a b r s rs ss} (hr : Alike a b r s) (hrs : AlikeAll a b rs ss) :
    AlikeAll a b (r :: rs) (s :: ss)

end

theorem Alike.info {a b : String} {r s : Resolved} (hr : Alike a b r s) : r.info.Alike s.info := by
  cases hr <;> assumption

theorem Alike.ty_eq {a b : String} {r s : Resolved} (hr : Alike a b r s) : r.ty = s.ty := hr.info.ty

theorem AlikeAll.singleton {a b : String} {r s : Resolved} (hr : Alike a b r s) :
    AlikeAll a b [r] [s] :=
  .cons hr .nil

end Resolved

open Resolved (Alike AlikeAll)

/-- Both outcomes are the same fault, or values that stand in the relation. -/
inductive SameVerdict {α β : Type} (R : α → β → Prop) :
    Except TypingFault α → Except TypingFault β → Prop
  | fault (fault : TypingFault) : SameVerdict R (.error fault) (.error fault)
  | value {a : α} {b : β} (h : R a b) : SameVerdict R (.ok a) (.ok b)

/-- The sessions stand equally deep in properties of one node type, or in none, and both have an
ambient environment or neither. -/
structure Session.Agrees (s t : Session) : Prop where
  depth : s.depth = t.depth
  owner : s.scope.property.map (·.owner) = t.scope.property.map (·.owner)
  env : s.scope.hasAmbientEnv = t.scope.hasAmbientEnv

/-- The sessions agree, and read their ambient environments from `a` and `b`. -/
structure Session.Twins (a b : String) (s t : Session) : Prop extends s.Agrees t where
  left : s.scope.envName = a
  right : t.scope.envName = b

namespace Session

theorem Agrees.twins {s t : Session} (hst : s.Agrees t) : Twins s.scope.envName t.scope.envName s t :=
  ⟨hst, rfl, rfl⟩

theorem Agrees.of_keeps {s t u : Session} (hst : s.Agrees t) (ht : t.Keeps u) : s.Agrees u where
  depth := hst.depth.trans ht.depth.symm
  owner := by rw [ht.scope, hst.owner]
  env := by rw [ht.scope, hst.env]

theorem Twins.of_keeps {a b : String} {s t s' t' : Session} (hst : Twins a b s t) (hs : s.Keeps s')
    (ht : t.Keeps t') : Twins a b s' t' where
  depth := by rw [hs.depth, ht.depth, hst.depth]
  owner := by rw [hs.scope, ht.scope, hst.owner]
  env := by rw [hs.scope, ht.scope, hst.env]
  left := by rw [hs.scope, hst.left]
  right := by rw [ht.scope, hst.right]

theorem Twins.enter {a b : String} {s t : Session} (hst : Twins a b s t) (x y : String) :
    Twins x y (s.enter (.bindName x)) (t.enter (.bindName y)) where
  depth := hst.depth
  owner := hst.owner
  env := (Bool.or_true _).trans (Bool.or_true _).symm
  left := rfl
  right := rfl

end Session

namespace Construction

variable {α β γ δ : Type} {a b : String}

/-- From twins the steps come to the same verdict, with values in the relation, and leave twins. -/
def Parallel (a b : String) (R : α → β → Prop) (m : Construction α) (n : Construction β) : Prop :=
  ∀ s t : Session, s.Twins a b t →
    SameVerdict R (m.run s).1 (n.run t).1 ∧ (m.run s).2.Twins a b (n.run t).2

namespace Parallel

theorem pure {R : α → β → Prop} {x : α} {y : β} (hxy : R x y) :
    Parallel a b R (Pure.pure x) (Pure.pure y) :=
  fun _ _ hst => ⟨.value hxy, hst⟩

theorem throw (R : α → β → Prop) (fault : TypingFault) :
    Parallel a b R (MonadExcept.throw fault) (MonadExcept.throw fault) :=
  fun _ _ hst => ⟨.fault fault, hst⟩

theorem get : Parallel a b (Session.Twins a b) MonadState.get MonadState.get :=
  fun _ _ hst => ⟨.value hst, hst⟩

theorem bind {R : α → β → Prop} {S : γ → δ → Prop} {m : Construction α} {n : Construction β}
    {f : α → Construction γ} {g : β → Construction δ} (hm : Parallel a b R m n)
    (hf : ∀ x y, R x y → Parallel a b S (f x) (g y)) : Parallel a b S (m >>= f) (n >>= g) := by
  intro s t hst
  obtain ⟨hv, hst'⟩ := hm s t hst
  rw [run_bind, run_bind]
  rcases hms : m.run s with ⟨x, s'⟩
  rcases hnt : n.run t with ⟨y, t'⟩
  rw [hms, hnt] at hv hst'
  -- Both runs end here with one fault, or both go on, from twins and with related values.
  cases hv with
  | fault fault => exact ⟨.fault fault, hst'⟩
  | value hxy => exact hf _ _ hxy s' t' hst'

theorem ite {R : α → β → Prop} {p q : Prop} [Decidable p] [Decidable q] (hpq : p ↔ q)
    {m m' : Construction α} {n n' : Construction β} (hm : Parallel a b R m n)
    (hm' : Parallel a b R m' n') :
    Parallel a b R (if p then m else m') (if q then n else n') := by
  by_cases hp : p
  · rw [if_pos hp, if_pos (hpq.mp hp)]
    exact hm
  · rw [if_neg hp, if_neg (hpq.not.mp hp)]
    exact hm'

theorem orFail {R : α → β → Prop} (fault : TypingFault) {x : Option α} {y : Option β}
    (hxy : Option.Rel R x y) :
    Parallel a b R (Construction.orFail fault x) (Construction.orFail fault y) := by
  cases hxy with
  | none => exact throw R fault
  | some hxy => exact pure hxy

theorem orFail_eq (fault : TypingFault) (x : Option α) :
    Parallel a b Eq (Construction.orFail fault x) (Construction.orFail fault x) :=
  orFail fault (by cases x <;> constructor; rfl)

theorem recordArray (ty : Ty) :
    Parallel a b Eq (Construction.recordArray ty) (Construction.recordArray ty) :=
  fun s t hst => ⟨.value rfl, hst.of_keeps (Tidy.recordArray ty s) (Tidy.recordArray ty t)⟩

theorem newLocal (stem : String) (ty : Ty) :
    Parallel a b (fun x y : Local => x.storage = y.storage) (Construction.newLocal stem ty)
      (Construction.newLocal stem ty) :=
  fun s t hst => ⟨.value rfl, hst.of_keeps (Tidy.newLocal stem ty s) (Tidy.newLocal stem ty t)⟩

theorem heldCall (callee stem : String) {rs ss : List Resolved} (ty : Ty)
    (hargs : AlikeAll a b rs ss) :
    Parallel a b (Alike a b) (Construction.heldCall callee stem rs ty)
      (Construction.heldCall callee stem ss ty) :=
  (newLocal stem ty).bind fun _ _ hxy => pure (.call (.of_result hxy) callee hargs)

theorem selfNode : Parallel a b (Alike a b) Construction.selfNode Construction.selfNode := by
  refine get.bind fun s t hst => ?_
  have howner : Option.Rel (fun p q : Signature => p.owner = q.owner) s.scope.property
      t.scope.property := by
    have ho := hst.owner
    cases hs : s.scope.property <;> cases ht : t.scope.property <;> simp_all
  refine (orFail _ howner).bind fun p q hpq => ?_
  exact pure (.var (.of_ty (congrArg Ty.node hpq)) "Self")

theorem ambientEnv : Parallel a b (Alike a b) Construction.ambientEnv Construction.ambientEnv := by
  refine get.bind fun s t hst => ?_
  refine ite (by rw [hst.env]) ?_ (throw _ _)
  rw [hst.left, hst.right]
  exact pure (.ambient (.refl _))

theorem deeper {R : α → β → Prop} {m : Construction α} {n : Construction β}
    (hm : Parallel a b R m n) :
    Parallel a b R (Construction.deeper m) (Construction.deeper n) := by
  intro s t hst
  have hst' : Session.Twins a b { s with depth := s.depth + 1 } { t with depth := t.depth + 1 } :=
    ⟨⟨congrArg (· + 1) hst.depth, hst.owner, hst.env⟩, hst.left, hst.right⟩
  obtain ⟨hv, hu⟩ := hm _ _ hst'
  exact ⟨hv, ⟨congrArg (· - 1) hu.depth, hu.owner, hu.env⟩, hu.left, hu.right⟩

theorem within {R : α → β → Prop} {x y : String} {m : Construction α} {n : Construction β}
    (hm : Parallel x y R m n) (hm' : Tidy m) (hn' : Tidy n) :
    Parallel a b R (Construction.within (.bindName x) m) (Construction.within (.bindName y) n) := by
  -- Inside, the environments are read from the variables bound there; the scopes are left
  -- behind.
  intro s t hst
  have hs := hm'.within (.bindName x) s
  have ht := hn'.within (.bindName y) t
  exact ⟨(hm _ _ (hst.enter x y)).1, hst.of_keeps hs ht⟩

theorem expect (h : Hierarchy) (expected : Option Ty) (e : Expr) {r r' : Resolved}
    (hr : Alike a b r r') :
    Parallel a b (Alike a b) (Construction.expect h expected e r)
      (Construction.expect h expected e r') := by
  cases expected with
  | none => exact pure hr
  | some ty =>
    -- The message shows the type that was found and the source, which both runs have in common.
    unfold Construction.expect
    simp only [hr.ty_eq]
    exact ite Iff.rfl (pure hr) (throw _ _)

theorem nested (h : Hierarchy) (e : Expr) (expected : Option Ty) {m n : Construction Resolved}
    (hm : Parallel a b (Alike a b) m n) :
    Parallel a b (Alike a b) (Construction.nested h e expected m)
      (Construction.nested h e expected n) := by
  refine get.bind fun s t hst => ite (by rw [hst.depth]) ?_ (throw _ _)
  exact hm.deeper.bind fun r r' hr => expect h expected e hr

theorem elementTy (h : Hierarchy) {rs ss : List Resolved} (hrs : AlikeAll a b rs ss) :
    Parallel a b Eq (Construction.elementTy h rs) (Construction.elementTy h ss) := by
  cases hrs with
  | nil => exact throw _ _
  | @cons _ _ r s rs ss hr hrs =>
    -- The types reached so far are the same, whatever they are.
    change Parallel a b Eq (rs.foldlM _ r.ty) (ss.foldlM _ s.ty)
    rw [hr.ty_eq]
    generalize s.ty = ty
    induction rs generalizing ss ty with
    | nil =>
      cases hrs
      exact pure rfl
    | cons r rs ih =>
      cases hrs with
      | cons hr hrs =>
        rw [List.foldlM_cons, List.foldlM_cons, hr.ty_eq]
        refine (orFail_eq _ _).bind fun ty₁ ty₂ hty => ?_
        subst hty
        exact ih hrs _

theorem arrayOf (h : Hierarchy) (expected : Option Ty) {rs ss : List Resolved}
    (hrs : AlikeAll a b rs ss) :
    Parallel a b (Alike a b) (Construction.arrayOf h expected rs)
      (Construction.arrayOf h expected ss) := by
  have hrecord (ty : Ty) : Parallel a b (Alike a b)
      (do
        Construction.recordArray (.array ty)
        Pure.pure (Resolved.array ⟨.array ty, none⟩ rs ty))
      (do
        Construction.recordArray (.array ty)
        Pure.pure (Resolved.array ⟨.array ty, none⟩ ss ty)) :=
    (recordArray _).bind fun _ _ _ => pure (.array (.refl _) hrs ty)
  cases expected with
  | none =>
    refine (elementTy h hrs).bind fun ty₁ ty₂ hty => ?_
    subst hty
    exact hrecord ty₁
  | some ty => exact hrecord ty

theorem keySymbol {k l : Resolved} (hk : Alike a b k l) :
    Parallel a b (Alike a b) (Construction.keySymbol k) (Construction.keySymbol l) := by
  unfold Construction.keySymbol
  rw [hk.ty_eq]
  split
  · exact pure hk
  · exact pure (.getSymbol (.refl _) hk)
  · exact throw _ _

theorem checkKey (key : Expr) :
    Parallel a b Eq (Construction.checkKey key) (Construction.checkKey key) := by
  unfold Construction.checkKey
  split
  · exact throw _ _
  · exact pure rfl

theorem boundaryNode (h : Hierarchy) (sequential : Bool) :
    Parallel a b (fun m n => AlikeAll a b m.toList n.toList)
      (Construction.boundaryNode h sequential) (Construction.boundaryNode h sequential) := by
  refine ite Iff.rfl ?_ (pure .nil)
  refine (orFail_eq _ _).bind fun root root' hroot => ?_
  subst hroot
  rw [map_eq_pure_bind]
  exact (selfNode.nested h .self _).bind fun r s hr => pure (.singleton hr)

theorem lookupTy (unique : Bool) :
    Parallel a b Eq (Construction.lookupTy unique) (Construction.lookupTy unique) :=
  ite Iff.rfl (pure rfl) ((recordArray _).bind fun _ _ _ => pure rfl)

end Parallel

mutual

theorem construct_parallel (h : Hierarchy) (e : Expr) (expected : Option Ty) (a b : String) :
    Parallel a b (Alike a b) (construct h e expected) (construct h e expected) := by
  -- From twins an expression is typed in step, whatever fails inside: one case for each kind
  -- of expression, in which the operands are typed in step by induction.
  rw [construct.eq_def]
  apply Parallel.nested
  cases e with
  | literal value => exact .pure (.literal (.refl _) value)
  | self => exact .selfNode
  | env => exact .ambientEnv
  | emptyEnv => exact .pure (.var (.refl _) _)
  | field receiver name =>
    refine (construct_parallel h receiver none a b).bind fun r s hr => ?_
    rw [hr.ty_eq]
    split
    · refine (Parallel.orFail_eq _ _).bind fun ty ty' hty => ?_
      subst hty
      exact .pure (.field (.refl _) hr name)
    · exact .throw _ _
  | array elements =>
    exact (constructAll_parallel h elements _ a b).bind fun _ _ hrs => .arrayOf h _ hrs
  | lookup e key recursive sequential unique =>
    refine (Parallel.checkKey key).bind fun _ _ _ => ?_
    refine ((construct_parallel h key none a b).bind fun _ _ hk => .keySymbol hk).bind
      fun _ _ hk => ?_
    refine (construct_parallel h e _ a b).bind fun _ _ he => ?_
    refine (Parallel.boundaryNode h sequential).bind fun _ _ hb => ?_
    refine (construct_parallel h recursive _ a b).bind fun _ _ hc => ?_
    refine (Parallel.lookupTy unique).bind fun ty ty' hty => ?_
    subst hty
    refine (Parallel.newLocal _ _).bind fun _ _ hx => ?_
    exact .pure (.lookup (.of_result hx) he hk hb hc unique)
  | evalInEnv e body =>
    refine (construct_parallel h e _ a b).bind fun _ _ he => ?_
    refine (Parallel.newLocal _ _).bind fun x y hxy => ?_
    -- Each run reads the environment from the local that it has just made.
    have hbody := construct_parallel h body none x.name y.name
    have htidy := construct_tidy h body none
    refine (hbody.within htidy htidy).bind fun _ _ hr => ?_
    exact .pure (.bind (.of_ty hr.ty_eq) he hxy hr)
  | orphan e =>
    exact (construct_parallel h e _ a b).bind fun _ _ he => .heldCall _ _ _ (.singleton he)
  | group envs =>
    exact (construct_parallel h envs _ a b).bind fun _ _ he => .heldCall _ _ _ (.singleton he)
  | groupAll envs =>
    refine (constructAll_parallel h envs _ a b).bind fun _ _ hrs => ?_
    exact (Parallel.arrayOf h _ hrs).bind fun _ _ hr => .heldCall _ _ _ (.singleton hr)
  | isVisibleFrom referenced base =>
    refine (construct_parallel h base _ a b).bind fun _ _ hb => ?_
    refine (construct_parallel h referenced _ a b).bind fun _ _ hr => ?_
    exact .pure (.call (.refl _) _ (.cons hb (.singleton hr)))
  | envNode e =>
    refine (construct_parallel h e _ a b).bind fun _ _ he => ?_
    refine (Parallel.orFail_eq _ _).bind fun root root' hroot => ?_
    subst hroot
    exact .pure (.envNode (.refl _) he)

theorem constructAll_parallel (h : Hierarchy) (es : List Expr) (expected : Option Ty)
    (a b : String) :
    Parallel a b (AlikeAll a b) (constructAll h es expected) (constructAll h es expected) := by
  rw [constructAll.eq_def]
  cases es with
  | nil => exact .pure .nil
  | cons e es =>
    refine (construct_parallel h e expected a b).bind fun _ _ hr => ?_
    refine (constructAll_parallel h es expected a b).bind fun _ _ hrs => ?_
    exact .pure (.cons hr hrs)

end

/-- The verdict on an expression does not depend on what was gathered, on what the environment
variable is called or on how it came to be bound: sessions that agree on the rest find the same
fault, or make expressions that are alike. Nor does it depend on the steps that a session has taken
in between, with whatever success. -/
theorem construct_agrees (h : Hierarchy) (e : Expr) (expected : Option Ty) {s t : Session}
    (hst : s.Agrees t) :
    SameVerdict (Alike s.scope.envName t.scope.envName) ((construct h e expected).run s).1
        ((construct h e expected).run t).1 ∧
      ∀ steps : List Step,
        SameVerdict (Alike s.scope.envName t.scope.envName) ((construct h e expected).run s).1
          ((construct h e expected).run (t.after h (Step.movesAll steps))).1 := by
  have hverdict {u : Session} (hu : s.Agrees u) :=
    (construct_parallel h e expected s.scope.envName u.scope.envName s u hu.twins).1
  refine ⟨hverdict hst, fun steps => ?_⟩
  have hkeeps := t.movesAll_keep h steps
  rw [← hkeeps.scope]
  exact hverdict (hst.of_keeps hkeeps)

end Construction

def Sample.givenSession : Session := Session.enter {} (.bindDefault Sample.property.signature)

/-- A session in another property of the node type, which is given no environment. It has bound one
that a lookup was made in. -/
def Sample.boundSession : Session where
  scope := ⟨some ⟨"Name", "visible", false⟩, true, "New_Env_0"⟩
  gathered := ⟨⟨[⟨"New_Env_0", Ty.lexicalEnv⟩, ⟨"Env_Get_Result_0", Ty.array .envElement⟩],
    [("New_Env", 1), ("Env_Get_Result", 1)]⟩, [.array .envElement]⟩

theorem Sample.sessions_agree :
    Sample.givenSession.Agrees Sample.boundSession ∧
      let construct := Construction.construct Sample.hierarchy Sample.property.body
        Sample.property.ty
      SameVerdict (Alike "Current_Env" "New_Env_0") (construct.run Sample.givenSession).1
          (construct.run Sample.boundSession).1 ∧
        ∀ steps : List Step,
          SameVerdict (Alike "Current_Env" "New_Env_0") (construct.run Sample.givenSession).1
            (construct.run (Sample.boundSession.after Sample.hierarchy (Step.movesAll steps))).1 :=
  have hst : Sample.givenSession.Agrees Sample.boundSession := ⟨rfl, rfl, rfl⟩
  ⟨hst, Construction.construct_agrees Sample.hierarchy Sample.property.body Sample.property.ty hst⟩

/-- The numbers of the locals tell the sessions apart. -/
example :
    let construct := Construction.construct Sample.hierarchy Sample.property.body Sample.property.ty
    (construct.run Sample.givenSession).1.map Resolved.termText = .ok "Env_Get_Result_0" ∧
      (construct.run Sample.boundSession).1.map Resolved.termText = .ok "Env_Get_Result_1" :=
  ⟨rfl, rfl⟩

end FrontEnd
