import FrontEnd.Proofs.RoundTrip
import FrontEnd.Proofs.TypingFaults

/-!
How high the trees are that the parser makes. Reading bounds how many operands are nested in one
another, but not how many field accesses stand behind one of them, and typing counts both; so a text
can be read whose tree has more levels than typing goes down.
-/
namespace FrontEnd

namespace Expr

/-- Induction over the expressions directly inside. -/
@[elab_as_elim]
theorem parts_induction {P : Expr → Prop} (step : ∀ e, (∀ c ∈ e.parts, P c) → P e) (e : Expr) :
    P e :=
  step e fun c _ => parts_induction step c
termination_by e.height
decreasing_by
  rename_i hc
  rw [e.height_eq]
  exact Nat.lt_succ_of_le (heightAll_le_iff.mp (Nat.le_refl _) c hc)

mutual

/-- The most that a path down from the root weighs, where a field access weighs `access` and any
other expression weighs `other`. -/
def pathWeight (access other : Nat) : Expr → Nat
  | literal _ | self | env | emptyEnv => other
  | field receiver _ => receiver.pathWeight access other + access
  | array elements | groupAll elements => pathWeightAll access other elements + other
  | lookup e key recursive _ _ =>
    max (e.pathWeight access other)
      (max (key.pathWeight access other) (recursive.pathWeight access other)) + other
  | evalInEnv e body => max (e.pathWeight access other) (body.pathWeight access other) + other
  | orphan e | group e | envNode e => e.pathWeight access other + other
  | isVisibleFrom referenced base =>
    max (referenced.pathWeight access other) (base.pathWeight access other) + other

def pathWeightAll (access other : Nat) : List Expr → Nat
  | [] => 0
  | e :: es => max (e.pathWeight access other) (pathWeightAll access other es)

end

def rootWeight (access other : Nat) : Expr → Nat
  | field .. => access
  | _ => other

/-- The levels of the tree that are not field accesses. -/
def operandHeight (e : Expr) : Nat := e.pathWeight 0 1

/-- The most field accesses on a path. -/
def fieldDepth (e : Expr) : Nat := e.pathWeight 1 0

section

variable {access other access' other' n : Nat}

theorem pathWeight_eq (e : Expr) :
    e.pathWeight access other =
      pathWeightAll access other e.parts + e.rootWeight access other := by
  cases e <;> simp [pathWeight, pathWeightAll, parts, rootWeight]

theorem pathWeightAll_le_iff {es : List Expr} :
    pathWeightAll access other es ≤ n ↔ ∀ e ∈ es, e.pathWeight access other ≤ n := by
  induction es with
  | nil => simp [pathWeightAll]
  | cons e es ih => rw [pathWeightAll, Nat.max_le, ih, List.forall_mem_cons]

theorem pathWeight_le_all {e : Expr} {es : List Expr} (he : e ∈ es) :
    e.pathWeight access other ≤ pathWeightAll access other es :=
  pathWeightAll_le_iff.mp (Nat.le_refl _) e he

theorem pathWeight_add_le (e : Expr) :
    e.pathWeight (access + access') (other + other') ≤
      e.pathWeight access other + e.pathWeight access' other' := by
  induction e using parts_induction with
  | step e ih =>
    have hroot : e.rootWeight (access + access') (other + other') =
        e.rootWeight access other + e.rootWeight access' other' := by
      cases e <;> rfl
    -- The part that is heaviest by the sum need not be heaviest by either of the two.
    have hparts : pathWeightAll (access + access') (other + other') e.parts ≤
        pathWeightAll access other e.parts + pathWeightAll access' other' e.parts :=
      pathWeightAll_le_iff.mpr fun c hc =>
        (ih c hc).trans (Nat.add_le_add (pathWeight_le_all hc) (pathWeight_le_all hc))
    rw [e.pathWeight_eq, e.pathWeight_eq, e.pathWeight_eq, hroot]
    omega

theorem height_eq_pathWeight (e : Expr) : e.height = e.pathWeight 1 1 := by
  induction e using parts_induction with
  | step e ih =>
    have hroot : e.rootWeight 1 1 = 1 := by cases e <;> rfl
    have hparts : heightAll e.parts = pathWeightAll 1 1 e.parts :=
      Nat.le_antisymm
        (heightAll_le_iff.mpr fun c hc => (ih c hc).trans_le (pathWeight_le_all hc))
        (pathWeightAll_le_iff.mpr fun c hc =>
          (ih c hc).symm.trans_le (heightAll_le_iff.mp (Nat.le_refl _) c hc))
    rw [e.height_eq, e.pathWeight_eq, hroot, hparts]

end

theorem height_le (e : Expr) : e.height ≤ e.operandHeight + e.fieldDepth := by
  have hsum : e.pathWeight (0 + 1) (1 + 0) ≤ e.pathWeight 0 1 + e.pathWeight 1 0 :=
    e.pathWeight_add_le
  exact e.height_eq_pathWeight ▸ hsum

theorem operandHeight_pos (e : Expr) : 0 < e.operandHeight := by
  induction e using parts_induction with
  | step e ih =>
    unfold operandHeight
    cases e with
    | field receiver name => exact ih receiver List.mem_cons_self
    | _ => rw [pathWeight_eq]; exact Nat.succ_pos _

/-- An operation adds one level to its operands, or none if it only changes a lookup. -/
theorem Operation.operandHeight_le {op : Operation} {es : List Expr} {e : Expr}
    (hb : op.build? es = some e) : e.operandHeight ≤ pathWeightAll 0 1 es + 1 := by
  unfold Operation.build? at hb
  split at hb <;> cases hb <;>
    simp only [operandHeight, pathWeight, pathWeightAll, ofBool]
  -- The flag that a lookup is made with is one level high, like an environment at least.
  case h_1 x key | h_2 x key | h_3 x key =>
    have hpos := x.operandHeight_pos
    unfold operandHeight at hpos
    omega
  all_goals omega

mutual

theorem Derives.operandHeight_le {ts : List Token} {e : Expr} {depth : Nat}
    (hd : Derives ts e depth) : e.operandHeight ≤ depth := by
  match hd with
  | .operation _ _ hs _ hb =>
    exact (Operation.operandHeight_le hb).trans (Nat.succ_le_succ hs.pathWeightAll_le)
  | .chain hc => exact hc.operandHeight_le

theorem DerivesChain.operandHeight_le {ts : List Token} {e : Expr} {depth : Nat}
    (hd : DerivesChain ts e depth) : e.operandHeight ≤ depth + 1 := by
  match hd with
  | .int _ _ | .string _ | .bool _ => exact Nat.le_refl 1
  | .constant _ he =>
    simp only [constants, List.mem_cons, Prod.mk.injEq, List.not_mem_nil, or_false] at he
    rcases he with ⟨-, rfl⟩ | ⟨-, rfl⟩ | ⟨-, rfl⟩ <;> exact Nat.le_refl 1
  | .parens _ he _ => exact he.operandHeight_le.trans (Nat.le_succ _)
  | .array _ hs _ => exact Nat.succ_le_succ hs.pathWeightAll_le
  | .field hc _ _ => exact hc.operandHeight_le

theorem DerivesAll.pathWeightAll_le {ts : List Token} {es : List Expr} {depth : Nat}
    (hd : DerivesAll ts es depth) : pathWeightAll 0 1 es ≤ depth := by
  match hd with
  | .nil => exact Nat.le_refl 0
  | .cons he hs => exact max_le_max he.operandHeight_le hs.pathWeightAll_le

end

/-- What is read has at most `maxNesting` levels besides its field accesses, and no more levels than
these and its field accesses together. A property with such a body is refused for its nesting only
where the field accesses bring it beyond the limit. -/
theorem parse_operandHeight_le {text : String} {e : Expr} (h : parse text = .ok e) :
    e.operandHeight ≤ maxNesting ∧ e.height ≤ e.operandHeight + e.fieldDepth ∧
      ∀ (H : Hierarchy) (p : PropertyDecl), p.body = e → p.construct H = .error .tooDeep →
        maxNesting < e.operandHeight + e.fieldDepth := by
  obtain ⟨-, htokens⟩ := parse_eq_ok_iff.mp h
  obtain ⟨depth, hle, hder⟩ := ofTokens_derives.mp htokens
  refine ⟨hder.operandHeight_le.trans hle, e.height_le, fun H p hbody hc => ?_⟩
  have hhigh := PropertyDecl.height_of_tooDeep hc
  rw [hbody] at hhigh
  exact hhigh.trans_le e.height_le

/-- The node reached from the property's own by following `next` so many times. -/
def follow : Nat → Expr
  | 0 => self
  | n + 1 => field (follow n) "next"

theorem height_follow (n : Nat) : (follow n).height = n + 1 := by
  induction n with
  | zero => rfl
  | succ n ih => rw [follow, height, ih]

/-- However many field accesses there are, they are written on one level. -/
theorem nesting_follow (n : Nat) : (follow n).nesting = 1 := by
  induction n with
  | zero => rfl
  | succ n ih =>
    have hatomic : (follow n).isAtomic = true := by cases n <;> rfl
    rw [follow, nesting, operandNesting_of_atomic hatomic, ih]

theorem readForm_follow (n : Nat) : (follow n).readForm = follow n := by
  induction n with
  | zero => rfl
  | succ n ih => rw [follow, readForm, ih]

theorem parse_follow (n : Nat) : parse (follow n).display = .ok (follow n) := by
  have hnames : ∀ receiver name, field receiver name ∈ (follow n).nodes → IsIdentifier name := by
    induction n with
    | zero => simp [follow, nodes]
    | succ n ih =>
      intro receiver name hmem
      rcases List.mem_cons.mp hmem with heq | hmem
      · cases heq
        exact ⟨_, _, rfl, rfl, rfl, rfl⟩
      · exact ih receiver name hmem
  have hread := (parse_display (follow n) hnames).1
  rw [nesting_follow, readForm_follow] at hread
  exact hread (by decide)

example : (follow 2).display = "Self.next.next" := rfl

end Expr

open Construction in
/-- Typing finds too many field accesses nested too deeply, before it asks for any field. -/
theorem Construction.construct_follow (h : Hierarchy) (n : Nat) (expected : Option Ty) (s : Session)
    (hs : Expr.maxNesting ≤ s.depth + n) :
    ((construct h (.follow n) expected).run s).1 = .error .tooDeep := by
  -- A receiver is typed one level deeper, with one field access less behind it.
  induction n generalizing expected s with
  | zero =>
    rw [construct.eq_def]
    exact nested_tooDeep hs
  | succ n ih =>
    rw [construct.eq_def]
    by_cases hroom : s.depth < Expr.maxNesting
    · refine nested_error hroom (bind_error (ih none _ ?_))
      change Expr.maxNesting ≤ s.depth + 1 + n
      omega
    · exact nested_tooDeep (Nat.le_of_not_lt hroom)

def Sample.links : Hierarchy where
  nodes := [⟨"Node", none, [("next", .node "Node")]⟩]
  faultless := rfl

def Sample.followed (n : Nat) : PropertyDecl := ⟨⟨"Node", "followed", false⟩, none, .follow n⟩

theorem Sample.construct_followed {n : Nat} (hn : Expr.maxNesting ≤ n) :
    (Sample.followed n).construct Sample.links = .error .tooDeep := by
  refine PropertyDecl.construct_eq_error_iff.mpr (.inr ⟨rfl, ?_⟩)
  apply Construction.construct_follow
  show Expr.maxNesting ≤ 0 + n
  omega

/-- One level besides 300 field accesses, which bring the tree beyond the limit. -/
theorem Sample.followed_height :
    (Expr.follow 300).operandHeight ≤ Expr.maxNesting ∧
      (Expr.follow 300).height ≤ (Expr.follow 300).operandHeight + (Expr.follow 300).fieldDepth ∧
      Expr.maxNesting < (Expr.follow 300).operandHeight + (Expr.follow 300).fieldDepth := by
  obtain ⟨hoperands, hheight, hrefused⟩ := Expr.parse_operandHeight_le (Expr.parse_follow 300)
  refine ⟨hoperands, hheight, ?_⟩
  exact hrefused Sample.links (Sample.followed 300) rfl (Sample.construct_followed (by decide))

/-- Not every tree that is read has at most `maxNesting` levels, and not every one is typed: with
256 field accesses there is one level too many, whatever the fields are. -/
theorem Expr.parse_height_exceeds :
    Expr.parse (Expr.follow 256).display = .ok (Expr.follow 256) ∧
      Expr.maxNesting < (Expr.follow 256).height ∧
      (Sample.followed 256).construct Sample.links = .error .tooDeep := by
  have hhigh : Expr.maxNesting < (Expr.follow 256).height := by
    rw [Expr.height_follow]
    decide
  exact ⟨Expr.parse_follow 256, hhigh, Sample.construct_followed (Nat.le_refl _)⟩

end FrontEnd
