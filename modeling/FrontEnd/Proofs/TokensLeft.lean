import FrontEnd.Expr.Parser

/-!
Reading as a function of the tokens that are left. Each step is given the tokens behind those that
are passed, and says that it leaves fewer; nesting is bounded by a number of places that goes down.
The parser goes the same way over the same tokens, so what it reads is what these functions read.
-/
namespace FrontEnd.Expr

/-- What was read, and the tokens left, fewer than `limit`. -/
structure Parsed (α : Type) (limit : Nat) where
  value : α
  rest : List Token
  within : rest.length < limit

abbrev Step (α : Type) := (ts : List Token) → Except ParseError (Parsed α ts.length)

def nextPosition (stop : Nat) (ts : List Token) : Nat := (ts.head?.map (·.span.start)).getD stop

def fields (stop : Nat) (e : Expr) :
    (ts : List Token) → Except ParseError (Parsed Expr (ts.length + 1))
  | [] => .ok ⟨e, [], Nat.zero_lt_succ _⟩
  | [t] => if t.kind = .dot then .error ⟨.noFieldName, stop⟩ else .ok ⟨e, [t], Nat.lt_succ_self _⟩
  | t :: u :: ts =>
    if t.kind = .dot then
      if u.kind = .ident then do
        let r ← fields stop (.field e u.text) ts
        .ok ⟨r.value, r.rest, Nat.lt_succ_of_lt (Nat.lt_succ_of_lt r.within)⟩
      else .error ⟨.noFieldName, u.span.start⟩
    else .ok ⟨e, t :: u :: ts, Nat.lt_succ_self _⟩

def operands (item : Step Expr) :
    Nat → (ts : List Token) → Except ParseError (Parsed (List Expr) (ts.length + 1))
  | 0, ts => .ok ⟨[], ts, Nat.lt_succ_self _⟩
  | n + 1, ts => do
    let e ← item ts
    let es ← operands item n e.rest
    .ok ⟨e.value :: es.value, es.rest,
      Nat.lt_of_lt_of_le es.within (Nat.le_succ_of_le (Nat.succ_le_of_lt e.within))⟩

def elements (item : Step Expr) (ts : List Token) :
    Except ParseError (Parsed (List Expr) (ts.length + 1)) :=
  match ts with
  | [] => .ok ⟨[], [], Nat.zero_lt_succ _⟩
  | t :: ts =>
    if t.kind = .rBracket then .ok ⟨[], t :: ts, Nat.lt_succ_self _⟩
    else do
      let e ← item (t :: ts)
      let es ← elements item e.rest
      .ok ⟨e.value :: es.value, es.rest,
        Nat.lt_of_lt_of_le es.within (Nat.le_succ_of_le (Nat.succ_le_of_lt e.within))⟩
termination_by ts.length
decreasing_by exact e.within

def closing (stop : Nat) (kind : TokenKind) (fault : ParseFault) {α : Type} {limit : Nat}
    (r : Parsed α limit) : Except ParseError (Parsed α limit) :=
  match r with
  | ⟨_, [], _⟩ => .error ⟨fault, stop⟩
  | ⟨a, t :: ts, h⟩ =>
    if t.kind = kind then .ok ⟨a, ts, Nat.lt_of_succ_lt h⟩ else .error ⟨fault, t.span.start⟩

def named (item : Step Expr) (word : String) (position : Nat) (ts : List Token) :
    Except ParseError (Parsed Expr (ts.length + 1)) :=
  match word with
  | "Self" => .ok ⟨.self, ts, Nat.lt_succ_self _⟩
  | "Env" => .ok ⟨.env, ts, Nat.lt_succ_self _⟩
  | "EmptyEnv" => .ok ⟨.emptyEnv, ts, Nat.lt_succ_self _⟩
  | word =>
    match Operation.ofName? word with
    | none => .error ⟨.unknownOperation word, position⟩
    | some op => do
      let es ← operands item op.arity ts
      match op.build? es.value with
      | none => .error ⟨.invalidOperands word, position⟩
      | some e => .ok ⟨e, es.rest, es.within⟩

/-- Reads an expression without the field accesses behind it; `item` reads those inside it. -/
def primary (stop : Nat) (item : Step Expr) : Step Expr
  | [] => .error ⟨.endOfInput, stop⟩
  | t :: ts =>
    match t.kind with
    | .int =>
      match int64Value? t.text with
      | some n => .ok ⟨.literal (.int n), ts, Nat.lt_succ_self _⟩
      | none => .error ⟨.integerRange, t.span.start⟩
    | .string =>
      .ok ⟨.literal (.text (String.ofList (unescape t.text.toList))), ts, Nat.lt_succ_self _⟩
    | .bool => .ok ⟨.ofBool (t.text == "true"), ts, Nat.lt_succ_self _⟩
    | .lParen => do
      let r ← item ts
      closing stop .rParen .noClosingParen ⟨r.value, r.rest, Nat.lt_succ_of_lt r.within⟩
    | .lBracket => do
      let r ← elements item ts
      closing stop .rBracket .noClosingBracket ⟨.array r.value, r.rest, r.within⟩
    | .ident => named item t.text t.span.start ts
    | .rParen | .rBracket | .dot => .error ⟨.noExpression, t.span.start⟩

/-- Reads an expression in which no more than `room` expressions are nested in one another. -/
def expression (stop : Nat) : Nat → Step Expr
  | 0, ts => .error ⟨.tooDeep, nextPosition stop ts⟩
  | room + 1, ts => do
    let head ← primary stop (expression stop room) ts
    let r ← fields stop head.value head.rest
    .ok ⟨r.value, r.rest, Nat.lt_of_lt_of_le r.within (Nat.succ_le_of_lt head.within)⟩

def ofTokens (stop : Nat) (ts : List Token) : Except ParseError Expr := do
  let r ← expression stop maxNesting ts
  match r.rest with
  | [] => .ok r.value
  | t :: _ => .error ⟨.trailing, t.span.start⟩

def Stream.left (s : Stream) (c : Cursor) : List Token := s.tokens.toList.drop c.position

theorem Stream.ahead_eq (s : Stream) (c : Cursor) :
    s.tokens[c.position]? = (s.left c).head? := by
  rw [left, List.head?_drop, Array.getElem?_toList]

theorem Stream.left_advance (s : Stream) (c : Cursor) : s.left c.advance = (s.left c).tail := by
  rw [left, left, List.tail_drop]
  rfl

namespace Parser

variable {α β : Type} {limit limit' : Nat} {s : Stream} {c : Cursor}

/-- The step comes from `c` to what is read from the tokens left there. -/
def Mirrors (s : Stream) (m : Parser α) (c : Cursor) :
    Except ParseError (Parsed α limit) → Prop
  | .ok p => ∃ c', outcome m c = some (.ok p.value, c') ∧ s.left c' = p.rest ∧ c'.depth = c.depth
  | .error e => ∃ c', outcome m c = some (.error e, c')

namespace Mirrors

theorem pure {a : α} {ts : List Token} (hts : s.left c = ts) {h : ts.length < limit} :
    Mirrors s (Pure.pure a) c (.ok ⟨a, ts, h⟩) :=
  ⟨c, outcome_pure a c, hts, rfl⟩

theorem fail {t : Option Token} {fault : ParseFault} {position : Nat}
    (hp : s.place t = position) :
    Mirrors s (s.fail t fault : Parser α) c
      (.error ⟨fault, position⟩ : Except ParseError (Parsed α limit)) := by
  subst hp
  exact ⟨c, outcome_fail s t fault c⟩

theorem after {m : Parser α} {f : α → Parser β} {a : α} {c' : Cursor}
    {v : Except ParseError (Parsed β limit)} (hm : outcome m c = some (.ok a, c'))
    (hd : c'.depth = c.depth) (hf : Mirrors s (f a) c' v) : Mirrors s (m >>= f) c v := by
  cases v with
  | error e =>
    obtain ⟨c'', hc''⟩ := hf
    refine ⟨c'', ?_⟩
    rw [outcome_bind, hm]
    exact hc''
  | ok q =>
    obtain ⟨c'', hc'', hrest, hdepth⟩ := hf
    refine ⟨c'', ?_, hrest, hdepth.trans hd⟩
    rw [outcome_bind, hm]
    exact hc''

theorem stop {m : Parser α} (f : α → Parser β) {e : ParseError} {c' : Cursor}
    (hm : outcome m c = some (.error e, c')) :
    Mirrors s (m >>= f) c (.error e : Except ParseError (Parsed β limit)) := by
  refine ⟨c', ?_⟩
  rw [outcome_bind, hm]

theorem bind {m : Parser α} {f : α → Parser β} {v : Except ParseError (Parsed α limit)}
    {g : Parsed α limit → Except ParseError (Parsed β limit')} (hm : Mirrors s m c v)
    (hf : ∀ a c' h, c'.depth = c.depth → Mirrors s (f a) c' (g ⟨a, s.left c', h⟩)) :
    Mirrors s (m >>= f) c (v >>= g) := by
  cases v with
  | error e =>
    obtain ⟨c', hc'⟩ := hm
    exact stop f hc'
  | ok p =>
    obtain ⟨a, rest, h⟩ := p
    obtain ⟨c', hc', rfl, hdepth⟩ := hm
    exact after hc' hdepth (hf a c' h hdepth)

theorem widen {m : Parser α} {v : Except ParseError (Parsed α limit)} (hm : Mirrors s m c v)
    (h : ∀ p : Parsed α limit, p.rest.length < limit') :
    Mirrors s m c (v >>= fun p => .ok ⟨p.value, p.rest, h p⟩) := by
  cases v with
  | error e => exact hm
  | ok p => exact hm

end Mirrors

section

variable {t : Token} {ts : List Token}

theorem outcome_ahead_left (s : Stream) (c : Cursor) :
    outcome s.ahead c = some (.ok ((s.left c).head?.map (·.kind)), c) := by
  rw [outcome_ahead, s.ahead_eq]

theorem outcome_next_cons (hts : s.left c = t :: ts) :
    outcome s.next c = some (.ok (some t), c.advance) := by
  rw [outcome_next, s.ahead_eq, hts]
  rfl

theorem outcome_next_nil (hts : s.left c = []) : outcome s.next c = some (.ok none, c) := by
  rw [outcome_next, s.ahead_eq, hts]
  rfl

theorem left_advance_cons (hts : s.left c = t :: ts) : s.left c.advance = ts := by
  rw [s.left_advance, hts, List.tail_cons]

theorem outcome_expect_cons (hts : s.left c = t :: ts) (kind : TokenKind) (fault : ParseFault) :
    outcome (s.expect kind fault) c =
      some (if t.kind = kind then .ok t else .error ⟨fault, t.span.start⟩, c.advance) := by
  rw [Stream.expect, outcome_bind, outcome_next_cons hts]
  dsimp only
  split <;> rfl

theorem outcome_expect_nil (hts : s.left c = []) (kind : TokenKind) (fault : ParseFault) :
    outcome (s.expect kind fault) c = some (.error ⟨fault, s.stop⟩, c) := by
  rw [Stream.expect, outcome_bind, outcome_next_nil hts]
  rfl

end

theorem closing_mirrors (kind : TokenKind) (fault : ParseFault) (a : α)
    {h : (s.left c).length < limit} :
    Mirrors s (do let _ ← s.expect kind fault; return a) c
      (closing s.stop kind fault ⟨a, s.left c, h⟩) := by
  -- What is read stands between brackets if the closing one is ahead.
  generalize hts : s.left c = ts at h
  cases ts with
  | nil => exact .stop _ (outcome_expect_nil hts kind fault)
  | cons t ts =>
    have hexpect := outcome_expect_cons hts kind fault
    rw [closing]
    split
    · next hk =>
      rw [if_pos hk] at hexpect
      exact .after hexpect rfl (.pure (left_advance_cons hts))
    · next hk =>
      rw [if_neg hk] at hexpect
      exact .stop _ hexpect

theorem fields_mirrors (e : Expr) (c : Cursor) (ts : List Token) (hts : s.left c = ts) :
    Mirrors s (s.fields e) c (Expr.fields s.stop e ts) := by
  -- Each field access behind an expression is two tokens, for the parser as for the tokens
  -- left.
  rw [Stream.fields]
  refine .after (outcome_ahead_left s c) rfl ?_
  rw [hts]
  rcases ts with _ | ⟨t, _ | ⟨u, ts⟩⟩
  case nil => exact .pure hts
  case cons.nil =>
    -- A dot that stands last has no name behind it.
    rw [Expr.fields, List.head?_cons, Option.map_some]
    split
    · next hdot =>
      rw [if_pos (Option.some.inj hdot)]
      refine .after (outcome_next_cons hts) rfl ?_
      exact .stop _ (outcome_expect_nil (left_advance_cons hts) .ident .noFieldName)
    · next hdot =>
      rw [if_neg fun h => hdot (congrArg some h)]
      exact .pure hts
  case cons.cons =>
    rw [Expr.fields, List.head?_cons, Option.map_some]
    split
    · next hdot =>
      rw [if_pos (Option.some.inj hdot)]
      refine .after (outcome_next_cons hts) rfl ?_
      have hu : s.left c.advance = u :: ts := left_advance_cons hts
      have hexpect := outcome_expect_cons hu .ident .noFieldName
      split
      · next hident =>
        rw [if_pos hident] at hexpect
        refine .after hexpect rfl ?_
        exact (fields_mirrors (.field e u.text) _ ts (left_advance_cons hu)).widen _
      · next hident =>
        rw [if_neg hident] at hexpect
        exact .stop _ hexpect
    · next hdot =>
      rw [if_neg fun h => hdot (congrArg some h)]
      exact .pure hts
termination_by (s.left c).length
decreasing_by
  rw [hts, left_advance_cons hu]
  exact Nat.lt_add_of_pos_right Nat.two_pos

section

variable {n : Nat} {item : Step Expr}

/-- Where `n` more expressions may be let in, the parser reads one as `item` does. -/
def Agrees (s : Stream) (n : Nat) (item : Step Expr) : Prop :=
  ∀ (c : Cursor) (ts : List Token), maxNesting - c.depth = n → s.left c = ts →
    Mirrors s s.expression c (item ts)

variable (hitem : Agrees s n item)
include hitem

theorem operands_mirrors (k : Nat) (c : Cursor) (hc : maxNesting - c.depth = n) :
    Mirrors s (s.operands k) c (Expr.operands item k (s.left c)) := by
  induction k generalizing c with
  | zero =>
    rw [Stream.operands]
    exact .pure rfl
  | succ k ih =>
    rw [Stream.operands]
    refine (hitem c _ hc rfl).bind fun e c' h hd => ?_
    have hc' : maxNesting - c'.depth = n := by rw [hd, hc]
    exact (ih c' hc').bind fun es c'' _ _ => .pure rfl

theorem elements_mirrors (c : Cursor) (hc : maxNesting - c.depth = n) (ts : List Token)
    (hts : s.left c = ts) : Mirrors s s.elements c (Expr.elements item ts) := by
  -- No elements are read where no tokens are left, nor where a closing bracket is ahead.
  rw [Stream.elements]
  refine .after (outcome_ahead_left s c) rfl ?_
  cases ts with
  | nil =>
    rw [hts, Expr.elements]
    exact .pure hts
  | cons t ts =>
    rw [hts, Expr.elements, List.head?_cons, Option.map_some]
    split
    · next hnone => cases hnone
    · next hclosing =>
      rw [if_pos (Option.some.inj hclosing)]
      exact .pure hts
    · next hclosing =>
      rw [if_neg fun h => hclosing (congrArg some h)]
      refine (hitem c _ hc hts).bind fun e c' h hd => ?_
      have hc' : maxNesting - c'.depth = n := by rw [hd, hc]
      exact (elements_mirrors c' hc' _ rfl).bind fun es c'' _ _ => .pure rfl
termination_by (s.left c).length
decreasing_by
  rw [hts]
  exact h

theorem named_mirrors (t : Token) (c : Cursor) (hc : maxNesting - c.depth = n) :
    Mirrors s (s.named t) c (Expr.named item t.text t.span.start (s.left c)) := by
  rw [Stream.named]
  generalize t.text = word
  split
  · exact .pure rfl
  · exact .pure rfl
  · exact .pure rfl
  · next hself henv hemptyEnv =>
    simp only [Expr.named]
    cases Operation.ofName? word with
    | none => exact .fail rfl
    | some op =>
      refine (operands_mirrors hitem op.arity c hc).bind fun es c' _ _ => ?_
      dsimp only
      cases op.build? es with
      | none => exact .fail rfl
      | some e => exact .pure rfl

theorem primary_mirrors (c : Cursor) (hc : maxNesting - c.depth = n) (ts : List Token)
    (hts : s.left c = ts) :
    Mirrors s s.primary c (Expr.primary s.stop item ts) := by
  rw [Stream.primary]
  cases ts with
  | nil =>
    refine .after (outcome_next_nil hts) rfl ?_
    exact .fail rfl
  | cons t ts =>
    refine .after (outcome_next_cons hts) rfl ?_
    have hleft : s.left c.advance = ts := left_advance_cons hts
    subst hleft
    rw [Expr.primary]
    dsimp only
    -- Both look at the same token, and at what stands behind it only through their items.
    generalize t.kind = kind
    cases kind
    case int =>
      cases int64Value? t.text with
      | none => exact .fail rfl
      | some i => exact .pure rfl
    case string => exact .pure rfl
    case bool => exact .pure rfl
    case lParen =>
      exact (hitem c.advance _ hc rfl).bind fun e c' _ _ => closing_mirrors _ _ e
    case lBracket =>
      dsimp only
      refine (elements_mirrors hitem c.advance hc _ rfl).bind fun es c' _ _ => ?_
      exact closing_mirrors .rBracket .noClosingBracket (array es)
    case ident => exact named_mirrors hitem t c.advance hc
    all_goals exact .fail rfl

end

theorem Mirrors.called {v : Except ParseError (Parsed Expr limit)}
    (hadmitted : Mirrors s s.admitted c.noteCall v) : Mirrors s s.expression c v := by
  cases v with
  | error e =>
    obtain ⟨c', hc'⟩ := hadmitted
    refine ⟨c'.noteReturn, ?_⟩
    rw [outcome_expression, hc']
    rfl
  | ok p =>
    obtain ⟨c', hc', hrest, hdepth⟩ := hadmitted
    refine ⟨c'.noteReturn, ?_, hrest, hdepth⟩
    rw [outcome_expression, hc']
    rfl

theorem Mirrors.deeper {v : Except ParseError (Parsed Expr limit)} (hroom : ¬ maxNesting ≤ c.depth)
    (hchain : Mirrors s s.chain c.enter v) : Mirrors s s.admitted c v := by
  have hadmitted := outcome_admitted s c
  rw [if_neg hroom] at hadmitted
  cases v with
  | error e =>
    obtain ⟨c', hc'⟩ := hchain
    refine ⟨c'.leave, ?_⟩
    rw [hadmitted, hc']
    rfl
  | ok p =>
    obtain ⟨c', hc', hrest, hdepth⟩ := hchain
    refine ⟨c'.leave, ?_, hrest, ?_⟩
    · rw [hadmitted, hc']
      rfl
    · change c'.depth - 1 = c.depth
      rw [hdepth]
      rfl

theorem expression_mirrors (s : Stream) (n : Nat) : Agrees s n (Expr.expression s.stop n) := by
  -- By induction on how many more expressions may be let in, as the parser comes to an end.
  induction n with
  | zero =>
    intro c ts hc hts
    have hfull : maxNesting ≤ c.noteCall.depth := Nat.le_of_sub_eq_zero hc
    refine Mirrors.called ⟨c.noteCall, ?_⟩
    rw [outcome_admitted, if_pos hfull, s.ahead_eq]
    change some (Except.error (ParseError.mk _ (s.place (s.left c).head?)), _) = _
    rw [hts]
    cases ts <;> rfl
  | succ n ih =>
    intro c ts hc hts
    have hroom : ¬ maxNesting ≤ c.noteCall.depth := by
      change ¬ maxNesting ≤ c.depth
      omega
    have henter : maxNesting - c.noteCall.enter.depth = n := by
      change maxNesting - (c.depth + 1) = n
      omega
    apply Mirrors.called
    apply Mirrors.deeper hroom
    rw [Stream.chain]
    refine (primary_mirrors ih c.noteCall.enter henter ts hts).bind fun e c' h _ => ?_
    exact (fields_mirrors e c' _ rfl).widen _

theorem whole_mirrors (s : Stream) :
    ∃ c, outcome s.whole {} = some (ofTokens s.stop s.tokens.toList, c) := by
  have hmirrors := expression_mirrors s maxNesting {} s.tokens.toList rfl rfl
  rw [ofTokens, Stream.whole, outcome_bind]
  generalize Expr.expression s.stop maxNesting s.tokens.toList = v at hmirrors ⊢
  cases v with
  | error e =>
    obtain ⟨c, hc⟩ := hmirrors
    rw [hc]
    exact ⟨c, rfl⟩
  | ok p =>
    obtain ⟨e, rest, _⟩ := p
    obtain ⟨c, hc, hrest, -⟩ := hmirrors
    refine ⟨c, ?_⟩
    rw [hc]
    dsimp only
    rw [outcome_bind, outcome_peek, s.ahead_eq, hrest]
    cases rest <;> rfl

end Parser

theorem Scan.read_stream (s : Scan) : s.stream.read = ofTokens s.stop s.tokens := by
  obtain ⟨c, hc⟩ := Parser.whole_mirrors s.stream
  simp only [Stream.read, hc, Option.get_some]
  rfl

end FrontEnd.Expr
