import FrontEnd.Proofs.Coverage

namespace FrontEnd.Expr

theorem Scan.places_ofLexemes (source : String) (problems : List Diagnostic) {stop : Lexeme}
    (hstop : stop.kind = none) (ts : List Lexeme) (hts : ∀ t ∈ ts, t.kind.isSome) :
    (Scan.ofLexemes source problems (ts ++ [stop])).stream.places =
      (ts ++ [stop]).map (·.span.start) := by
  induction ts with
  | nil => simp [Scan.ofLexemes, hstop, Scan.stream, Stream.places]
  | cons t ts ih =>
    obtain ⟨ht, hts⟩ := List.forall_mem_cons.mp hts
    obtain ⟨kind, hkind⟩ := Option.isSome_iff_exists.mp ht
    rw [List.cons_append, List.map_cons, ← ih hts]
    simp [Scan.ofLexemes, hkind, Scan.stream, Stream.places]

theorem Scan.places_ofText (fileId : Nat) (text : String) :
    (Scan.ofText fileId text).stream.places = (lex fileId text).lexemes.map (·.span.start) := by
  have hended := (covers_lex fileId text).ended
  rw [Scan.ofText, hended]
  apply Scan.places_ofLexemes
  · rfl
  · intro t ht
    exact (List.mem_filter.mp ht).2

theorem Lexed.Covers.start_le {fileId : Nat} {source : String} {l : Lexed}
    (h : l.Covers fileId source) {t : Lexeme} (ht : t ∈ l.lexemes) :
    t.span.start ≤ source.utf8ByteSize := by
  rw [h.ended] at ht
  rcases List.mem_append.mp ht with ht | ht
  · have hspan : t.span ∈ l.tokenSpans ++ l.problemSpans :=
      List.mem_append_left _ (List.mem_map_of_mem ht)
    obtain ⟨-, hlt, hle⟩ := h.inside t.span hspan
    exact Nat.le_trans (Nat.le_of_lt hlt) hle
  · rw [List.mem_singleton.mp ht]

theorem Stream.read_placed {s : Stream} {e : ParseError} (h : s.read = .error e) :
    e.position ∈ s.places := by
  obtain ⟨r, c, hr, ho⟩ := Parser.whole_goes s {}
  have hread : s.read = r := by simp only [read, hr, Option.get_some]
  exact ho.placed e (hread.symm.trans h)

theorem parse_eq_parse_iff {text message : String} :
    parse text = .error (.parse message) ↔ (Scan.ofText 0 text).problems = [] ∧
      ∃ e, (Scan.ofText 0 text).stream.read = .error e ∧ e.message = message := by
  unfold parse
  dsimp only
  cases (Scan.ofText 0 text).problems with
  | cons d ds => simp
  | nil => cases (Scan.ofText 0 text).stream.read <;> simp

/-- How an expression that was asked for at `c` is read, up to `c'`. -/
structure Parser.Bounded (s : Stream) (c : Cursor) (r : Except ParseError Expr) (c' : Cursor) :
    Prop where
  /-- The depth is put back, whether the expression was read or not. -/
  restored : c'.depth = c.depth
  /-- Where no more expressions may be let in, the call returns at once, and nothing else is done. -/
  turned_away : maxNesting ≤ c.depth →
    c' = ⟨c.position, c.depth, .returned :: .called :: c.history⟩ ∧
      ∃ position, r = .error ⟨.tooDeep, position⟩
  /-- The calls from here on return. Active at once are as many as may be let in and one more, which
  is turned away. -/
  nested : ∃ events, c'.history = events ++ c.history ∧
    Event.Nested (maxNesting - c.depth + 1) events
  /-- One token at least is passed to read an expression, and the end is not. -/
  passed : ∀ e, r = .ok e → c.position < c'.position ∧ c'.position ≤ s.tokens.size
  /-- A fault is noticed where a token begins, the end being one. -/
  placed : ∀ e, r = .error e → e.position ∈ s.places

theorem Parser.Orderly.bounded {s : Stream} {c c' : Cursor} {r : Except ParseError Expr}
    (ho : Orderly s (maxNesting - c.depth + 1) 1 c r c')
    (hr : outcome s.expression c = some (r, c')) : Bounded s c r c' where
  restored := ho.depth
  turned_away := by
    intro hfull
    have hrefused := outcome_admitted s c.noteCall
    rw [if_pos (show maxNesting ≤ c.noteCall.depth from hfull)] at hrefused
    rw [outcome_expression, hrefused] at hr
    cases hr
    exact ⟨rfl, _, rfl⟩
  nested := ho.nested
  passed := by
    intro e he
    have hpassed : c.position + 1 ≤ c'.position := ho.passed e he
    have hinside := ho.inside
    omega
  placed := ho.placed

/-- Reading an expression always comes to an end: at any place of any tokens, whatever they are, and
with any number of expressions being read. At no time are more calls active than expressions may be
let in and one, and a call that finds no place returns at once with nothing done. Reading an
expression passes a token at least and never the end, and the depth is put back in any case. A text
that is not read is refused at the beginning of one of its tokens or at its end, and so inside the
text. -/
theorem parse_bounded :
    (∀ (s : Stream) (c : Cursor), ∃ r c',
      Parser.outcome s.expression c = some (r, c') ∧ Parser.Bounded s c r c') ∧
    ∀ text message, parse text = .error (.parse message) →
      ∃ e, (Scan.ofText 0 text).stream.read = .error e ∧ e.message = message ∧
        ∃ t ∈ (lex 0 text).lexemes,
          t.span.start = e.position ∧ e.position ≤ text.utf8ByteSize := by
  constructor
  · intro s c
    obtain ⟨r, c', hr, ho⟩ := Parser.expression_goes s _ c rfl
    exact ⟨r, c', hr, ho.bounded hr⟩
  · intro text message h
    obtain ⟨-, e, he, hmessage⟩ := parse_eq_parse_iff.mp h
    have hplaced : e.position ∈ (lex 0 text).lexemes.map (·.span.start) := by
      rw [← Scan.places_ofText]
      exact Stream.read_placed he
    obtain ⟨t, ht, hposition⟩ := List.mem_map.mp hplaced
    have hle : t.span.start ≤ text.utf8ByteSize := (covers_lex 0 text).start_le ht
    exact ⟨e, he, hmessage, t, ht, hposition, hposition ▸ hle⟩

theorem Parser.chain_lParen {s : Stream} {c c' : Cursor} {t : Token} {e : ParseError}
    (ht : s.tokens[c.position]? = some t) (hk : t.kind = .lParen)
    (hinside : outcome s.expression c.advance = some (.error e, c')) :
    outcome s.chain c = some (.error e, c') := by
  have hnext : outcome s.next c = some (.ok (some t), c.advance) := by
    rw [outcome_next, ht]
    rfl
  rw [Stream.chain, outcome_bind, Stream.primary, outcome_bind, hnext]
  dsimp only
  rw [hk]
  dsimp only
  -- What is inside fails, so nothing is read behind it.
  rw [outcome_bind, hinside]

/-- Each opening parenthesis calls for one more expression, until one is turned away; then all of
them return. -/
theorem Parser.history_openings {s : Stream} (hopen : ∀ t ∈ s.tokens, t.kind = .lParen) (n : Nat)
    (c : Cursor) (hc : maxNesting - c.depth = n) (hlen : c.position + n ≤ s.tokens.size) :
    ∃ e c', outcome s.expression c = some (.error e, c') ∧
      c'.history =
        List.replicate (n + 1) .returned ++ (List.replicate (n + 1) .called ++ c.history) := by
  induction n generalizing c with
  | zero =>
    obtain ⟨r, c', hr, ho⟩ := expression_goes s _ c rfl
    obtain ⟨rfl, position, rfl⟩ := (ho.bounded hr).turned_away (Nat.le_of_sub_eq_zero hc)
    exact ⟨_, _, hr, rfl⟩
  | succ n ih =>
    -- The call is let in, passes its parenthesis, and calls for what is inside.
    have hroom : ¬ maxNesting ≤ c.noteCall.depth := by
      change ¬ maxNesting ≤ c.depth
      omega
    have hlt : c.position < s.tokens.size := by omega
    have hc' : maxNesting - c.noteCall.enter.advance.depth = n := by
      change maxNesting - (c.depth + 1) = n
      omega
    have hlen' : c.noteCall.enter.advance.position + n ≤ s.tokens.size := by
      change c.position + 1 + n ≤ s.tokens.size
      omega
    obtain ⟨e, c', hinside, hhistory⟩ := ih _ hc' hlen'
    have hchain : outcome s.chain c.noteCall.enter = some (.error e, c') :=
      chain_lParen (Array.getElem?_eq_getElem hlt) (hopen _ (Array.getElem_mem hlt)) hinside
    refine ⟨e, c'.leave.noteReturn, ?_, ?_⟩
    · rw [outcome_expression, outcome_admitted, if_neg hroom, hchain]
      rfl
    · change .returned :: c'.history = _
      rw [hhistory, List.replicate_succ' (n := n + 1) (a := Event.called)]
      simp [Cursor.noteCall, Cursor.enter, Cursor.advance, List.replicate_succ]

theorem Event.active_calls (n : Nat) : active (List.replicate n .called) = n := by
  simp [active, List.count_replicate]

def Sample.openings (n : Nat) : Stream where
  tokens := Array.ofFn fun i : Fin n => ⟨.lParen, ⟨0, i, i + 1⟩, "("⟩
  stop := n

theorem Sample.openings_kind {n : Nat} : ∀ t ∈ (openings n).tokens, t.kind = .lParen := by
  intro t ht
  obtain ⟨i, rfl⟩ := Array.mem_ofFn.mp ht
  rfl

/-- Of 257 calls that are active at once the last one is turned away. -/
theorem parse_calls_exceed : ∃ r c' past,
    Parser.outcome (Sample.openings 257).expression {} = some (r, c') ∧ past <:+ c'.history ∧
      Event.active past = maxNesting + 1 := by
  have hlen : 0 + maxNesting ≤ (Sample.openings 257).tokens.size := by
    simp [Sample.openings, maxNesting]
  obtain ⟨e, c', hr, hhistory⟩ :=
    Parser.history_openings Sample.openings_kind maxNesting {} (Nat.sub_zero _) hlen
  refine ⟨.error e, c', List.replicate (maxNesting + 1) .called, hr, ?_, Event.active_calls _⟩
  rw [hhistory, List.append_nil]
  exact List.suffix_append _ _

end FrontEnd.Expr
