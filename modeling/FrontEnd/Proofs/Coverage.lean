import FrontEnd.Expr.Parser
import FrontEnd.Proofs.Pieces

/-!
What is read from a text covers it. Tokens and errors take spans that keep apart, in the order of
the text, and leave out nothing but blanks. What a token says stands inside its span, between
characters. So the first error is the one that stands first in the text.
-/
namespace FrontEnd

/-- One of the spans ends before the other begins. -/
def Span.Apart (s t : Span) : Prop := s.stop ≤ t.start ∨ t.stop ≤ s.start

def Span.Holds (s : Span) (i : Nat) : Prop := s.start ≤ i ∧ i < s.stop

namespace Expr

/-! ### What is cut off -/

namespace Cut

variable {b : UInt8} {bs : List UInt8} {n : Nat} {kind : TokenKind}

theorem getElem?_beforeQuote (h : beforeQuote? bs = some n) :
    ∃ q, bs[n]? = some q ∧ Char.ofUInt8 q = '"' := by
  fun_induction beforeQuote? bs generalizing n with
  | case1 => cases h
  | case2 b bs hquote =>
    cases h
    exact ⟨b, rfl, hquote⟩
  | case3 => cases h
  | case4 b hquote hback c bs ih =>
    obtain ⟨k, hk, rfl⟩ := Option.map_eq_some_iff.mp h
    exact ih hk
  | case5 b bs hquote hback ih =>
    obtain ⟨k, hk, rfl⟩ := Option.map_eq_some_iff.mp h
    exact ih hk

theorem single?_ne_string {c : Char} (h : single? c = some kind) : kind ≠ .string := by
  unfold single? at h
  split at h
  case h_6 => cases h
  all_goals
    cases h
    decide

theorem wordKind_ne_string (cs : List Char) : wordKind cs ≠ .string := by
  unfold wordKind
  split <;> decide

/-- What can be cut off a text that begins with the byte `b`, with `n` of the bytes behind it. -/
inductive Takes (b : UInt8) (bs : List UInt8) : Cut → Nat → Prop where
  | blank (hb : isSpace (.ofUInt8 b) = true) : Takes b bs .blank 0
  | plain {n : Nat} {kind : TokenKind} (hkind : kind ≠ .string) (hn : n ≤ bs.length) :
    Takes b bs (.token kind 0) n
  | quoted {n : Nat} {q : UInt8} (hopen : Char.ofUInt8 b = '"') (hq : bs[n]? = some q)
    (hclose : Char.ofUInt8 q = '"') : Takes b bs (.token .string 1) (n + 1)
  | problem {n : Nat} {code message : String} (hn : n ≤ bs.length) :
    Takes b bs (.problem code message) n

theorem first_takes (b : UInt8) (bs : List UInt8) : Takes b bs (first b bs).1 (first b bs).2 := by
  unfold first
  dsimp only
  split
  · next hspace => exact .blank hspace
  split
  · next hsingle => exact .plain (single?_ne_string hsingle) (Nat.zero_le _)
  split
  · next hopen =>
    split
    · next hquote =>
      obtain ⟨q, hq, hclose⟩ := getElem?_beforeQuote hquote
      exact .quoted hopen hq hclose
    · exact .problem (Nat.le_refl _)
  split
  · exact .plain (by decide) (List.takeWhile_sublist _).length_le
  split
  · exact .plain (wordKind_ne_string _) (List.takeWhile_sublist _).length_le
  · exact .problem (List.takeWhile_sublist _).length_le

theorem Takes.le {cut : Cut} (h : Takes b bs cut n) : n ≤ bs.length := by
  cases h with
  | blank => exact Nat.zero_le _
  | plain _ hn | problem hn => exact hn
  | quoted _ hq => exact (List.getElem?_eq_some_iff.mp hq).1

end Cut

/-! ### How spans lie -/

/-- From the place `start` on, the spans of tokens and those of problems lie in the bytes as they
should. -/
structure Tiled (fileId : Nat) (bytes : List UInt8) (start : Nat) (tokens problems : List Span) :
    Prop where
  inside : ∀ s ∈ tokens ++ problems,
    s.fileId = fileId ∧ start ≤ s.start ∧ s.start < s.stop ∧ s.stop ≤ bytes.length
  tokens_in_order : tokens.Pairwise (·.stop ≤ ·.start)
  problems_in_order : problems.Pairwise (·.stop ≤ ·.start)
  apart : ∀ s ∈ tokens, ∀ t ∈ problems, s.Apart t
  blank : ∀ i b, start ≤ i → bytes[i]? = some b → (∀ s ∈ tokens ++ problems, ¬ s.Holds i) →
    Cut.isSpace (.ofUInt8 b) = true

namespace Tiled

variable {fileId start stop : Nat} {bytes : List UInt8} {tokens problems : List Span}

theorem nil : Tiled fileId bytes bytes.length [] [] where
  inside := by simp
  tokens_in_order := .nil
  problems_in_order := .nil
  apart := by simp
  blank := by
    intro i b hi hb
    rw [List.getElem?_eq_none hi] at hb
    cases hb

theorem swap (h : Tiled fileId bytes start tokens problems) :
    Tiled fileId bytes start problems tokens where
  inside s hs := h.inside s (by rwa [List.mem_append, or_comm, ← List.mem_append] at hs)
  tokens_in_order := h.problems_in_order
  problems_in_order := h.tokens_in_order
  apart s hs t ht := (h.apart t ht s hs).symm
  blank i b hi hb hnone := h.blank i b hi hb fun s hs =>
    hnone s (by rwa [List.mem_append, or_comm, ← List.mem_append] at hs)

theorem skip (h : Tiled fileId bytes (start + 1) tokens problems) {b : UInt8}
    (hb : bytes[start]? = some b) (hspace : Cut.isSpace (.ofUInt8 b) = true) :
    Tiled fileId bytes start tokens problems where
  inside s hs := by
    obtain ⟨hfile, hstart, hrest⟩ := h.inside s hs
    exact ⟨hfile, Nat.le_of_succ_le hstart, hrest⟩
  tokens_in_order := h.tokens_in_order
  problems_in_order := h.problems_in_order
  apart := h.apart
  blank i c hi hc hnone := by
    rcases Nat.eq_or_lt_of_le hi with rfl | hlt
    · cases hb.symm.trans hc
      exact hspace
    · exact h.blank i c hlt hc hnone

theorem cons (h : Tiled fileId bytes stop tokens problems) (hlt : start < stop)
    (hle : stop ≤ bytes.length) :
    Tiled fileId bytes start (⟨fileId, start, stop⟩ :: tokens) problems := by
  have hbehind : ∀ s ∈ tokens ++ problems, stop ≤ s.start := fun s hs => (h.inside s hs).2.1
  constructor
  case inside =>
    rw [List.cons_append, List.forall_mem_cons]
    refine ⟨⟨rfl, Nat.le_refl _, hlt, hle⟩, fun s hs => ?_⟩
    obtain ⟨hfile, hstart, hrest⟩ := h.inside s hs
    exact ⟨hfile, Nat.le_trans (Nat.le_of_lt hlt) hstart, hrest⟩
  case tokens_in_order =>
    exact .cons (fun s hs => hbehind s (List.mem_append_left _ hs)) h.tokens_in_order
  case problems_in_order => exact h.problems_in_order
  case apart =>
    rw [List.forall_mem_cons]
    exact ⟨fun t ht => .inl (hbehind t (List.mem_append_right _ ht)), h.apart⟩
  -- A byte that no span holds lies behind the new token, where the others leave it out.
  case blank =>
    intro i b hi hb hnone
    rw [List.cons_append, List.forall_mem_cons] at hnone
    have hi' : stop ≤ i := Nat.le_of_not_lt fun hlt' => hnone.1 ⟨hi, hlt'⟩
    exact h.blank i b hi' hb hnone.2

end Tiled

/-! ### What is read -/

/-- The text of the lexeme leaves out the quotes of a string literal, and nothing else of the
span. -/
structure Lexeme.Trims (bytes : List UInt8) (t : Lexeme) : Prop where
  whole : t.kind ≠ some .string → t.textStart = t.span.start ∧ t.textStop = t.span.stop
  quoted : t.kind = some .string → t.textStart = t.span.start + 1 ∧ t.span.stop = t.textStop + 1 ∧
    t.textStart ≤ t.textStop ∧ bytes[t.span.start]? = some 34 ∧ bytes[t.textStop]? = some 34

namespace Lexed

def tokens (l : Lexed) : List Lexeme := l.lexemes.filter (·.kind.isSome)

def tokenSpans (l : Lexed) : List Span := l.tokens.map (·.span)

def problemSpans (l : Lexed) : List Span := l.problems.filterMap (·.span)

/-- What is read from the bytes behind the place `start`. -/
structure Reads (fileId : Nat) (bytes : List UInt8) (start : Nat) (l : Lexed) : Prop where
  ended : l.lexemes =
    l.tokens ++ [⟨none, ⟨fileId, bytes.length, bytes.length⟩, bytes.length, bytes.length⟩]
  errors : ∀ d ∈ l.problems, d.isError ∧ d.span.isSome
  trims : ∀ t ∈ l.lexemes, t.Trims bytes
  tiled : Tiled fileId bytes start l.tokenSpans l.problemSpans

end Lexed

theorem Lexeme.trims_end (fileId stop : Nat) (bytes : List UInt8) :
    Trims bytes ⟨none, ⟨fileId, stop, stop⟩, stop, stop⟩ :=
  ⟨fun _ => ⟨rfl, rfl⟩, fun h => by cases h⟩

theorem eq_of_ofUInt8 {b d : UInt8} (h : Char.ofUInt8 b = Char.ofUInt8 d) : b = d := by
  have hval : b.toNat = d.toNat := congrArg Char.toNat h
  exact UInt8.toNat_inj.mp hval

variable {fileId start : Nat} {bytes : List UInt8} {l : Lexed}

theorem Lexed.Reads.skip (h : l.Reads fileId bytes (start + 1)) {b : UInt8}
    (hb : bytes[start]? = some b) (hspace : Cut.isSpace (.ofUInt8 b) = true) :
    l.Reads fileId bytes start :=
  ⟨h.ended, h.errors, h.trims, h.tiled.skip hb hspace⟩

theorem Lexed.Reads.token {stop : Nat} (h : l.Reads fileId bytes stop) {t : Lexeme}
    (hkind : t.kind.isSome) (hspan : t.span = ⟨fileId, start, stop⟩) (ht : t.Trims bytes)
    (hlt : start < stop) (hle : stop ≤ bytes.length) :
    Reads fileId bytes start { l with lexemes := t :: l.lexemes } := by
  have htokens : tokens { l with lexemes := t :: l.lexemes } = t :: l.tokens :=
    List.filter_cons_of_pos hkind
  constructor
  case ended =>
    rw [htokens, h.ended]
    simp [tokens]
  case errors => exact h.errors
  case trims => exact List.forall_mem_cons.mpr ⟨ht, h.trims⟩
  case tiled =>
    rw [tokenSpans, htokens, List.map_cons, hspan]
    exact h.tiled.cons hlt hle

theorem Lexed.Reads.problem {stop : Nat} (h : l.Reads fileId bytes stop) (code message : String)
    (hlt : start < stop) (hle : stop ≤ bytes.length) :
    Reads fileId bytes start
      { l with problems := Lexed.problem code message ⟨fileId, start, stop⟩ :: l.problems } where
  ended := h.ended
  errors := List.forall_mem_cons.mpr ⟨⟨rfl, rfl⟩, h.errors⟩
  trims := h.trims
  tiled := (h.tiled.swap.cons hlt hle).swap

theorem drop_eq_cons {α : Type} {xs ys : List α} {x : α} {i : Nat} (h : xs.drop i = x :: ys) :
    xs[i]? = some x ∧ xs.length = i + 1 + ys.length ∧ ∀ n, xs.drop (i + 1 + n) = ys.drop n := by
  refine ⟨by rw [← List.head?_drop, h]; rfl, ?_, fun n => ?_⟩
  · have hlength := congrArg List.length h
    rw [List.length_drop, List.length_cons] at hlength
    omega
  · rw [Nat.add_assoc, ← List.drop_drop, h, Nat.add_comm, List.drop_succ_cons]

theorem Cut.Takes.reads {b : UInt8} {bs : List UInt8} {cut : Cut} {n : Nat}
    (h : Takes b bs cut n) (hbytes : bytes.drop start = b :: bs)
    (hl : l.Reads fileId bytes (start + 1 + n)) :
    (cut.before ⟨fileId, start, start + 1 + n⟩ l).Reads fileId bytes start := by
  obtain ⟨hb, hlength, hbehind⟩ := drop_eq_cons hbytes
  have hlt : start < start + 1 + n := by omega
  have hle : start + 1 + n ≤ bytes.length := hlength ▸ Nat.add_le_add_left h.le _
  cases h with
  | blank hspace => exact hl.skip hb hspace
  | plain hkind hn =>
    refine hl.token rfl rfl ⟨fun _ => ⟨rfl, rfl⟩, fun hstring => ?_⟩ hlt hle
    exact absurd (Option.some.inj hstring) hkind
  | @quoted n q hopen hq hclose =>
    have hstop : bytes[start + 1 + n]? = some q := by
      rw [← List.head?_drop, hbehind, List.head?_drop, hq]
    rw [eq_of_ofUInt8 (d := 34) hopen] at hb
    rw [eq_of_ofUInt8 (d := 34) hclose] at hstop
    refine hl.token rfl rfl ⟨fun hstring => absurd rfl hstring, fun _ => ?_⟩ hlt hle
    exact ⟨rfl, rfl, Nat.le_add_right _ _, hb, hstop⟩
  | problem hn => exact hl.problem _ _ hlt hle

theorem lexFrom_reads (fileId : Nat) {bytes : List UInt8} {start : Nat}
    (hstart : start ≤ bytes.length) :
    (lexFrom fileId start (bytes.drop start)).Reads fileId bytes start := by
  generalize hbs : bytes.drop start = bs
  fun_induction lexFrom fileId start bs with
  | case1 start =>
    obtain rfl : start = bytes.length := Nat.le_antisymm hstart (List.drop_eq_nil_iff.mp hbs)
    exact ⟨rfl, by simp, by simpa using Lexeme.trims_end .., .nil⟩
  | case2 start b bs stop ih =>
    have htakes := Cut.first_takes b bs
    obtain ⟨-, hlength, hbehind⟩ := drop_eq_cons hbs
    exact htakes.reads hbs (ih (hlength ▸ Nat.add_le_add_left htakes.le _) (hbehind _))

/-! ### What tokens say -/

theorem text?_isSome {fileId : Nat} {source : String} {before : List Char} {ps : List Piece}
    (h : source.toList = before ++ ps.flatMap Piece.chars) :
    ∀ t ∈ (Lexed.ofPieces fileId (Scan.byteSize before) ps).lexemes, (t.text? source).isSome := by
  induction ps generalizing before with
  | nil =>
    have hend := Text.isValid_utf8 h
    refine List.forall_mem_singleton.mpr ?_
    exact Text.slice?_isSome_iff.mpr ⟨hend, hend, Nat.le_refl _⟩
  | cons p ps ih =>
    rw [List.flatMap_cons, ← List.append_assoc] at h
    have hrest := ih h
    rw [Scan.byteSize_append] at hrest
    cases p with
    | space | stray | unclosed => exact hrest
    | word kind cs =>
      refine List.forall_mem_cons.mpr ⟨?_, hrest⟩
      exact Option.isSome_of_eq_some (Scan.slice?_word h)
    | quoted body =>
      refine List.forall_mem_cons.mpr ⟨?_, hrest⟩
      exact Option.isSome_of_eq_some (Scan.slice?_quoted h)

/-- The text of the lexeme stands in the source, inside the span. -/
structure Lexeme.Shows (source : String) (t : Lexeme) : Prop where
  text : ∃ text, t.text? source = some text
  on_boundaries : String.Pos.Raw.IsValid source ⟨t.textStart⟩ ∧
    String.Pos.Raw.IsValid source ⟨t.textStop⟩
  inside : t.span.start ≤ t.textStart ∧ t.textStart ≤ t.textStop ∧ t.textStop ≤ t.span.stop
  /-- A token that is no string literal says its whole span. -/
  whole : t.kind ≠ some .string → t.textStart = t.span.start ∧ t.textStop = t.span.stop
  /-- A string literal says what stands between its quotes. -/
  quoted : t.kind = some .string → t.textStart = t.span.start + 1 ∧ t.span.stop = t.textStop + 1 ∧
    (Text.bytes source)[t.span.start]? = some 34 ∧ (Text.bytes source)[t.textStop]? = some 34

theorem Lexeme.Trims.shows {source : String} {t : Lexeme} (h : t.Trims (Text.bytes source))
    (htext : (t.text? source).isSome) : t.Shows source := by
  obtain ⟨hstart, hstop, hle⟩ := Text.slice?_isSome_iff.mp htext
  refine ⟨Option.isSome_iff_exists.mp htext, ⟨hstart, hstop⟩, ?_, h.whole, fun hstring => ?_⟩
  · by_cases hstring : t.kind = some .string
    · obtain ⟨hopen, hclose, -⟩ := h.quoted hstring
      omega
    · obtain ⟨hopen, hclose⟩ := h.whole hstring
      omega
  · obtain ⟨hopen, hclose, -, hquotes⟩ := h.quoted hstring
    exact ⟨hopen, hclose, hquotes⟩

/-- What is read from a source covers it. -/
structure Lexed.Covers (fileId : Nat) (source : String) (l : Lexed) : Prop where
  /-- The end stands last, behind the source, and nowhere else. -/
  ended : l.lexemes = l.tokens ++ [⟨none, ⟨fileId, source.utf8ByteSize, source.utf8ByteSize⟩,
    source.utf8ByteSize, source.utf8ByteSize⟩]
  errors : ∀ d ∈ l.problems, d.isError ∧ d.span.isSome
  inside : ∀ s ∈ l.tokenSpans ++ l.problemSpans,
    s.fileId = fileId ∧ s.start < s.stop ∧ s.stop ≤ source.utf8ByteSize
  disjoint : (l.tokenSpans ++ l.problemSpans).Pairwise Span.Apart
  tokens_in_order : l.tokenSpans.Pairwise (·.stop ≤ ·.start)
  problems_in_order : l.problemSpans.Pairwise (·.stop ≤ ·.start)
  /-- A byte that no span holds is a space, a tab, a line feed or a carriage return. -/
  blank : ∀ i b, (Text.bytes source)[i]? = some b →
    (∀ s ∈ l.tokenSpans ++ l.problemSpans, ¬ s.Holds i) → b ∈ [32, 9, 10, 13]
  shows : ∀ t ∈ l.lexemes, t.Shows source

theorem mem_blanks {b : UInt8} (h : Cut.isSpace (.ofUInt8 b) = true) :
    b ∈ [32, 9, 10, 13] := by
  simp only [Cut.isSpace, Bool.or_eq_true, beq_iff_eq] at h
  rcases h with ((h | h) | h) | h
  · simp [eq_of_ofUInt8 (d := 32) h]
  · simp [eq_of_ofUInt8 (d := 9) h]
  · simp [eq_of_ofUInt8 (d := 10) h]
  · simp [eq_of_ofUInt8 (d := 13) h]

theorem covers_lex (fileId : Nat) (source : String) : (lex fileId source).Covers fileId source := by
  have hreads : (lex fileId source).Reads fileId (Text.bytes source) 0 :=
    lexFrom_reads fileId (Nat.zero_le _)
  have hchars : source.toList = [] ++ (pieces source.toList).flatMap Piece.chars := by
    rw [flatMap_pieces, List.nil_append]
  have htexts : ∀ t ∈ (lex fileId source).lexemes, (t.text? source).isSome := by
    rw [lex_eq]
    exact text?_isSome hchars
  -- The bytes tell how spans lie, and the characters that each text can be cut out.
  constructor
  case ended =>
    rw [← Text.length_bytes]
    exact hreads.ended
  case errors => exact hreads.errors
  case inside =>
    intro s hs
    obtain ⟨hfile, -, hlt, hle⟩ := hreads.tiled.inside s hs
    exact ⟨hfile, hlt, Text.length_bytes source ▸ hle⟩
  case disjoint =>
    refine List.pairwise_append.mpr ⟨?_, ?_, hreads.tiled.apart⟩
    · exact hreads.tiled.tokens_in_order.imp Or.inl
    · exact hreads.tiled.problems_in_order.imp Or.inl
  case tokens_in_order => exact hreads.tiled.tokens_in_order
  case problems_in_order => exact hreads.tiled.problems_in_order
  case blank =>
    intro i b hb hnone
    exact mem_blanks (hreads.tiled.blank i b (Nat.zero_le i) hb hnone)
  case shows => exact fun t ht => (hreads.trims t ht).shows (htexts t ht)

/-! ### Where reading fails -/

theorem Scan.problems_ofLexemes (source : String) (problems : List Diagnostic)
    (ts : List Lexeme) : (Scan.ofLexemes source problems ts).problems = problems := by
  induction ts with
  | nil => rfl
  | cons t ts ih =>
    unfold Scan.ofLexemes
    cases t.kind with
    | none => rfl
    | some kind => exact ih

/-- The problem stands at the offset, and none stands before it. -/
structure IsFirstProblem (problems : List Diagnostic) (d : Diagnostic) (position : Nat) :
    Prop where
  mem : d ∈ problems
  place : d.span.map (·.start) = some position
  none_before : ∀ e ∈ problems, ∀ s, e.span = some s → position ≤ s.start

theorem Lexed.Covers.isFirstProblem_iff {source : String} (h : l.Covers fileId source)
    {d : Diagnostic} {position : Nat} : IsFirstProblem l.problems d position ↔
      ∃ ds, l.problems = d :: ds ∧ d.span.map (·.start) = some position := by
  -- Problems are listed in the order of the source, so the first of the list is the first
  -- there.
  obtain ⟨-, herrors, hinside, -, -, horder, -, -⟩ := h
  unfold problemSpans at hinside horder
  cases hproblems : l.problems with
  | nil =>
    constructor
    · intro hfirst
      cases hfirst.mem
    · rintro ⟨ds, hds, -⟩
      cases hds
  | cons e es =>
    rw [hproblems] at herrors hinside horder
    obtain ⟨s, hs⟩ := Option.isSome_iff_exists.mp (herrors e List.mem_cons_self).2
    rw [List.filterMap_cons_some hs] at hinside horder
    have hlt : s.start < s.stop := (hinside s (by simp)).2.1
    have hbehind : ∀ e' ∈ es, ∀ s', e'.span = some s' → s.start < s'.start := by
      intro e' he' s' hs'
      have hle := (List.pairwise_cons.mp horder).1 s' (List.mem_filterMap.mpr ⟨e', he', hs'⟩)
      exact Nat.lt_of_lt_of_le hlt hle
    constructor
    · rintro ⟨hmem, hplace, hnone⟩
      rcases List.mem_cons.mp hmem with rfl | hmem
      · exact ⟨es, rfl, hplace⟩
      · obtain ⟨s', hs', rfl⟩ := Option.map_eq_some_iff.mp hplace
        have hle := hnone e List.mem_cons_self s hs
        exact absurd (hbehind d hmem s' hs') (Nat.not_lt_of_le hle)
    · rintro ⟨ds, hds, hplace⟩
      cases hds
      refine ⟨List.mem_cons_self, hplace, ?_⟩
      rw [hs, Option.map_some, Option.some.injEq] at hplace
      subst hplace
      refine List.forall_mem_cons.mpr ⟨fun s' hs' => ?_, fun e' he' s' hs' => ?_⟩
      · cases hs.symm.trans hs'
        exact Nat.le_refl _
      · exact Nat.le_of_lt (hbehind e' he' s' hs')

theorem parse_eq_lexical_iff {source : String} {position : Nat} {message : String} :
    parse source = .error (.lexical position message) ↔
      ∃ d ds, (lex 0 source).problems = d :: ds ∧
        (d.span.map (·.start)).getD 0 = position ∧ d.message = message := by
  unfold parse
  dsimp only
  rw [Scan.ofText, Scan.problems_ofLexemes]
  cases (lex 0 source).problems with
  | nil =>
    dsimp only
    split <;> simp
  | cons d ds => simp

/-- What is read from a source covers it, and a source that cannot be read is refused for the first
problem in it. -/
theorem lex_covers (source : String) :
    (∀ fileId, (lex fileId source).Covers fileId source) ∧
    ∀ position message, parse source = .error (.lexical position message) ↔
      ∃ d, IsFirstProblem (lex 0 source).problems d position ∧ d.message = message := by
  refine ⟨fun fileId => covers_lex fileId source, fun position message => ?_⟩
  have hcovers := covers_lex 0 source
  rw [parse_eq_lexical_iff]
  constructor
  · rintro ⟨d, ds, hproblems, rfl, hmessage⟩
    obtain ⟨s, hs⟩ := Option.isSome_iff_exists.mp (hcovers.errors d (by simp [hproblems])).2
    exact ⟨d, hcovers.isFirstProblem_iff.mpr ⟨ds, hproblems, by simp [hs]⟩, hmessage⟩
  · rintro ⟨d, hfirst, hmessage⟩
    obtain ⟨ds, hproblems, hplace⟩ := hcovers.isFirstProblem_iff.mp hfirst
    exact ⟨d, ds, hproblems, by rw [hplace]; rfl, hmessage⟩

/-- A letter of two bytes is passed over as one, and hides no quote behind a backslash. -/
example : ((lex 0 "é \"\\é\" -").tokenSpans.map fun s => (s.start, s.stop)) = [(3, 8)] ∧
    ((lex 0 "é \"\\é\" -").problemSpans.map fun s => (s.start, s.stop)) = [(0, 2), (9, 10)] := by
  constructor <;> cbv

end Expr

end FrontEnd
