import FrontEnd.Proofs.Coverage
import FrontEnd.Proofs.Cutting
import FrontEnd.Proofs.Parsing
import Mathlib

-- Mathlib is imported whole for the equations of library functions that `cbv` evaluates by.

/-!
White space between the parts of a text. What stands before white space is read as it is alone, and
what stands behind it is read as it is alone too, at offsets that are greater by what stands before
it. The one exception is a string literal that lacks its closing quote, which goes on through white
space. How much white space stands between the parts is therefore told by the offsets only, and no
expression depends on it.
-/
namespace FrontEnd

/-! ### Offsets -/

def Span.shift (n : Nat) (s : Span) : Span := ⟨s.fileId, s.start + n, s.stop + n⟩

def Diagnostic.shift (n : Nat) (d : Diagnostic) : Diagnostic :=
  { d with span := d.span.map (·.shift n) }

namespace Expr

def Lexeme.shift (n : Nat) (t : Lexeme) : Lexeme :=
  ⟨t.kind, t.span.shift n, t.textStart + n, t.textStop + n⟩

namespace Lexed

/-- What is read with every offset greater by `n`. -/
def shift (n : Nat) (l : Lexed) : Lexed :=
  ⟨l.lexemes.map (·.shift n), l.problems.map (·.shift n)⟩

/-- What is read of two texts, where the end of the first is none. -/
def append (l m : Lexed) : Lexed := ⟨l.tokens ++ m.lexemes, l.problems ++ m.problems⟩

/-- No string literal lacks its closing quote. -/
def Terminated (l : Lexed) : Prop := ∀ d ∈ l.problems, d.code ≠ some "E0002"

instance (l : Lexed) : Decidable l.Terminated :=
  inferInstanceAs (Decidable (∀ d ∈ l.problems, d.code ≠ some "E0002"))

/-- What the lexemes are and what they say in the source. -/
def said (source : String) (l : Lexed) : List (Option TokenKind × Option String) :=
  l.lexemes.map fun t => (t.kind, t.text? source)

end Lexed

/-- White space that is not empty. -/
structure IsGap (w : String) : Prop where
  not_empty : w.toList ≠ []
  blank : ∀ c ∈ w.toList, c ∈ [' ', '\t', '\n', '\r']

instance (w : String) : Decidable (IsGap w) :=
  decidable_of_iff (w.toList ≠ [] ∧ w.toList.all ([' ', '\t', '\n', '\r'].contains ·) = true)
    ⟨fun h => ⟨h.1, by simpa using h.2⟩, fun h => ⟨h.not_empty, by simpa using h.blank⟩⟩

/-- The texts have the same parts with white space between them. A part is any text in which no
string literal is left open, and the last one any text. -/
inductive Respaced : String → String → Prop where
  | part (b : String) : Respaced b b
  | gap {a w w' b b' : String} (ha : (lex 0 a).Terminated) (hw : IsGap w) (hw' : IsGap w')
    (hb : Respaced b b') : Respaced (a ++ w ++ b) (a ++ w' ++ b')

/-! ### Pieces before white space -/

namespace Piece

open Cut

theorem takeWhile_before {p : Char → Bool} {ds : List Char} (hds : ∀ d ∈ ds.head?, p d = false)
    (cs : List Char) : (cs ++ ds).takeWhile p = cs.takeWhile p ∧
      (cs ++ ds).dropWhile p = cs.dropWhile p ++ ds := by
  have hsplit : cs ++ ds = cs.takeWhile p ++ (cs.dropWhile p ++ ds) := by
    rw [← List.append_assoc, List.takeWhile_append_dropWhile]
  have hrest : ∀ d ∈ (cs.dropWhile p ++ ds).head?, p d = false := by
    cases hdrop : cs.dropWhile p with
    | nil => exact hds
    | cons c rest =>
      have hc := List.head?_dropWhile_not p cs
      rw [hdrop] at hc
      simpa using hc
  rw [hsplit]
  exact takeWhile_run (fun c hc => List.mem_takeWhile_imp hc) hrest

theorem untilQuote_append {cs body rest : List Char} (h : untilQuote cs = some (body, rest))
    (ds : List Char) : untilQuote (cs ++ ds) = some (body, rest ++ ds) := by
  fun_induction untilQuote cs generalizing body rest with
  | case1 => cases h
  | case2 => cases h
  | case3 c cs ih =>
    obtain ⟨p, hp, heq⟩ := Option.map_eq_some_iff.mp h
    cases heq
    -- The character behind the backslash is in `cs`, so nothing of `ds` is escaped.
    simp [untilQuote, ih hp]
  | case4 cs =>
    cases h
    simp [untilQuote]
  | case5 c cs hlast hpair hquote ih =>
    obtain ⟨p, hp, heq⟩ := Option.map_eq_some_iff.mp h
    cases heq
    have hback : c ≠ '\\' := ne_backslash hlast hpair
    simp [untilQuote, hback, hquote, ih hp]

/-- The first piece is the same whatever stands behind, so long as that does not go on with a
word. -/
theorem first_append {c : Char} {cs ds : List Char} (h : ∀ body, (first c cs).1 ≠ .unclosed body)
    (hds : EndsWord ds) : first c (cs ++ ds) = ((first c cs).1, (first c cs).2 ++ ds) := by
  -- Words and numbers end where they did, as nothing behind them goes on with one.
  obtain ⟨htake, hdrop⟩ := takeWhile_before hds cs
  obtain ⟨htake', hdrop'⟩ := takeWhile_before hds.endsNumber cs
  -- A minus sign at the end has no digit behind it.
  have hhead : ((cs ++ ds).head?.map Char.isDigit).getD false =
      (cs.head?.map Char.isDigit).getD false := by
    cases cs with
    | cons d cs => rfl
    | nil =>
      cases ds with
      | nil => rfl
      | cons d ds => exact (Bool.or_eq_false_iff.mp (endsWord_cons.mp hds)).2
  -- A quote opens a literal that is closed inside `cs`, or the piece would be one left open.
  have hclosed : c = '"' → ∃ p, untilQuote cs = some p := by
    rintro rfl
    refine Option.ne_none_iff_exists'.mp fun hopen => h cs ?_
    simp [first, isSpace, single?, hopen]
  unfold first
  rw [htake, hdrop, htake', hdrop', hhead]
  split
  · rfl
  split
  · rfl
  split
  · next hquote =>
    obtain ⟨p, hp⟩ := hclosed hquote
    rw [untilQuote_append hp ds, hp]
  split
  · rfl
  split
  · rfl
  · rfl

end Piece

variable {fileId start : Nat} {cs ds w : List Char}

def AllClosed (ps : List Piece) : Prop := ∀ body, .unclosed body ∉ ps

theorem pieces_append (h : AllClosed (pieces cs)) (hds : EndsWord ds) :
    pieces (cs ++ ds) = pieces cs ++ pieces ds := by
  fun_induction pieces cs with
  | case1 => rfl
  | case2 c cs ih =>
    have hfirst : ∀ body, (Piece.first c cs).1 ≠ .unclosed body := fun body hbody =>
      h body (hbody ▸ List.mem_cons_self)
    have hbehind : AllClosed (pieces (Piece.first c cs).2) := fun body hbody =>
      h body (List.mem_cons_of_mem _ hbody)
    rw [List.cons_append, pieces_cons, Piece.first_append hfirst hds, ih hbehind, List.cons_append]

theorem pieces_blank (hw : ∀ c ∈ w, Cut.isSpace c = true) (ds : List Char) :
    pieces (w ++ ds) = w.map .space ++ pieces ds := by
  induction w with
  | nil => rfl
  | cons c w ih =>
    obtain ⟨hc, hw⟩ := List.forall_mem_cons.mp hw
    rw [List.cons_append, pieces_space hc, ih hw, List.map_cons, List.cons_append]

theorem IsGap.isSpace {w : String} (hw : IsGap w) : ∀ c ∈ w.toList, Cut.isSpace c = true := by
  intro c hc
  simpa [Cut.isSpace, or_assoc] using hw.blank c hc

theorem IsGap.endsWord {w : String} (hw : IsGap w) (ds : List Char) :
    EndsWord (w.toList ++ ds) := by
  obtain ⟨c, cs, hcs⟩ := List.exists_cons_of_ne_nil hw.not_empty
  rw [hcs]
  refine endsWord_cons.mpr (Bool.eq_false_iff.mpr fun hrest => ?_)
  have hspace : Cut.isSpace c = true := hw.isSpace c (hcs ▸ List.mem_cons_self)
  rw [(Piece.word_apart hrest).1] at hspace
  cases hspace

theorem pieces_gap {w : String} (h : AllClosed (pieces cs)) (hw : IsGap w) (ds : List Char) :
    pieces (cs ++ w.toList ++ ds) = pieces cs ++ w.toList.map .space ++ pieces ds := by
  rw [List.append_assoc, pieces_append h (hw.endsWord ds), pieces_blank hw.isSpace,
    List.append_assoc]

/-! ### What is read of pieces -/

namespace Lexed

theorem allClosed_of_terminated {ps : List Piece} (h : (ofPieces fileId start ps).Terminated) :
    AllClosed ps := by
  induction ps generalizing start with
  | nil => exact fun _ => List.not_mem_nil
  | cons p ps ih =>
    -- The problems of the pieces behind the first are problems of them all.
    have hproblems : ∀ d ∈ (ofPieces fileId (start + Scan.byteSize p.chars) ps).problems,
        d ∈ (ofPieces fileId start (p :: ps)).problems := by
      cases p with
      | space | word | quoted => exact fun d hd => hd
      | stray | unclosed => exact fun d hd => List.mem_cons_of_mem _ hd
    have hrest : AllClosed ps := ih fun d hd => h d (hproblems d hd)
    rintro body hbody
    rcases List.mem_cons.mp hbody with rfl | hbody
    · exact h _ List.mem_cons_self rfl
    · exact hrest body hbody

theorem before_append (cut : Cut) (span : Span) (l m : Lexed) :
    (cut.before span l).append m = cut.before span (l.append m) := by
  cases cut <;> rfl

theorem ofPieces_append (ps qs : List Piece) : ofPieces fileId start (ps ++ qs) =
    (ofPieces fileId start ps).append
      (ofPieces fileId (start + Scan.byteSize (ps.flatMap Piece.chars)) qs) := by
  induction ps generalizing start with
  | nil => rfl
  | cons p ps ih =>
    rw [List.cons_append, ofPieces, ofPieces, before_append, ih, List.flatMap_cons,
      Scan.byteSize_append, Nat.add_assoc]

theorem ofPieces_blank (w : List Char) (ps : List Piece) :
    ofPieces fileId start (w.map .space ++ ps) = ofPieces fileId (start + Scan.byteSize w) ps := by
  induction w generalizing start with
  | nil => rfl
  | cons c w ih =>
    have hsize : Scan.byteSize (c :: w) = Scan.byteSize [c] + Scan.byteSize w :=
      Scan.byteSize_append [c] w
    rw [List.map_cons, List.cons_append, hsize, ← Nat.add_assoc]
    exact ih

theorem before_shift {cut : Cut} {span : Span} (n : Nat) (l : Lexed)
    (h : ∀ kind margin, cut = .token kind margin → margin ≤ span.stop) :
    cut.before (span.shift n) (l.shift n) = (cut.before span l).shift n := by
  cases cut with
  | blank | problem => rfl
  | token kind margin =>
    have hle : margin ≤ span.stop := h kind margin rfl
    have hstart : span.start + n + margin = span.start + margin + n := Nat.add_right_comm ..
    have hstop : span.stop + n - margin = span.stop - margin + n := Nat.sub_add_comm hle
    simp [Cut.before, shift, Lexeme.shift, Span.shift, hstart, hstop]

theorem margin_le {p : Piece} {kind : TokenKind} {margin : Nat}
    (h : p.cut = .token kind margin) : margin ≤ Scan.byteSize p.chars := by
  cases p with
  | space | stray | unclosed => cases h
  | word =>
    cases h
    exact Nat.zero_le _
  | quoted body =>
    cases h
    exact Text.length_utf8_pos (List.cons_ne_nil _ _)

theorem ofPieces_shift (n : Nat) (ps : List Piece) :
    ofPieces fileId (start + n) ps = (ofPieces fileId start ps).shift n := by
  induction ps generalizing start with
  | nil => rfl
  | cons p ps ih =>
    rw [ofPieces, ofPieces, ← before_shift n _ fun kind margin h =>
      Nat.le_trans (margin_le h) (Nat.le_add_left _ start), ← ih, Nat.add_right_comm]
    rfl

end Lexed

theorem byteSize_toList (s : String) : Scan.byteSize s.toList = s.utf8ByteSize := by
  rw [Scan.byteSize, ← Text.bytes_eq, Text.length_bytes]

theorem lex_gap {a w : String} (ha : (lex fileId a).Terminated) (hw : IsGap w) (b : String) :
    lex fileId (a ++ w ++ b) =
      (lex fileId a).append ((lex fileId b).shift (a ++ w).utf8ByteSize) := by
  rw [lex_eq] at ha
  have hclosed : AllClosed (pieces a.toList) := Lexed.allClosed_of_terminated ha
  have hpieces : pieces (a ++ w ++ b).toList =
      pieces a.toList ++ (w.toList.map .space ++ pieces b.toList) := by
    rw [String.toList_append, String.toList_append, pieces_gap hclosed hw, List.append_assoc]
  have hsize : 0 + Scan.byteSize a.toList + Scan.byteSize w.toList =
      0 + (a ++ w).utf8ByteSize := by
    rw [← byteSize_toList, String.toList_append, Scan.byteSize_append, Nat.add_assoc]
  -- The pieces before the gap are those of the first text, as no literal is left open in it.
  calc lex fileId (a ++ w ++ b)
    _ = Lexed.ofPieces fileId 0
          (pieces a.toList ++ (w.toList.map .space ++ pieces b.toList)) := by
        rw [lex_eq, hpieces]
    _ = (Lexed.ofPieces fileId 0 (pieces a.toList)).append
          (Lexed.ofPieces fileId (0 + (a ++ w).utf8ByteSize) (pieces b.toList)) := by
        rw [Lexed.ofPieces_append, flatMap_pieces, Lexed.ofPieces_blank, hsize]
    _ = (lex fileId a).append ((lex fileId b).shift (a ++ w).utf8ByteSize) := by
        rw [Lexed.ofPieces_shift, lex_eq, lex_eq]

/-! ### What is said -/

def Piece.said? : Piece → Option (TokenKind × String)
  | word kind cs => some (kind, String.ofList cs)
  | quoted body => some (.string, String.ofList body)
  | space _ | stray _ | unclosed _ => none

def Token.said (t : Token) : TokenKind × String := (t.kind, t.text)

theorem Lexed.said_ofPieces {source : String} {before : List Char} {ps : List Piece}
    (h : source.toList = before ++ ps.flatMap Piece.chars) :
    (ofPieces fileId (Scan.byteSize before) ps).said source =
      (ps.filterMap Piece.said?).map (fun p => (some p.1, some p.2)) ++ [(none, some "")] := by
  induction ps generalizing before with
  | nil =>
    -- The end says the empty text, which stands there as it stands between any two characters.
    have hsource : source.toList = before ++ [] ++ [] := by rw [h, List.append_nil]; rfl
    have hend : Text.slice? source (Scan.byteSize before) (Scan.byteSize before) = some "" :=
      Scan.slice?_word hsource
    exact congrArg (fun text => [(none, text)]) hend
  | cons p ps ih =>
    rw [List.flatMap_cons, ← List.append_assoc] at h
    have hrest := ih h
    rw [Scan.byteSize_append] at hrest
    cases p with
    | space | stray | unclosed => exact hrest
    | word kind cs =>
      have htext : Text.slice? source (Scan.byteSize before)
          (Scan.byteSize before + Scan.byteSize cs) = some (String.ofList cs) := Scan.slice?_word h
      change (some kind, Text.slice? source (Scan.byteSize before)
        (Scan.byteSize before + Scan.byteSize cs)) :: said source _ = _
      rw [htext, hrest]
      rfl
    | quoted body =>
      change (some .string, Text.slice? source (Scan.byteSize before + 1)
        (Scan.byteSize before + Scan.byteSize (Piece.quoted body).chars - 1)) ::
          said source _ = _
      rw [Scan.slice?_quoted h, hrest]
      rfl

theorem Scan.said_ofPieces (ps : List Piece) :
    (Scan.ofPieces fileId start ps).tokens.map Token.said = ps.filterMap Piece.said? := by
  induction ps generalizing start with
  | nil => rfl
  | cons p ps ih =>
    cases p with
    | space | stray | unclosed => exact ih
    | word | quoted => exact congrArg (List.cons _) ih

/-! ### What is derived -/

section

variable {t : Token} {ts us : List Token}

theorem said_cons (h : us.map Token.said = (t :: ts).map Token.said) : ∃ u vs, us = u :: vs ∧
    u.kind = t.kind ∧ u.text = t.text ∧ vs.map Token.said = ts.map Token.said := by
  obtain ⟨u, vs, rfl, hu, hvs⟩ := List.map_eq_cons_iff.mp h
  obtain ⟨hkind, htext⟩ := Prod.mk.inj hu
  exact ⟨u, vs, rfl, hkind, htext, hvs⟩

theorem said_single (h : us.map Token.said = [t].map Token.said) :
    ∃ u, us = [u] ∧ u.kind = t.kind ∧ u.text = t.text := by
  obtain ⟨u, vs, rfl, hkind, htext, hvs⟩ := said_cons h
  obtain rfl := List.map_eq_nil_iff.mp hvs
  exact ⟨u, rfl, hkind, htext⟩

theorem said_append {ts' : List Token}
    (h : us.map Token.said = (ts ++ ts').map Token.said) : ∃ vs ws, us = vs ++ ws ∧
      vs.map Token.said = ts.map Token.said ∧ ws.map Token.said = ts'.map Token.said := by
  rw [List.map_append] at h
  exact List.map_eq_append_iff.mp h

theorem said_bracketed {r : Token} (h : us.map Token.said = (t :: (ts ++ [r])).map Token.said) :
    ∃ u vs v, us = u :: (vs ++ [v]) ∧ u.kind = t.kind ∧ vs.map Token.said = ts.map Token.said ∧
      v.kind = r.kind := by
  obtain ⟨u, _, rfl, hu, -, hrest⟩ := said_cons h
  obtain ⟨vs, _, rfl, hvs, hlast⟩ := said_append hrest
  obtain ⟨v, rfl, hv, -⟩ := said_single hlast
  exact ⟨u, vs, v, rfl, hu, hvs, hv⟩

end

mutual

theorem Derives.of_said {ts us : List Token} {e : Expr} {depth : Nat} (h : Derives ts e depth)
    (hs : us.map Token.said = ts.map Token.said) : Derives us e depth := by
  match h with
  | .operation hk ho hargs hn hb =>
    obtain ⟨u, us, rfl, hkind, htext, hus⟩ := said_cons hs
    exact .operation (hkind.trans hk) (htext ▸ ho) (hargs.of_said hus) hn hb
  | .chain hc => exact .chain (hc.of_said hs)

theorem DerivesChain.of_said {ts us : List Token} {e : Expr} {depth : Nat}
    (h : DerivesChain ts e depth) (hs : us.map Token.said = ts.map Token.said) :
    DerivesChain us e depth := by
  -- Each rule asks its tokens for what they are and say, so it applies to the others as well.
  match h with
  | .int hk hn =>
    obtain ⟨u, rfl, hkind, htext⟩ := said_single hs
    exact .int (hkind.trans hk) (htext ▸ hn)
  | .string hk =>
    obtain ⟨u, rfl, hkind, htext⟩ := said_single hs
    exact htext ▸ .string (hkind.trans hk)
  | .bool hk =>
    obtain ⟨u, rfl, hkind, htext⟩ := said_single hs
    exact htext ▸ .bool (hkind.trans hk)
  | .constant hk he =>
    obtain ⟨u, rfl, hkind, htext⟩ := said_single hs
    exact .constant (hkind.trans hk) (htext ▸ he)
  | .parens hl he hr =>
    obtain ⟨u, vs, v, rfl, hu, hvs, hv⟩ := said_bracketed hs
    exact .parens (hu.trans hl) (he.of_said hvs) (hv.trans hr)
  | .array hl hargs hr =>
    obtain ⟨u, vs, v, rfl, hu, hvs, hv⟩ := said_bracketed hs
    exact .array (hu.trans hl) (hargs.of_said hvs) (hv.trans hr)
  | .field hc hd hu =>
    obtain ⟨vs, _, rfl, hvs, hbehind⟩ := said_append hs
    obtain ⟨d, _, rfl, hd', -, hlast⟩ := said_cons hbehind
    obtain ⟨u, rfl, hu', htext⟩ := said_single hlast
    exact htext ▸ .field (hc.of_said hvs) (hd'.trans hd) (hu'.trans hu)

theorem DerivesAll.of_said {ts us : List Token} {es : List Expr} {depth : Nat}
    (h : DerivesAll ts es depth) (hs : us.map Token.said = ts.map Token.said) :
    DerivesAll us es depth := by
  match h with
  | .nil =>
    obtain rfl := List.map_eq_nil_iff.mp hs
    exact .nil
  | .cons he hargs =>
    obtain ⟨vs, ws, rfl, hvs, hws⟩ := said_append hs
    exact .cons (he.of_said hvs) (hargs.of_said hws)

end

/-! ### Texts with other white space -/

theorem Respaced.symm {s t : String} (h : Respaced s t) : Respaced t s := by
  induction h with
  | part b => exact .part b
  | gap ha hw hw' _ ih => exact .gap ha hw' hw ih

theorem Respaced.said_eq {s t : String} (h : Respaced s t) :
    (pieces s.toList).filterMap Piece.said? = (pieces t.toList).filterMap Piece.said? := by
  have hblank (w : List Char) : (w.map Piece.space).filterMap Piece.said? = [] := by
    simp [Piece.said?]
  induction h with
  | part => rfl
  | @gap a w w' b b' ha hw hw' _ ih =>
    rw [lex_eq] at ha
    have hclosed := Lexed.allClosed_of_terminated ha
    simp only [String.toList_append, pieces_gap hclosed hw, pieces_gap hclosed hw',
      List.filterMap_append, hblank, ih]

theorem Respaced.problems_eq_nil {s t : String} (h : Respaced s t) :
    (lex 0 s).problems = [] ↔ (lex 0 t).problems = [] := by
  induction h with
  | part => rfl
  | gap ha hw hw' _ ih =>
    rw [lex_gap ha hw, lex_gap ha hw']
    simp [Lexed.append, Lexed.shift, ih]

theorem Lexed.said_lex (fileId : Nat) (s : String) : (lex fileId s).said s =
    ((pieces s.toList).filterMap Piece.said?).map (fun p => (some p.1, some p.2)) ++
      [(none, some "")] := by
  have htext : s.toList = [] ++ (pieces s.toList).flatMap Piece.chars := by
    rw [flatMap_pieces, List.nil_append]
  rw [lex_eq]
  exact said_ofPieces htext

theorem Respaced.parse_of_parse {s t : String} {e : Expr} (h : Respaced s t)
    (hs : parse s = .ok e) : parse t = .ok e := by
  rw [parse_eq_ok_iff, ofTokens_derives, Scan.ofText, Scan.problems_ofLexemes] at hs ⊢
  obtain ⟨hproblems, depth, hdepth, hderives⟩ := hs
  refine ⟨h.problems_eq_nil.mp hproblems, depth, hdepth, hderives.of_said ?_⟩
  change (Scan.ofText 0 t).tokens.map Token.said = (Scan.ofText 0 s).tokens.map Token.said
  rw [Scan.ofText_eq, Scan.ofText_eq, Scan.said_ofPieces, Scan.said_ofPieces, h.said_eq]

/-- A gap parts a text into two that are read each by itself, the second at offsets greater by what
stands before it; a string literal that is left open before the gap is the one thing that goes on
behind it. So what the tokens are and what they say, and whether the text is an expression and
which, do not depend on how much white space stands between its parts. -/
theorem lex_spaced :
    (∀ fileId a w b, (lex fileId a).Terminated → IsGap w → lex fileId (a ++ w ++ b) =
      (lex fileId a).append ((lex fileId b).shift (a ++ w).utf8ByteSize)) ∧
    ∀ s t, Respaced s t →
      (∀ fileId, (lex fileId s).said s = (lex fileId t).said t) ∧
      ∀ e, parse s = .ok e ↔ parse t = .ok e := by
  refine ⟨fun _ _ _ b ha hw => lex_gap ha hw b, fun s t h => ⟨fun fileId => ?_, fun e => ?_⟩⟩
  · rw [Lexed.said_lex, Lexed.said_lex, h.said_eq]
  · exact ⟨h.parse_of_parse, h.symm.parse_of_parse⟩

/-- A minus sign that white space parts from a digit is no part of a number, and a line break
between two elements of an array is as good as a blank. -/
theorem minus_apart :
    lex 0 ("-" ++ "\t" ++ "3") = (lex 0 "-").append ((lex 0 "3").shift ("-" ++ "\t").utf8ByteSize) ∧
    parse ("[Self" ++ "\r\n" ++ "\"a b\"]") = .ok (.array [.self, .literal (.text "a b")]) := by
  have hblank : parse ("[Self" ++ " " ++ "\"a b\"]") =
      .ok (.array [.self, .literal (.text "a b")]) := by cbv
  have hterminated : (lex 0 "[Self").Terminated := of_decide_eq_true (by cbv)
  have hspaced : Respaced ("[Self" ++ " " ++ "\"a b\"]") ("[Self" ++ "\r\n" ++ "\"a b\"]") :=
    .gap hterminated (by decide) (by decide) (.part _)
  exact ⟨lex_spaced.1 0 "-" "\t" "3" (of_decide_eq_true (by cbv)) (by decide),
    ((lex_spaced.2 _ _ hspaced).2 _).mp hblank⟩

end Expr
end FrontEnd
