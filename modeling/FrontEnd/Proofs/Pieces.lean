import FrontEnd.Expr.Token
import FrontEnd.Proofs.Slices

namespace FrontEnd.Expr

/-- A run of characters that a text is cut into. -/
inductive Piece where
  | space (c : Char)
  /-- A token that means what it says. -/
  | word (kind : TokenKind) (chars : List Char)
  /-- A string literal, by what stands between its quotes. -/
  | quoted (body : List Char)
  /-- A character that begins no token. -/
  | stray (c : Char)
  /-- A string literal that lacks its closing quote. -/
  | unclosed (body : List Char)

namespace Piece

open Cut

def chars : Piece → List Char
  | space c | stray c => [c]
  | word _ cs => cs
  | quoted body => '"' :: (body ++ ['"'])
  | unclosed body => '"' :: body

/-- Splits at the first quote that is not behind a backslash. -/
def untilQuote : List Char → Option (List Char × List Char)
  | [] => none
  | ['\\'] => none
  | '\\' :: c :: cs => (untilQuote cs).map fun p => ('\\' :: c :: p.1, p.2)
  | c :: cs => if c = '"' then some ([], cs) else (untilQuote cs).map fun p => (c :: p.1, p.2)

/-- The first piece of a text and what follows it. A minus sign belongs to the number that follows
it at once. -/
def first (c : Char) (cs : List Char) : Piece × List Char :=
  if isSpace c then (space c, cs)
  else if let some kind := single? c then (word kind [c], cs)
  else if c = '"' then
    match untilQuote cs with
    | some (body, rest) => (quoted body, rest)
    | none => (unclosed cs, [])
  else if c.isDigit || (c == '-' && (cs.head?.map Char.isDigit).getD false) then
    (word .int (c :: cs.takeWhile isNumberRest), cs.dropWhile isNumberRest)
  else if isWordStart c then
    (word (wordKind (c :: cs.takeWhile isWordRest)) (c :: cs.takeWhile isWordRest),
      cs.dropWhile isWordRest)
  else (stray c, cs)

theorem untilQuote_eq {cs body rest : List Char} (h : untilQuote cs = some (body, rest)) :
    cs = body ++ '"' :: rest := by
  fun_induction untilQuote cs generalizing body rest with
  | case1 => cases h
  | case2 => cases h
  | case3 c cs ih =>
    obtain ⟨p, hp, heq⟩ := Option.map_eq_some_iff.mp h
    cases heq
    simpa using ih hp
  | case4 cs =>
    cases h
    rfl
  | case5 c cs _ _ _ ih =>
    obtain ⟨p, hp, heq⟩ := Option.map_eq_some_iff.mp h
    cases heq
    simpa using ih hp

theorem ne_backslash {c : Char} {cs : List Char} (hlast : c = '\\' → cs = [] → False)
    (hpair : ∀ d ds, c = '\\' → cs = d :: ds → False) : c ≠ '\\' := by
  rintro rfl
  cases cs with
  | nil => exact hlast rfl rfl
  | cons d ds => exact hpair d ds rfl rfl

theorem first_eq (c : Char) (cs : List Char) :
    (first c cs).1.chars ++ (first c cs).2 = c :: cs := by
  unfold first
  split
  · rfl
  split
  · rfl
  split
  · next hquote =>
    split
    · next h => simp [chars, untilQuote_eq h, hquote]
    · simp [chars, hquote]
  split
  · simp [chars]
  split
  · simp [chars]
  · rfl

theorem chars_first_ne_nil (c : Char) (cs : List Char) : (first c cs).1.chars ≠ [] := by
  unfold first
  repeat' split
  all_goals simp [chars]

theorem length_first_le (c : Char) (cs : List Char) : (first c cs).2.length ≤ cs.length := by
  have hlength := congrArg List.length (first_eq c cs)
  have hchars := List.length_pos_iff.mpr (chars_first_ne_nil c cs)
  rw [List.length_append, List.length_cons] at hlength
  omega

end Piece

def pieces : List Char → List Piece
  | [] => []
  | c :: cs => (Piece.first c cs).1 :: pieces (Piece.first c cs).2
termination_by cs => cs.length
decreasing_by exact Nat.lt_succ_of_le (Piece.length_first_le c cs)

namespace Scan

def byteSize (cs : List Char) : Nat := (Text.utf8 cs).length

def ofPieces (fileId : Nat) : Nat → List Piece → Scan
  | start, [] => ⟨[], start, []⟩
  | start, p :: ps =>
    let stop := start + byteSize p.chars
    let rest := ofPieces fileId stop ps
    match p with
    | .space _ => rest
    | .word kind cs =>
      { rest with tokens := ⟨kind, ⟨fileId, start, stop⟩, String.ofList cs⟩ :: rest.tokens }
    | .quoted body =>
      { rest with tokens := ⟨.string, ⟨fileId, start, stop⟩, String.ofList body⟩ :: rest.tokens }
    | .stray _ =>
      let found := Lexed.problem "E0001" "unexpected character" ⟨fileId, start, stop⟩
      { rest with problems := found :: rest.problems }
    | .unclosed _ =>
      let found := Lexed.problem "E0002" "unterminated string literal" ⟨fileId, start, stop⟩
      { rest with problems := found :: rest.problems }

end Scan

namespace Piece

/-- What the piece is to the one who reads bytes. -/
def cut : Piece → Cut
  | space _ => .blank
  | word kind _ => .token kind 0
  | quoted _ => .token .string 1
  | stray _ => .problem "E0001" "unexpected character"
  | unclosed _ => .problem "E0002" "unterminated string literal"

end Piece

def Lexed.ofPieces (fileId : Nat) : Nat → List Piece → Lexed
  | start, [] => ⟨[⟨none, ⟨fileId, start, start⟩, start, start⟩], []⟩
  | start, p :: ps =>
    let stop := start + Scan.byteSize p.chars
    p.cut.before ⟨fileId, start, stop⟩ (ofPieces fileId stop ps)

namespace Cut

open Text

theorem isAscii_isWordRest : IsAscii isWordRest := by
  intro c h
  have hbelow : ∀ d : Char, c.val ≤ d.val → d.toNat < 128 → c.toNat < 128 := fun d hle hd =>
    Nat.lt_of_le_of_lt (UInt32.le_iff_toNat_le.mp hle) hd
  rcases Bool.or_eq_true_iff.mp h with hstart | hdigit
  · rcases Bool.or_eq_true_iff.mp hstart with halpha | hunder
    · rcases Bool.or_eq_true_iff.mp (show (c.isUpper || c.isLower) = true from halpha) with hu | hl
      · have hrange : c.val ≥ 'A'.val ∧ c.val ≤ 'Z'.val := of_decide_eq_true hu
        exact hbelow 'Z' hrange.2 (by decide)
      · have hle : c.val ≤ 'z'.val := of_decide_eq_true (Bool.and_eq_true_iff.mp hl).2
        exact hbelow 'z' hle (by decide)
    · rw [beq_iff_eq.mp hunder]
      decide
  · have hle : c.val ≤ '9'.val := of_decide_eq_true (Bool.and_eq_true_iff.mp hdigit).2
    exact hbelow '9' hle (by decide)

theorem isAscii_isNumberRest : IsAscii isNumberRest := by
  intro c h
  refine isAscii_isWordRest c ?_
  rcases Bool.or_eq_true_iff.mp h with h | h
  · simp [isWordRest, h]
  · simp [isWordRest, isWordStart, h]

theorem foreign {c : Char} (h : 128 ≤ c.toNat) : isSpace c = false ∧ single? c = none ∧
    c.isDigit = false ∧ isWordStart c = false ∧ c ≠ '"' ∧ c ≠ '\\' ∧ c ≠ '-' := by
  have hne : ∀ d : Char, d.toNat < 128 → c ≠ d := by
    rintro d hd rfl
    exact absurd hd (Nat.not_lt_of_le h)
  have hword : isWordRest c = false := Bool.eq_false_iff.mpr fun hrest =>
    absurd (isAscii_isWordRest c hrest) (Nat.not_lt_of_le h)
  obtain ⟨hstart, hdigit⟩ := Bool.or_eq_false_iff.mp hword
  refine ⟨?_, ?_, hdigit, hstart, hne _ (by decide), hne _ (by decide), hne _ (by decide)⟩
  · have hspaces : c ≠ ' ' ∧ c ≠ '\t' ∧ c ≠ '\n' ∧ c ≠ '\r' :=
      ⟨hne _ (by decide), hne _ (by decide), hne _ (by decide), hne _ (by decide)⟩
    simp [isSpace, hspaces]
  · unfold single?
    split
    case h_6 => rfl
    all_goals exact absurd rfl (hne _ (by decide))

theorem beforeQuote?_cons {b : UInt8} (hquote : Char.ofUInt8 b ≠ '"')
    (hback : Char.ofUInt8 b ≠ '\\') (bs : List UInt8) :
    beforeQuote? (b :: bs) = (beforeQuote? bs).map (· + 1) := by
  rw [beforeQuote?.eq_def]
  simp [hquote, hback]

theorem beforeQuote?_above {bs : List UInt8} (h : ∀ b ∈ bs, 128 ≤ b.toNat) (ds : List UInt8) :
    beforeQuote? (bs ++ ds) = (beforeQuote? ds).map (· + bs.length) := by
  induction bs with
  | nil => simp
  | cons b bs ih =>
    rw [List.forall_mem_cons] at h
    obtain ⟨-, -, -, -, hquote, hback, -⟩ := foreign (c := Char.ofUInt8 b) h.1
    rw [List.cons_append, beforeQuote?_cons hquote hback, ih h.2, Option.map_map]
    rfl

theorem beforeQuote?_char {c : Char} (hquote : c ≠ '"') (hback : c ≠ '\\') (ds : List UInt8) :
    beforeQuote? (String.utf8EncodeChar c ++ ds) =
      (beforeQuote? ds).map (· + (String.utf8EncodeChar c).length) := by
  rcases Nat.lt_or_ge c.toNat 128 with hc | hc
  · obtain ⟨b, hb, rfl⟩ := utf8EncodeChar_narrow hc
    rw [hb]
    exact beforeQuote?_cons hquote hback ds
  · exact beforeQuote?_above (utf8EncodeChar_above hc) ds

end Cut

namespace Piece

open Text Cut

theorem beforeQuote?_utf8 (cs : List Char) :
    beforeQuote? (utf8 cs) = (untilQuote cs).map fun p => Scan.byteSize p.1 := by
  fun_induction untilQuote cs with
  | case1 => rfl
  | case2 => rfl
  | case3 c cs ih =>
    obtain ⟨b, bs, hbytes, -, hrest⟩ := utf8EncodeChar_eq_cons c
    have hback : String.utf8EncodeChar '\\' = [92] := rfl
    rw [utf8_cons, utf8_cons, hbytes, hback, List.cons_append, List.cons_append, List.nil_append]
    -- The byte behind the backslash is passed over, and so are others that belong to it.
    change (beforeQuote? (bs ++ utf8 cs)).map (· + 2) = _
    rw [beforeQuote?_above fun d hd => (hrest d hd).1, ih, Option.map_map, Option.map_map,
      Option.map_map]
    congr 1
    funext p
    simp only [Function.comp_apply, Scan.byteSize, utf8_cons, hbytes, hback, List.length_append,
      List.length_cons, List.length_nil]
    omega
  | case4 cs =>
    rw [utf8_cons, beforeQuote?.eq_def]
    rfl
  | case5 c cs hlast hpair hquote ih =>
    have hne : c ≠ '\\' := ne_backslash hlast hpair
    rw [utf8_cons, beforeQuote?_char hquote hne, ih, Option.map_map, Option.map_map]
    congr 1
    funext p
    simp only [Function.comp_apply, Scan.byteSize, utf8_cons, List.length_append]
    omega

theorem head_utf8_isDigit (cs : List Char) :
    ((utf8 cs).head?.map fun b => (Char.ofUInt8 b).isDigit).getD false =
      (cs.head?.map Char.isDigit).getD false := by
  cases cs with
  | nil => rfl
  | cons c cs =>
    rcases Nat.lt_or_ge c.toNat 128 with hc | hc
    · obtain ⟨b, hb, rfl⟩ := utf8EncodeChar_narrow hc
      rw [utf8_cons, hb]
      rfl
    · obtain ⟨b, bs, hbytes, hb, -⟩ := utf8EncodeChar_wide hc
      obtain ⟨-, -, hdigit, -⟩ := foreign (c := Char.ofUInt8 b) hb
      obtain ⟨-, -, hdigit', -⟩ := foreign hc
      simp [utf8_cons, hbytes, hdigit, hdigit']

/-- The bytes begin with what the characters begin with, and that takes the bytes of its
characters. -/
def Agree (c : Char) (cs : List Char) : Prop := ∃ b bs, utf8 (c :: cs) = b :: bs ∧
  Cut.first b bs = ((first c cs).1.cut, Scan.byteSize (first c cs).1.chars - 1)

/-- A character that means nothing to the language is passed over as a whole. -/
theorem agree_wide {c : Char} (hc : 128 ≤ c.toNat) (cs : List Char) : Agree c cs := by
  obtain ⟨b, bs, hbytes, hb, hrest⟩ := utf8EncodeChar_wide hc
  have hskip : (bs ++ utf8 cs).takeWhile (!·.IsUTF8FirstByte) = bs := by
    rw [List.takeWhile_append_of_pos fun d hd => by simpa using hrest d hd, takeWhile_utf8_eq_nil,
      List.append_nil]
  -- Neither the byte nor the character begins anything, and both are passed over with the rest.
  have hbyte : Cut.first b (bs ++ utf8 cs) =
      (.problem "E0001" "unexpected character", Scan.byteSize [c] - 1) := by
    obtain ⟨hspace, hsingle, hdigit, hstart, hquote, -, hminus⟩ :=
      foreign (c := Char.ofUInt8 b) hb
    simp [Cut.first, hspace, hsingle, hdigit, hstart, hquote, hminus, hskip, Scan.byteSize,
      utf8_cons, hbytes]
  have hstray : first c cs = (.stray c, cs) := by
    obtain ⟨hspace, hsingle, hdigit, hstart, hquote, -, hminus⟩ := foreign hc
    simp [first, hspace, hsingle, hdigit, hstart, hquote, hminus]
  refine ⟨b, bs ++ utf8 cs, by rw [utf8_cons, hbytes, List.cons_append], ?_⟩
  rw [hbyte, hstray]
  rfl

theorem agree_narrow {c : Char} (hc : c.toNat < 128) (cs : List Char) : Agree c cs := by
  obtain ⟨b, hb, rfl⟩ := utf8EncodeChar_narrow hc
  refine ⟨b, utf8 cs, by rw [utf8_cons, hb, List.singleton_append], ?_⟩
  have hrun : ∀ ds, Scan.byteSize (Char.ofUInt8 b :: ds) - 1 = (utf8 ds).length := by
    intro ds
    simp [Scan.byteSize, utf8_cons, hb]
  have hword : (utf8 (cs.takeWhile isWordRest)).map Char.ofUInt8 = cs.takeWhile isWordRest :=
    map_ofUInt8_utf8 fun d hd => isAscii_isWordRest d (List.mem_takeWhile_imp hd)
  unfold Cut.first first
  rw [takeWhile_utf8 isAscii_isWordRest, takeWhile_utf8 isAscii_isNumberRest,
    takeWhile_utf8_eq_nil, head_utf8_isDigit, beforeQuote?_utf8]
  dsimp only
  rw [hword]
  generalize Char.ofUInt8 b = c at hrun ⊢
  -- Bytes and characters are asked the same questions in the same order.
  split
  · simp [cut, chars, hrun]
  cases hsingle : single? c with
  | some kind => simp [cut, chars, hrun]
  | none =>
    dsimp only
    split
    · next hc =>
      subst hc
      cases untilQuote cs with
      | none => simp [cut, chars, hrun]
      | some p =>
        have hclose : utf8 ['"'] = [34] := rfl
        simp only [Option.map_some, cut, chars, hrun, utf8_append, hclose, List.length_append]
        rfl
    split
    · simp [cut, chars, hrun]
    split
    · simp [cut, chars, hrun]
    · simp [cut, chars, hrun]

theorem agree (c : Char) (cs : List Char) : Agree c cs := by
  rcases Nat.lt_or_ge c.toNat 128 with hc | hc
  · exact agree_narrow hc cs
  · exact agree_wide hc cs

end Piece

theorem lexFrom_utf8 (fileId start : Nat) (cs : List Char) :
    lexFrom fileId start (Text.utf8 cs) = Lexed.ofPieces fileId start (pieces cs) := by
  fun_induction pieces cs generalizing start with
  | case1 =>
    rw [Text.utf8_nil, lexFrom]
    rfl
  | case2 c cs ih =>
    obtain ⟨b, bs, hbytes, hfirst⟩ := Piece.agree c cs
    generalize hp : (Piece.first c cs).1 = p at hfirst ih
    generalize hrest : (Piece.first c cs).2 = rest at ih
    have heq : p.chars ++ rest = c :: cs := by rw [← hp, ← hrest, Piece.first_eq]
    have hsize : 0 < Scan.byteSize p.chars :=
      Text.length_utf8_pos (hp ▸ Piece.chars_first_ne_nil c cs)
    -- The bytes behind those of the piece are those of the rest.
    have hdrop : bs.drop (Scan.byteSize p.chars - 1) = Text.utf8 rest := by
      rw [← heq, Text.utf8_append] at hbytes
      have hbehind : (b :: bs).drop (Scan.byteSize p.chars) = Text.utf8 rest :=
        hbytes ▸ List.drop_left
      rwa [← Nat.sub_add_cancel hsize, List.drop_succ_cons] at hbehind
    have hstop : start + 1 + (Scan.byteSize p.chars - 1) = start + Scan.byteSize p.chars := by omega
    rw [hbytes, lexFrom, hfirst, hdrop, hstop, ih]
    rfl

theorem flatMap_pieces (cs : List Char) : (pieces cs).flatMap Piece.chars = cs := by
  fun_induction pieces cs with
  | case1 => rfl
  | case2 c cs ih => rw [List.flatMap_cons, ih, Piece.first_eq]

theorem lex_eq (fileId : Nat) (source : String) :
    lex fileId source = Lexed.ofPieces fileId 0 (pieces source.toList) := by
  rw [lex, Text.bytes_eq, lexFrom_utf8]

namespace Scan

@[simp] theorem byteSize_append (cs ds : List Char) :
    byteSize (cs ++ ds) = byteSize cs + byteSize ds := by
  simp [byteSize]

section Texts

variable {source : String} {before cs body after : List Char}

theorem slice?_word (h : source.toList = before ++ cs ++ after) :
    Text.slice? source (byteSize before) (byteSize before + byteSize cs) =
      some (String.ofList cs) := by
  rw [← byteSize_append]
  exact Text.slice?_utf8 h

theorem slice?_quoted (h : source.toList = before ++ (Piece.quoted body).chars ++ after) :
    Text.slice? source (byteSize before + 1)
        (byteSize before + byteSize (Piece.quoted body).chars - 1) =
      some (String.ofList body) := by
  have hquote : byteSize ['"'] = 1 := rfl
  have hsplit : source.toList = (before ++ ['"']) ++ body ++ ('"' :: after) := by
    rw [h]
    simp [Piece.chars]
  have hstop : byteSize before + byteSize (Piece.quoted body).chars - 1 =
      byteSize (before ++ ['"']) + byteSize body := by
    rw [Piece.chars, ← List.singleton_append, byteSize_append, byteSize_append, byteSize_append,
      hquote]
    omega
  rw [hstop, ← hquote, ← byteSize_append]
  exact slice?_word hsplit

end Texts

variable {source : String} {before : List Char}

theorem ofLexemes_ofPieces {fileId : Nat} {ps : List Piece} (problems : List Diagnostic)
    (h : source.toList = before ++ ps.flatMap Piece.chars) :
    ofLexemes source problems (Lexed.ofPieces fileId (byteSize before) ps).lexemes =
      { ofPieces fileId (byteSize before) ps with problems } := by
  induction ps generalizing before with
  | nil => rfl
  | cons p ps ih =>
    rw [List.flatMap_cons, ← List.append_assoc] at h
    have hrest := ih h
    rw [byteSize_append] at hrest
    cases p with
    | space | stray | unclosed => exact hrest
    | word kind cs =>
      have htext : Text.slice? source (byteSize before) (byteSize before + byteSize cs) =
          some (String.ofList cs) := slice?_word h
      simp only [Lexed.ofPieces, Piece.cut, Cut.before, ofLexemes, Lexeme.text?, Nat.add_zero,
        Nat.sub_zero, ofPieces, Piece.chars] at hrest ⊢
      rw [hrest, htext]
      rfl
    | quoted body =>
      have htext := slice?_quoted h
      simp only [Lexed.ofPieces, Piece.cut, Cut.before, ofLexemes, Lexeme.text?, ofPieces]
      rw [hrest, htext]
      rfl

theorem problems_ofPieces (fileId start : Nat) (ps : List Piece) :
    (Lexed.ofPieces fileId start ps).problems = (ofPieces fileId start ps).problems := by
  induction ps generalizing start with
  | nil => rfl
  | cons p ps ih =>
    cases p with
    | space | word | quoted => exact ih _
    | stray | unclosed => exact congrArg (List.cons _) (ih _)

theorem ofText_eq (fileId : Nat) (text : String) :
    ofText fileId text = ofPieces fileId 0 (pieces text.toList) := by
  have htext : text.toList = [] ++ (pieces text.toList).flatMap Piece.chars := by
    rw [flatMap_pieces, List.nil_append]
  rw [ofText, lex_eq, problems_ofPieces]
  exact ofLexemes_ofPieces _ htext

end Scan

end FrontEnd.Expr
