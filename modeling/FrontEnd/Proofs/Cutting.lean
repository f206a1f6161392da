import FrontEnd.Proofs.Pieces

namespace FrontEnd.Expr

/-- No word goes on into the characters. -/
def EndsWord (cs : List Char) : Prop := ∀ c ∈ cs.head?, Cut.isWordRest c = false

theorem endsWord_nil : EndsWord [] := by simp [EndsWord]

theorem endsWord_cons {c : Char} {cs : List Char} :
    EndsWord (c :: cs) ↔ Cut.isWordRest c = false := by
  simp [EndsWord]

theorem EndsWord.append {cs ds : List Char} (hcs : EndsWord cs) (hds : EndsWord ds) :
    EndsWord (cs ++ ds) := by
  cases cs with
  | nil => exact hds
  | cons c cs => exact endsWord_cons.mpr (endsWord_cons.mp hcs)

/-- A word of letters, digits and underscores that is no truth value. -/
def IsIdentifier (name : String) : Prop :=
  ∃ c cs, name.toList = c :: cs ∧ Cut.isWordStart c = true ∧ cs.all Cut.isWordRest = true ∧
    Cut.wordKind (c :: cs) = .ident

namespace Piece

open Cut

theorem isWordRest_of_number {c : Char} (h : isNumberRest c = true) : isWordRest c = true := by
  rcases Bool.or_eq_true_iff.mp h with hd | hu
  · simp [isWordRest, hd]
  · simp [isWordRest, isWordStart, hu]

theorem not_isDigit_of_alpha {c : Char} (h : c.isAlpha = true) : c.isDigit = false := by
  have hletter : 'A'.val ≤ c.val := by
    rcases Bool.or_eq_true_iff.mp (show (c.isUpper || c.isLower) = true from h) with hu | hl
    · have hrange : c.val ≥ 'A'.val ∧ c.val ≤ 'Z'.val := of_decide_eq_true hu
      exact hrange.1
    · have hlow : 'a'.val ≤ c.val := of_decide_eq_true (Bool.and_eq_true_iff.mp hl).1
      exact UInt32.le_trans (by decide) hlow
  cases hd : c.isDigit with
  | false => rfl
  | true =>
    have hhigh : c.val ≤ '9'.val := of_decide_eq_true (Bool.and_eq_true_iff.mp hd).2
    exact absurd (UInt32.le_trans hletter hhigh) (by decide)

theorem not_isDigit_of_start {c : Char} (h : isWordStart c = true) : c.isDigit = false := by
  simp only [isWordStart, Bool.or_eq_true, beq_iff_eq] at h
  rcases h with h | rfl
  · exact not_isDigit_of_alpha h
  · rfl

theorem ne_of_class {p : Char → Bool} {c d : Char} (hc : p c = true) (hd : p d = false) :
    c ≠ d := by
  intro heq
  rw [heq, hd] at hc
  cases hc

theorem single_apart {c : Char} {kind : TokenKind} (h : single? c = some kind) :
    isSpace c = false ∧ isWordRest c = false ∧ kind ≠ .ident := by
  unfold single? at h
  split at h
  case h_6 => cases h
  all_goals
    cases h
    exact ⟨rfl, rfl, by decide⟩

theorem word_apart {c : Char} (h : isWordRest c = true) :
    isSpace c = false ∧ single? c = none ∧ c ≠ '"' := by
  have hne (d : Char) (hd : isWordRest d = false) : c ≠ d := ne_of_class h hd
  refine ⟨?_, ?_, hne '"' rfl⟩
  · simp [isSpace, hne ' ' rfl, hne '\t' rfl, hne '\n' rfl, hne '\r' rfl]
  · cases hs : single? c with
    | none => rfl
    | some kind =>
      obtain ⟨-, hrest, -⟩ := single_apart hs
      rw [h] at hrest
      cases hrest

theorem takeWhile_run {p : Char → Bool} {run rest : List Char} (hrun : ∀ c ∈ run, p c = true)
    (hrest : ∀ c ∈ rest.head?, p c = false) :
    (run ++ rest).takeWhile p = run ∧ (run ++ rest).dropWhile p = rest := by
  rw [List.takeWhile_append_of_pos hrun, List.dropWhile_append_of_pos hrun]
  cases rest with
  | nil => simp
  | cons c cs =>
    have hc : p c = false := hrest c rfl
    simp [hc]

theorem first_of_start {c : Char} (h : isWordStart c = true) (cs : List Char) :
    first c cs = (.word (wordKind (c :: cs.takeWhile isWordRest)) (c :: cs.takeWhile isWordRest),
      cs.dropWhile isWordRest) := by
  have hword : isWordRest c = true := by simp [isWordRest, h]
  obtain ⟨hspace, hsingle, hquote⟩ := word_apart hword
  have hminus : c ≠ '-' := ne_of_class h rfl
  simp [first, hspace, hsingle, hquote, hminus, not_isDigit_of_start h, h]

theorem first_of_digit {c : Char} {cs : List Char}
    (h : c.isDigit = true ∨ c = '-' ∧ ∃ d ∈ cs.head?, d.isDigit = true) :
    first c cs = (.word .int (c :: cs.takeWhile isNumberRest), cs.dropWhile isNumberRest) := by
  rcases h with h | ⟨rfl, d, hd, hdigit⟩
  · have hword : isWordRest c = true := by simp [isWordRest, h]
    obtain ⟨hspace, hsingle, hquote⟩ := word_apart hword
    simp [first, hspace, hsingle, hquote, h]
  · have hspace : isSpace '-' = false := rfl
    have hsingle : single? '-' = none := rfl
    simp [first, hspace, hsingle, Option.mem_def.mp hd, hdigit]

theorem ident_of_first {c : Char} {cs w : List Char} (h : (first c cs).1 = .word .ident w) :
    isWordStart c = true ∧ w = c :: cs.takeWhile isWordRest ∧ wordKind w = .ident := by
  unfold first at h
  split at h
  · cases h
  split at h
  · rename_i kind hkind
    cases h
    exact absurd rfl (single_apart hkind).2.2
  split at h
  · split at h <;> cases h
  split at h
  · cases h
  split at h
  · rename_i hstart
    simp only [word.injEq] at h
    obtain ⟨hkind, rfl⟩ := h
    exact ⟨hstart, rfl, hkind⟩
  · cases h

end Piece

theorem EndsWord.endsNumber {cs : List Char} (h : EndsWord cs) :
    ∀ c ∈ cs.head?, Cut.isNumberRest c = false := fun c hc =>
  Bool.eq_false_iff.mpr fun hn => Bool.eq_false_iff.mp (h c hc) (Piece.isWordRest_of_number hn)

theorem pieces_nil : pieces [] = [] := by rw [pieces]

theorem pieces_cons (c : Char) (cs : List Char) :
    pieces (c :: cs) = (Piece.first c cs).1 :: pieces (Piece.first c cs).2 := by rw [pieces]

theorem pieces_space {c : Char} (h : Cut.isSpace c = true) (cs : List Char) :
    pieces (c :: cs) = .space c :: pieces cs := by
  have hfirst : Piece.first c cs = (.space c, cs) := by simp [Piece.first, h]
  rw [pieces_cons, hfirst]

theorem pieces_single {c : Char} {kind : TokenKind} (h : Cut.single? c = some kind)
    (cs : List Char) : pieces (c :: cs) = .word kind [c] :: pieces cs := by
  rw [pieces_cons, Piece.first, (Piece.single_apart h).1]
  simp [h]

variable {c : Char} {cs rest : List Char}

theorem pieces_word (hc : Cut.isWordStart c = true) (hcs : cs.all Cut.isWordRest = true)
    (hr : EndsWord rest) :
    pieces (c :: (cs ++ rest)) = .word (Cut.wordKind (c :: cs)) (c :: cs) :: pieces rest := by
  obtain ⟨htake, hdrop⟩ := Piece.takeWhile_run (List.all_eq_true.mp hcs) hr
  rw [pieces_cons, Piece.first_of_start hc, htake, hdrop]

theorem pieces_number
    (hc : c.isDigit = true ∨ c = '-' ∧ ∃ d ∈ (cs ++ rest).head?, d.isDigit = true)
    (hcs : ∀ d ∈ cs, Cut.isNumberRest d = true) (hr : EndsWord rest) :
    pieces (c :: (cs ++ rest)) = .word .int (c :: cs) :: pieces rest := by
  obtain ⟨htake, hdrop⟩ := Piece.takeWhile_run hcs hr.endsNumber
  rw [pieces_cons, Piece.first_of_digit hc, htake, hdrop]

theorem pieces_quoted {body : List Char}
    (h : Piece.untilQuote cs = some (body, rest)) :
    pieces ('"' :: cs) = .quoted body :: pieces rest := by
  have hfirst : Piece.first '"' cs = (.quoted body, rest) := by
    simp [Piece.first, Cut.isSpace, Cut.single?, h]
  rw [pieces_cons, hfirst]

theorem isIdentifier_of_mem {w : List Char} (h : .word .ident w ∈ pieces cs) :
    IsIdentifier (String.ofList w) := by
  fun_induction pieces cs with
  | case1 => cases h
  | case2 c cs ih =>
    rcases List.mem_cons.mp h with heq | h
    · obtain ⟨hstart, rfl, hkind⟩ := Piece.ident_of_first heq.symm
      exact ⟨c, _, String.toList_ofList, hstart, List.all_takeWhile, hkind⟩
    · exact ih h

theorem isIdentifier_of_token {fileId start : Nat} {ps : List Piece} {t : Token}
    (hps : ∀ w, .word .ident w ∈ ps → IsIdentifier (String.ofList w))
    (ht : t ∈ (Scan.ofPieces fileId start ps).tokens) (hk : t.kind = .ident) :
    IsIdentifier t.text := by
  induction ps generalizing start with
  | nil => cases ht
  | cons p ps ih =>
    have htail (w : List Char) (hw : .word .ident w ∈ ps) := hps w (List.mem_cons_of_mem p hw)
    cases p with
    | space | stray | unclosed => exact ih htail ht
    | word kind cs =>
      rcases List.mem_cons.mp ht with rfl | ht
      · obtain rfl : kind = .ident := hk
        exact hps cs List.mem_cons_self
      · exact ih htail ht
    | quoted body =>
      rcases List.mem_cons.mp ht with rfl | ht
      · cases hk
      · exact ih htail ht

theorem isIdentifier_of_mem_tokens {fileId : Nat} {text : String} {t : Token}
    (ht : t ∈ (Scan.ofText fileId text).tokens) (hk : t.kind = .ident) : IsIdentifier t.text := by
  rw [Scan.ofText_eq] at ht
  exact isIdentifier_of_token (fun _ => isIdentifier_of_mem) ht hk

/-- The scan with tokens before its own. -/
def Scan.after (ts : List Token) (s : Scan) : Scan := { s with tokens := ts ++ s.tokens }

/-- The characters are tokens with the property, wherever they stand and whatever follows that does
not go on with a word. -/
def Scans (cs : List Char) (P : List Token → Prop) : Prop :=
  ∀ fileId start rest, EndsWord rest → ∃ ts stop, P ts ∧
    Scan.ofPieces fileId start (pieces (cs ++ rest)) =
      (Scan.ofPieces fileId stop (pieces rest)).after ts

def IsToken (kind : TokenKind) (text : String) (ts : List Token) : Prop :=
  ∃ t, ts = [t] ∧ t.kind = kind ∧ t.text = text

section

variable {ds body : List Char} {kind : TokenKind} {name : String} {P Q : List Token → Prop}

theorem Scans.mono (h : Scans cs P) (hPQ : ∀ ts, P ts → Q ts) : Scans cs Q := by
  intro fileId start rest hr
  obtain ⟨ts, stop, hts, heq⟩ := h fileId start rest hr
  exact ⟨ts, stop, hPQ ts hts, heq⟩

theorem scans_nil : Scans [] (· = []) := fun _ start _ _ => ⟨[], start, rfl, rfl⟩

/-- Tokens stand behind one another where those behind do not go on with a word. -/
theorem Scans.append (h : Scans cs P) (hds : EndsWord ds) (h' : Scans ds Q) :
    Scans (cs ++ ds) fun ts => ∃ us vs, ts = us ++ vs ∧ P us ∧ Q vs := by
  intro fileId start rest hr
  obtain ⟨us, mid, hus, heq⟩ := h fileId start (ds ++ rest) (hds.append hr)
  obtain ⟨vs, stop, hvs, heq'⟩ := h' fileId mid rest hr
  refine ⟨us ++ vs, stop, ⟨us, vs, rfl, hus, hvs⟩, ?_⟩
  rw [List.append_assoc, heq, heq']
  simp [Scan.after]

theorem Scans.space (h : Scans cs P) : Scans (' ' :: cs) P := by
  intro fileId start rest hr
  rw [List.cons_append, pieces_space rfl]
  exact h fileId _ rest hr

theorem Scans.single (hc : Cut.single? c = some kind) (h : Scans cs P) :
    Scans (c :: cs) fun ts => ∃ t us, ts = t :: us ∧ t.kind = kind ∧ P us := by
  intro fileId start rest hr
  rw [List.cons_append, pieces_single hc]
  let mid := start + Scan.byteSize [c]
  obtain ⟨us, stop, hus, heq⟩ := h fileId mid rest hr
  refine ⟨⟨kind, ⟨fileId, start, mid⟩, String.ofList [c]⟩ :: us, stop, ⟨_, us, rfl, rfl, hus⟩, ?_⟩
  simp only [Scan.ofPieces, Piece.chars]
  rw [heq]
  rfl

theorem Scans.bracketed {l r : Char} {kind' : TokenKind} (h : Scans cs P)
    (hl : Cut.single? l = some kind) (hr : Cut.single? r = some kind') :
    Scans (l :: (cs ++ [r])) fun ts =>
      ∃ t us u, ts = t :: (us ++ [u]) ∧ t.kind = kind ∧ P us ∧ u.kind = kind' := by
  have hend : EndsWord [r] := endsWord_cons.mpr (Piece.single_apart hr).2.1
  have hinside := h.append hend (scans_nil.single hr)
  refine (hinside.single hl).mono ?_
  rintro _ ⟨t, _, rfl, ht, us, _, rfl, hus, u, _, rfl, hu, rfl⟩
  exact ⟨t, us, u, rfl, ht, hus, hu⟩

theorem scans_of_word
    (h : ∀ rest, EndsWord rest → pieces (cs ++ rest) = .word kind cs :: pieces rest) :
    Scans cs (IsToken kind (String.ofList cs)) := by
  intro fileId start rest hr
  rw [h rest hr]
  refine ⟨[⟨kind, ⟨fileId, start, start + Scan.byteSize cs⟩, String.ofList cs⟩], _, ?_, rfl⟩
  exact ⟨_, rfl, rfl, rfl⟩

theorem scans_word (hc : Cut.isWordStart c = true) (hcs : cs.all Cut.isWordRest = true) :
    Scans (c :: cs) (IsToken (Cut.wordKind (c :: cs)) (String.ofList (c :: cs))) :=
  scans_of_word fun _ hr => pieces_word hc hcs hr

theorem scans_identifier (h : IsIdentifier name) : Scans name.toList (IsToken .ident name) := by
  obtain ⟨c, cs, hname, hc, hcs, hkind⟩ := h
  have hscan := scans_word hc hcs
  rw [hkind, ← hname, String.ofList_toList] at hscan
  exact hscan

theorem scans_number (hc : c.isDigit = true ∨ c = '-' ∧ ∃ d ∈ cs.head?, d.isDigit = true)
    (hcs : ∀ d ∈ cs, Cut.isNumberRest d = true) :
    Scans (c :: cs) (IsToken .int (String.ofList (c :: cs))) := by
  refine scans_of_word fun rest hr => pieces_number ?_ hcs hr
  rcases hc with hc | ⟨rfl, d, hd, hdigit⟩
  · exact .inl hc
  · refine .inr ⟨rfl, d, ?_, hdigit⟩
    rw [List.head?_append, Option.mem_def.mp hd]
    rfl

theorem scans_quoted
    (h : ∀ rest, Piece.untilQuote (body ++ '"' :: rest) = some (body, rest)) :
    Scans ('"' :: (body ++ ['"'])) (IsToken .string (String.ofList body)) := by
  intro fileId start rest _
  rw [List.cons_append, List.append_assoc, List.singleton_append, pieces_quoted (h rest)]
  let stop := start + Scan.byteSize (Piece.quoted body).chars
  refine ⟨[⟨.string, ⟨fileId, start, stop⟩, String.ofList body⟩], stop, ?_, rfl⟩
  exact ⟨_, rfl, rfl, rfl⟩

theorem Scans.ofText {text : String} (h : Scans text.toList P) (fileId : Nat) :
    P (Scan.ofText fileId text).tokens ∧ (Scan.ofText fileId text).problems = [] := by
  obtain ⟨ts, stop, hts, heq⟩ := h fileId 0 [] endsWord_nil
  have hscan : Scan.ofText fileId text = ⟨ts, stop, []⟩ := by
    rw [List.append_nil, pieces_nil] at heq
    rw [Scan.ofText_eq]
    simpa [Scan.ofPieces, Scan.after] using heq
  rw [hscan]
  exact ⟨hts, rfl⟩

end

end FrontEnd.Expr
