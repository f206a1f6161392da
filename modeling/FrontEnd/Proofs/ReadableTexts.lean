import FrontEnd.Proofs.Cutting
import FrontEnd.Proofs.Quoting

namespace FrontEnd.Expr

open Text

private theorem flatMap_eq_self_iff {α : Type} {g : α → List α} (hg : ∀ a, g a ≠ [])
    (as : List α) : as.flatMap g = as ↔ ∀ a ∈ as, g a = [a] := by
  have hpos (a : α) : 0 < (g a).length := List.length_pos_iff.mpr (hg a)
  have hlonger (bs : List α) : bs.length ≤ (bs.flatMap g).length := by
    induction bs with
    | nil => exact Nat.le_refl 0
    | cons b bs ih =>
      have hb := hpos b
      rw [List.flatMap_cons, List.length_append, List.length_cons]
      omega
  constructor
  · intro h
    induction as with
    | nil => exact List.forall_mem_nil _
    | cons a as ih =>
      rw [List.flatMap_cons] at h
      -- What follows takes no less than it took, so one place is left for the first element.
      have hone : (g a).length = 1 := by
        have hlength := congrArg List.length h
        have hrest := hlonger as
        have ha := hpos a
        rw [List.length_append, List.length_cons] at hlength
        omega
      obtain ⟨b, hb⟩ := List.length_eq_one_iff.mp hone
      rw [hb, List.singleton_append, List.cons.injEq] at h
      obtain ⟨hba, hrest⟩ := h
      exact List.forall_mem_cons.mpr ⟨hb.trans (by rw [hba]), ih hrest⟩
  · intro h
    induction as with
    | nil => rfl
    | cons a as ih =>
      rw [List.forall_mem_cons] at h
      rw [List.flatMap_cons, h.1, ih h.2, List.singleton_append]

section

variable {c : Char}

theorem unescape_flatMap (cs : List Char) :
    unescape (cs.flatMap escapeChar) = cs.flatMap fun c => unescape (escapeChar c) := by
  induction cs with
  | nil => rfl
  | cons c cs ih => rw [List.flatMap_cons, List.flatMap_cons, unescape_escapeChar, ih]

theorem unescape_escapeChar_ne_nil (c : Char) : unescape (escapeChar c) ≠ [] := by
  rcases escapeChar_cases c with ⟨heq, hc⟩ | ⟨d, ds, heq, -⟩
  · rw [heq, unescape_cons hc.2]
    exact List.cons_ne_nil _ _
  · rw [heq, unescape_pair]
    exact List.cons_ne_nil _ _

theorem length_unescape_codePointEscape (c : Char) :
    1 < (unescape (codePointEscape c)).length := by
  have hopen : unescape (codePointEscape c) =
      'u' :: unescape ('\x7b' :: (Nat.toDigits 16 c.toNat ++ ['\x7d'])) := unescape_pair 'u' _
  have hbrace : unescape ('\x7b' :: (Nat.toDigits 16 c.toNat ++ ['\x7d'])) =
      '\x7b' :: unescape (Nat.toDigits 16 c.toNat ++ ['\x7d']) := unescape_cons (by decide) _
  rw [hopen, hbrace, List.length_cons, List.length_cons]
  omega

/-- A character is read back exactly if it is written by an escape that reading knows: the others
are read as a letter, a digit or the whole escape. -/
theorem unescape_escapeChar_iff : unescape (escapeChar c) = [c] ↔ IsReadable c := by
  refine ⟨fun h => ⟨fun heq => ?_, fun heq => ?_, fun heq => ?_⟩, unescape_of_isReadable⟩
  · have hc : c = 'r' := by
      rw [heq] at h
      exact (List.singleton_inj.mp h).symm
    rw [hc] at heq
    exact absurd heq (by decide)
  · have hc : c = '0' := by
      rw [heq] at h
      exact (List.singleton_inj.mp h).symm
    rw [hc] at heq
    exact absurd heq (by decide)
  · have hlength := length_unescape_codePointEscape c
    rw [← heq, h] at hlength
    exact absurd hlength (Nat.lt_irrefl 1)

theorem unescape_escaped_iff (cs : List Char) :
    unescape (cs.flatMap escapeChar) = cs ↔ ∀ c ∈ cs, IsReadable c := by
  rw [unescape_flatMap, flatMap_eq_self_iff unescape_escapeChar_ne_nil]
  simp only [unescape_escapeChar_iff]

end

theorem pieces_quote (s : String) :
    pieces (quote s).toList = [.quoted (s.toList.flatMap escapeChar)] := by
  have hchars : (quote s).toList = '"' :: (s.toList.flatMap escapeChar ++ '"' :: []) := by
    rw [quote, String.toList_ofList, List.cons_append]
  rw [hchars, pieces_quoted (untilQuote_escaped s.toList []), pieces_nil]

/-- Which texts survive being printed: the quoted form of a text is read as one string token that
takes all of it, without problems, and what the token says means the text exactly if no character of
the text is written as a carriage return, as a null or by its code point. -/
theorem lex_quote (fileId : Nat) (s : String) :
    ∃ t stop, lex fileId (quote s) = ⟨[t, ⟨none, ⟨fileId, stop, stop⟩, stop, stop⟩], []⟩ ∧
      t.kind = some .string ∧ t.span = ⟨fileId, 0, stop⟩ ∧ stop = (quote s).utf8ByteSize ∧
      ∃ text, t.text? (quote s) = some text ∧
        (String.ofList (unescape text.toList) = s ↔ ∀ c ∈ s.toList, IsReadable c) := by
  let body := s.toList.flatMap escapeChar
  let stop := (quote s).utf8ByteSize
  have hchars : (quote s).toList = [] ++ (Piece.quoted body).chars ++ [] := by
    rw [List.append_nil, List.nil_append, ← List.append_nil (Piece.chars _)]
    have hall := flatMap_pieces (quote s).toList
    rw [pieces_quote] at hall
    exact hall.symm
  have hstop : stop = Scan.byteSize (Piece.quoted body).chars := by
    have hbytes := length_bytes (quote s)
    rw [bytes_eq, hchars, List.append_nil, List.nil_append] at hbytes
    exact hbytes.symm
  -- The one piece is a token over the whole text, whose margin is a quote on either side.
  refine ⟨⟨some .string, ⟨fileId, 0, stop⟩, 1, stop - 1⟩, stop, ?_, rfl, rfl, rfl,
    String.ofList body, ?_, ?_⟩
  · rw [lex_eq, pieces_quote, Lexed.ofPieces, Lexed.ofPieces, Nat.zero_add, ← hstop]
    rfl
  · have hslice := Scan.slice?_quoted hchars
    rw [← hstop] at hslice
    simpa [Lexeme.text?, Scan.byteSize] using hslice
  · rw [String.toList_ofList, ← unescape_escaped_iff, ← String.toList_inj, String.toList_ofList]

/-- A carriage return comes back as a letter. -/
example : unescape ("r\r".toList.flatMap escapeChar) = "rr".toList := by decide

end FrontEnd.Expr
