import FrontEnd.Expr.Parser
import FrontEnd.Proofs.Pieces
import FrontEnd.Text.Quoted

namespace FrontEnd

namespace Text

/-- The character is not written by an escape that reading does not know. -/
def IsReadable (c : Char) : Prop :=
  escapeChar c ≠ ['\\', 'r'] ∧ escapeChar c ≠ ['\\', '0'] ∧ escapeChar c ≠ codePointEscape c

instance : DecidablePred IsReadable := fun c =>
  inferInstanceAs (Decidable (escapeChar c ≠ ['\\', 'r'] ∧ escapeChar c ≠ ['\\', '0'] ∧
    escapeChar c ≠ codePointEscape c))

def IsOrdinary (c : Char) : Prop := c ≠ '"' ∧ c ≠ '\\'

theorem isOrdinary_of_mem_toDigits {n : Nat} {d : Char} (h : d ∈ Nat.toDigits 16 n) :
    IsOrdinary d := by
  have hdigit : ∀ k < 16, k.digitChar ≠ '"' ∧ k.digitChar ≠ '\\' := by decide
  induction n using Nat.strongRecOn with
  | ind n ih =>
    rw [Nat.toDigits_eq_if (by decide)] at h
    split at h
    · rename_i hn
      exact List.mem_singleton.mp h ▸ hdigit n hn
    · rcases List.mem_append.mp h with h | h
      · exact ih (n / 16) (by omega) h
      · exact List.mem_singleton.mp h ▸ hdigit (n % 16) (Nat.mod_lt n (by decide))

/-- What the character behind a backslash means. -/
def escapedMeaning (d : Char) : Char := if d = 'n' then '\n' else if d = 't' then '\t' else d

/-- A character is written as itself, as a pair or by its code point; the two pairs that do not mean
it are those that reading does not know. -/
theorem escapeChar_forms (c : Char) :
    escapeChar c = [c] ∧ IsOrdinary c ∨
      (∃ d, escapeChar c = ['\\', d] ∧ (escapedMeaning d = c ∨ d = 'r' ∨ d = '0')) ∨
      escapeChar c = codePointEscape c := by
  unfold escapeChar
  split
  · exact .inr (.inl ⟨_, rfl, .inl (by simp [*, escapedMeaning])⟩)
  split
  · exact .inr (.inl ⟨_, rfl, .inl (by simp [*, escapedMeaning])⟩)
  split
  · exact .inr (.inl ⟨_, rfl, .inl (by simp [*, escapedMeaning])⟩)
  split
  · exact .inr (.inl ⟨_, rfl, .inr (.inl rfl)⟩)
  split
  · exact .inr (.inl ⟨_, rfl, .inl (by simp [*, escapedMeaning])⟩)
  split
  · exact .inr (.inl ⟨_, rfl, .inr (.inr rfl)⟩)
  split
  · rename_i hquote hbackslash _ _ _ _ _
    exact .inl ⟨rfl, hquote, hbackslash⟩
  · exact .inr (.inr rfl)

theorem escapeChar_cases (c : Char) :
    escapeChar c = [c] ∧ IsOrdinary c ∨
      ∃ d ds, escapeChar c = '\\' :: d :: ds ∧ ∀ x ∈ ds, IsOrdinary x := by
  rcases escapeChar_forms c with h | ⟨d, heq, -⟩ | heq
  · exact .inl h
  · exact .inr ⟨d, [], heq, List.forall_mem_nil _⟩
  · refine .inr ⟨'u', '\x7b' :: (Nat.toDigits 16 c.toNat ++ ['\x7d']), heq, ?_⟩
    intro x hx
    rcases List.mem_cons.mp hx with rfl | hx
    · exact ⟨by decide, by decide⟩
    rcases List.mem_append.mp hx with hx | hx
    · exact isOrdinary_of_mem_toDigits hx
    · exact List.mem_singleton.mp hx ▸ ⟨by decide, by decide⟩

end Text

namespace Expr

open Text

section

variable {c : Char} {cs ds rest : List Char}

theorem untilQuote_cons (hc : IsOrdinary c) (cs : List Char) :
    Piece.untilQuote (c :: cs) = (Piece.untilQuote cs).map fun p => (c :: p.1, p.2) := by
  simp [Piece.untilQuote, hc.1, hc.2]

theorem untilQuote_ordinary (hds : ∀ d ∈ ds, IsOrdinary d) (cs : List Char) :
    Piece.untilQuote (ds ++ cs) = (Piece.untilQuote cs).map fun p => (ds ++ p.1, p.2) := by
  induction ds with
  | nil => simp
  | cons d ds ih =>
    rw [List.forall_mem_cons] at hds
    rw [List.cons_append, untilQuote_cons hds.1, ih hds.2, Option.map_map]
    rfl

theorem untilQuote_escapeChar (c : Char) (cs : List Char) :
    Piece.untilQuote (escapeChar c ++ cs) =
      (Piece.untilQuote cs).map fun p => (escapeChar c ++ p.1, p.2) := by
  rcases escapeChar_cases c with ⟨heq, hc⟩ | ⟨d, ds, heq, hds⟩
  · rw [heq, List.singleton_append, untilQuote_cons hc]
    rfl
  · rw [heq, List.cons_append, List.cons_append, Piece.untilQuote, untilQuote_ordinary hds,
      Option.map_map]
    rfl

theorem untilQuote_escaped (s rest : List Char) :
    Piece.untilQuote (s.flatMap escapeChar ++ '"' :: rest) = some (s.flatMap escapeChar, rest) := by
  induction s with
  | nil => rfl
  | cons c s ih =>
    rw [List.flatMap_cons, List.append_assoc, untilQuote_escapeChar, ih]
    rfl

theorem unescape_cons (hc : c ≠ '\\') (cs : List Char) : unescape (c :: cs) = c :: unescape cs := by
  simp [unescape, hc]

theorem unescape_pair (d : Char) (cs : List Char) :
    unescape ('\\' :: d :: cs) = escapedMeaning d :: unescape cs := by
  unfold escapedMeaning
  split
  · subst d
    rfl
  split
  · subst d
    rfl
  · simp [unescape, *]

theorem unescape_ordinary (hds : ∀ d ∈ ds, IsOrdinary d) (cs : List Char) :
    unescape (ds ++ cs) = ds ++ unescape cs := by
  induction ds with
  | nil => rfl
  | cons d ds ih =>
    rw [List.forall_mem_cons] at hds
    rw [List.cons_append, unescape_cons hds.1.2, ih hds.2, List.cons_append]

theorem unescape_escapeChar (c : Char) (cs : List Char) :
    unescape (escapeChar c ++ cs) = unescape (escapeChar c) ++ unescape cs := by
  rcases escapeChar_cases c with ⟨heq, hc⟩ | ⟨d, ds, heq, hds⟩
  · rw [heq, List.singleton_append, unescape_cons hc.2, unescape_cons hc.2]
    rfl
  · have hread : unescape ds = ds := by simpa [unescape] using unescape_ordinary hds []
    rw [heq, List.cons_append, List.cons_append, unescape_pair, unescape_pair,
      unescape_ordinary hds, hread, List.cons_append]

theorem unescape_of_isReadable (h : IsReadable c) : unescape (escapeChar c) = [c] := by
  obtain ⟨hr, hzero, hcode⟩ := h
  rcases escapeChar_forms c with ⟨heq, hc⟩ | ⟨d, heq, hd | rfl | rfl⟩ | heq
  · rw [heq]
    exact unescape_cons hc.2 []
  · rw [heq, unescape_pair, hd]
    rfl
  · exact absurd heq hr
  · exact absurd heq hzero
  · exact absurd heq hcode

theorem unescape_escaped {s : List Char} (h : ∀ c ∈ s, IsReadable c) :
    unescape (s.flatMap escapeChar) = s := by
  induction s with
  | nil => rfl
  | cons c s ih =>
    rw [List.forall_mem_cons] at h
    rw [List.flatMap_cons, unescape_escapeChar, unescape_of_isReadable h.1, ih h.2]
    rfl

end

end Expr

end FrontEnd
