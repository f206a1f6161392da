import FrontEnd.Data.Json
import FrontEnd.Data.Json.Reader
import FrontEnd.Proofs.Cutting
import Mathlib.Data.List.Forall2

namespace FrontEnd.Json

open Toml (hexValue? hexNumber? prepend isNegative isContinued)

/-- A character that may stand behind an item. -/
def isStop (c : Char) : Bool := isBlank c || c == ',' || c == ']' || c == '\x7d'

/-- An item may end before the characters. -/
def Stops (rest : List Char) : Prop := ∀ c ∈ rest.head?, isStop c = true

theorem stops_nil : Stops [] := by simp [Stops]

theorem stops_cons {c : Char} {cs : List Char} : Stops (c :: cs) ↔ isStop c = true := by
  simp [Stops]

theorem not_numeric_of_stop {c : Char} (h : isStop c = true) (cs : List Char) :
    c.isDigit = false ∧ isContinued (c :: cs) = false := by
  simp only [isStop, isBlank, Bool.or_eq_true, beq_iff_eq] at h
  rcases h with (((((rfl | rfl) | rfl) | rfl) | rfl) | rfl) | rfl
  all_goals exact ⟨rfl, rfl⟩

theorem skipBlank_gap {gap rest : List Char} (hgap : ∀ c ∈ gap, isBlank c = true)
    (hrest : ∀ c ∈ rest.head?, isBlank c = false) : skipBlank (gap ++ rest) = rest :=
  (Expr.Piece.takeWhile_run hgap hrest).2

section

variable {α : Type} {item? : List Char → Option (α × List Char)} {text : List Char} {a : α}

/-- The text is read as an item wherever it stands, and nothing that may stand behind an item
begins it. -/
structure ReadAs (item? : List Char → Option (α × List Char)) (text : List Char) (a : α) :
    Prop where
  begins : ∃ c cs, text = c :: cs ∧ isStop c = false
  read : ∀ rest, Stops rest → item? (text ++ rest) = some (a, rest)

theorem ReadAs.not_blank (h : ReadAs item? text a) (rest : List Char) :
    ∀ c ∈ (text ++ rest).head?, isBlank c = false := by
  obtain ⟨c, cs, rfl, hc⟩ := h.begins
  simp only [isStop, Bool.or_eq_false_iff] at hc
  simpa using hc.1.1.1

end

theorem hexValue_hexDigit {n : Nat} (h : n < 16) : hexValue? (hexDigit n) = some n := by
  have hall : ∀ k < 16, hexValue? (hexDigit k) = some k := by decide
  exact hall n h

theorem unicode_control {c : Char} (h : c.toNat < 0x20) (cs : List Char) :
    unicode? ('0' :: '0' :: hexDigit (c.toNat / 16) :: hexDigit (c.toNat % 16) :: cs) =
      some (c, cs) := by
  have hzero : hexValue? '0' = some 0 := rfl
  have hhigh : hexValue? (hexDigit (c.toNat / 16)) = some (c.toNat / 16) :=
    hexValue_hexDigit (by omega)
  have hlow : hexValue? (hexDigit (c.toNat % 16)) = some (c.toNat % 16) :=
    hexValue_hexDigit (by omega)
  have hnumber : hexNumber? ['0', '0', hexDigit (c.toNat / 16), hexDigit (c.toNat % 16)] =
      some c.toNat := by
    have hsum : 16 * (c.toNat / 16) + c.toNat % 16 = c.toNat := Nat.div_add_mod _ _
    simp [hexNumber?, hzero, hhigh, hlow, hsum]
  have hunit : codeUnit?
      ('0' :: '0' :: hexDigit (c.toNat / 16) :: hexDigit (c.toNat % 16) :: cs) =
        some (c.toNat, cs) := by
    rw [codeUnit?, if_neg (by simp)]
    change (hexNumber? ['0', '0', _, _]).map _ = _
    rw [hnumber]
    rfl
  rw [unicode?, hunit]
  exact dif_pos c.valid

theorem escapeChar_cases (c : Char) :
    escapeChar c = [c] ∧ c ≠ '"' ∧ c ≠ '\\' ∧ ¬ c.toNat < 0x20 ∨
      ∃ ds, escapeChar c = '\\' :: ds ∧ ∀ cs, escape? (ds ++ cs) = some (c, cs) := by
  by_cases hletter : c ∈ ['"', '\\', '\n', '\r', '\t', '\x08', '\x0c']
  · -- These have an escape of one letter.
    simp only [List.mem_cons, List.not_mem_nil, or_false] at hletter
    rcases hletter with rfl | rfl | rfl | rfl | rfl | rfl | rfl
    all_goals exact .inr ⟨_, rfl, fun _ => rfl⟩
  · simp only [List.mem_cons, List.not_mem_nil, or_false, not_or] at hletter
    by_cases hcontrol : c.toNat < 0x20
    · refine .inr ⟨['u', '0', '0', hexDigit (c.toNat / 16), hexDigit (c.toNat % 16)], ?_,
        unicode_control hcontrol⟩
      simp [escapeChar, hletter, hcontrol]
    · refine .inl ⟨?_, hletter.1, hletter.2.1, hcontrol⟩
      simp [escapeChar, hletter, hcontrol]

theorem characters_escapeChar (limit : Nat) (c : Char) (cs : List Char) :
    characters? (limit + 1) (escapeChar c ++ cs) = prepend c (characters? limit cs) := by
  rcases escapeChar_cases c with ⟨heq, hquote, hbackslash, hcontrol⟩ | ⟨ds, heq, hds⟩
  · rw [heq, List.singleton_append, characters?, if_neg hquote, if_neg hbackslash,
      if_neg hcontrol]
  · have hescape : characters? (limit + 1) ('\\' :: (ds ++ cs)) =
        (escape? (ds ++ cs)).bind fun p => prepend p.1 (characters? limit p.2) := rfl
    rw [heq, List.cons_append, hescape, hds]
    rfl

theorem length_le_escaped (cs : List Char) : cs.length ≤ (cs.flatMap escapeChar).length := by
  induction cs with
  | nil => exact Nat.le_refl _
  | cons c cs ih =>
    have hone : 1 ≤ (escapeChar c).length := by
      rcases escapeChar_cases c with ⟨heq, -⟩ | ⟨ds, heq, -⟩ <;> simp [heq]
    rw [List.flatMap_cons, List.length_append, List.length_cons]
    omega

theorem characters_escaped {limit : Nat} {cs : List Char} (h : cs.length < limit)
    (rest : List Char) :
    characters? limit (cs.flatMap escapeChar ++ '"' :: rest) = some (cs, rest) := by
  induction cs generalizing limit with
  | nil =>
    obtain ⟨limit, rfl⟩ := Nat.exists_eq_succ_of_ne_zero (Nat.ne_of_gt h)
    rfl
  | cons c cs ih =>
    obtain ⟨limit, rfl⟩ := Nat.exists_eq_succ_of_ne_zero (Nat.ne_of_gt (Nat.zero_lt_of_lt h))
    rw [List.flatMap_cons, List.append_assoc, characters_escapeChar,
      ih (Nat.lt_of_succ_lt_succ h)]
    rfl

theorem quote_toList (s : String) :
    (quote s).toList = '"' :: (s.toList.flatMap escapeChar ++ ['"']) := by
  rw [quote, String.toList_ofList, List.cons_append]

theorem string_quote (s : String) (rest : List Char) :
    string? ((quote s).toList ++ rest) = some (s, rest) := by
  -- There are at least as many characters behind the opening quote as the string has.
  have hlimit : s.toList.length < (s.toList.flatMap escapeChar ++ '"' :: rest).length := by
    have hle := length_le_escaped s.toList
    rw [List.length_append, List.length_cons]
    omega
  have htext : (quote s).toList ++ rest = '"' :: (s.toList.flatMap escapeChar ++ '"' :: rest) := by
    simp [quote_toList]
  rw [htext, string?, characters_escaped hlimit, Option.map_some, String.ofList_toList]

theorem isWhole_toDigits (n : Nat) : isWhole (Nat.toDigits 10 n) = true := by
  have hdigit : ∀ k < 10, 0 < k → k.digitChar ≠ '0' := by decide
  -- The first digit is that of a number below ten, which is not zero unless it is alone.
  have hhead (n : Nat) (hn : 0 < n) : ∃ c cs, Nat.toDigits 10 n = c :: cs ∧ c ≠ '0' := by
    induction n using Nat.strongRecOn with
    | ind n ih =>
      rw [Nat.toDigits_eq_if (by decide)]
      split
      · rename_i hlt
        exact ⟨_, _, rfl, hdigit n hlt hn⟩
      · obtain ⟨c, cs, heq, hc⟩ := ih (n / 10) (by omega) (by omega)
        exact ⟨c, _, by rw [heq, List.cons_append], hc⟩
  rcases Nat.eq_zero_or_pos n with rfl | hn
  · rfl
  · obtain ⟨c, cs, heq, hc⟩ := hhead n hn
    rw [heq]
    cases cs with
    | nil => rfl
    | cons d ds => simp [isWhole, hc]

theorem number_digits {cs rest : List Char} {n : Nat} (h : skipMinus cs = Nat.toDigits 10 n ++ rest)
    (hrest : Stops rest) : number? cs = some (integer (isNegative cs) n, rest) := by
  have hdigits : ∀ c ∈ Nat.toDigits 10 n, c.isDigit = true := fun c hc =>
    Nat.isDigit_of_mem_toDigits (by decide) (by decide) hc
  -- What stands behind the digits is neither one more of them nor a fraction or an exponent.
  have hstop : (∀ c ∈ rest.head?, c.isDigit = false) ∧ isContinued rest = false := by
    cases rest with
    | nil => exact ⟨by simp, rfl⟩
    | cons c cs =>
      obtain ⟨hdigit, hcontinued⟩ := not_numeric_of_stop (stops_cons.mp hrest) cs
      exact ⟨by simpa using hdigit, hcontinued⟩
  obtain ⟨htake, hdrop⟩ := Expr.Piece.takeWhile_run hdigits hstop.1
  unfold number?
  rw [h, htake, hdrop]
  simp [isWhole_toDigits, hstop.2, Nat.ofDigitChars_ten_toDigits]

theorem digits_begin (n : Nat) : ∃ c cs, Nat.toDigits 10 n = c :: cs ∧ c.isDigit = true := by
  obtain ⟨c, cs, heq⟩ := List.exists_cons_of_ne_nil (Nat.toDigits_ne_nil : Nat.toDigits 10 n ≠ [])
  refine ⟨c, cs, heq, ?_⟩
  exact Nat.isDigit_of_mem_toDigits (by decide) (by decide) (heq ▸ List.mem_cons_self)

theorem unsigned_of_digit {c : Char} (h : c.isDigit = true) (cs : List Char) :
    skipMinus (c :: cs) = c :: cs ∧ isNegative (c :: cs) = false := by
  have hminus : c ≠ '-' := Expr.Piece.ne_of_class h rfl
  exact ⟨by simp [skipMinus, hminus], by simp [isNegative, hminus]⟩

theorem stop_false_of_digit {c : Char} (h : c.isDigit = true) : isStop c = false := by
  cases hstop : isStop c with
  | false => rfl
  | true => exact absurd h (by simp [(not_numeric_of_stop hstop []).1])

theorem readAs_int (n : Int) : ReadAs number? (toString n).toList (.int n) ∧
    ∃ c ∈ (toString n).toList.head?, c.isDigit = true ∨ c = '-' := by
  cases n with
  | ofNat k =>
    have htext : (toString (Int.ofNat k)).toList = Nat.toDigits 10 k := by
      change (toString k).toList = _
      simp
    obtain ⟨c, cs, heq, hc⟩ := digits_begin k
    rw [htext]
    refine ⟨⟨⟨c, cs, heq, stop_false_of_digit hc⟩, fun rest hrest => ?_⟩, c, by simp [heq], .inl hc⟩
    obtain ⟨hskip, hsign⟩ := unsigned_of_digit hc (cs ++ rest)
    rw [← List.cons_append, ← heq] at hskip hsign
    rw [number_digits hskip hrest, hsign]
    rfl
  | negSucc k =>
    have htext : (toString (Int.negSucc k)).toList = '-' :: Nat.toDigits 10 (k + 1) := by
      change ("-" ++ toString (k + 1)).toList = _
      simp
    rw [htext]
    refine ⟨⟨⟨'-', _, rfl, rfl⟩, fun rest hrest => ?_⟩, '-', rfl, .inr rfl⟩
    rw [List.cons_append, number_digits rfl hrest]
    rfl

def IsClosing (c : Char) : Prop := c = ']' ∨ c = '\x7d'

theorem IsClosing.apart {c : Char} (h : IsClosing c) :
    isStop c = true ∧ isBlank c = false ∧ c ≠ ',' := by
  rcases h with rfl | rfl <;> decide

section

variable {α : Type} {item? : List Char → Option (α × List Char)} {text : List Char} {a : α}
  {close : Char} {gap gap' : List Char} {texts : List (List Char)} {as : List α}

theorem length_le_intercalate (gap text : List Char) (texts : List (List Char)) :
    texts.length ≤ ((',' :: gap).intercalate (text :: texts)).length := by
  induction texts generalizing text with
  | nil => exact Nat.zero_le _
  | cons text' texts ih =>
    have hle := ih text'
    rw [List.intercalate_cons_cons, List.length_append, List.length_append, List.length_cons,
      List.length_cons]
    omega

theorem stops_gap (hgap : ∀ c ∈ gap, isBlank c = true) (hclose : IsClosing close)
    (rest : List Char) : Stops (gap ++ close :: rest) := by
  cases gap with
  | nil => exact stops_cons.mpr hclose.apart.1
  | cons c cs =>
    have hc : isBlank c = true := hgap c List.mem_cons_self
    exact stops_cons.mpr (by simp [isStop, hc])

theorem intercalate_begins (sep text : List Char) (texts : List (List Char)) (rest : List Char) :
    ∃ more, sep.intercalate (text :: texts) ++ rest = text ++ more := by
  cases texts with
  | nil => exact ⟨rest, by rw [List.intercalate_singleton]⟩
  | cons text' texts =>
    exact ⟨_, by rw [List.intercalate_cons_cons, List.append_assoc, List.append_assoc]⟩

theorem skipBlank_items (hgap : ∀ c ∈ gap, isBlank c = true) (ha : ReadAs item? text a)
    (sep : List Char) (texts : List (List Char)) (rest : List Char) :
    skipBlank (gap ++ (sep.intercalate (text :: texts) ++ rest)) =
      sep.intercalate (text :: texts) ++ rest := by
  obtain ⟨more, hmore⟩ := intercalate_begins sep text texts rest
  rw [hmore]
  exact skipBlank_gap hgap (ha.not_blank _)

theorem moreItems_intercalate (hclose : IsClosing close) (hgap : ∀ c ∈ gap, isBlank c = true)
    (hgap' : ∀ c ∈ gap', isBlank c = true) (ha : ReadAs item? text a)
    (has : List.Forall₂ (ReadAs item?) texts as) {limit : Nat} (hlimit : texts.length < limit)
    (rest : List Char) :
    moreItems? close item? limit
      ((',' :: gap).intercalate (text :: texts) ++ (gap' ++ close :: rest)) =
        some (a :: as, rest) := by
  obtain ⟨-, hblank, hcomma⟩ := hclose.apart
  -- By induction on the items behind the first one, which is read in either case.
  induction has generalizing text a limit with
  | nil =>
    obtain ⟨limit, rfl⟩ := Nat.exists_eq_succ_of_ne_zero (Nat.ne_of_gt hlimit)
    have hskip : skipBlank (gap' ++ close :: rest) = close :: rest :=
      skipBlank_gap hgap' (by simpa using hblank)
    rw [List.intercalate_singleton, moreItems?, ha.read _ (stops_gap hgap' hclose rest)]
    simp [hskip]
  | @cons text' a' texts as ha' has ih =>
    obtain ⟨limit, rfl⟩ := Nat.exists_eq_succ_of_ne_zero (Nat.ne_of_gt (Nat.zero_lt_of_lt hlimit))
    have hmore := ih ha' (Nat.lt_of_succ_lt_succ hlimit)
    have hskip := skipBlank_items hgap ha' (',' :: gap) texts (gap' ++ close :: rest)
    generalize hbody : (',' :: gap).intercalate (text' :: texts) ++ (gap' ++ close :: rest) = body
      at hmore hskip
    have htext : (',' :: gap).intercalate (text :: text' :: texts) ++ (gap' ++ close :: rest) =
        text ++ ',' :: (gap ++ body) := by
      rw [← hbody, List.intercalate_cons_cons]
      simp
    have hstay : skipBlank (',' :: (gap ++ body)) = ',' :: (gap ++ body) := rfl
    rw [htext, moreItems?, ha.read _ (stops_cons.mpr rfl)]
    simp [hstay, hcomma.symm, hskip, hmore]

theorem items_intercalate (hclose : IsClosing close) (hgap : ∀ c ∈ gap, isBlank c = true)
    (hgap' : ∀ c ∈ gap', isBlank c = true) (ha : ReadAs item? text a)
    (has : List.Forall₂ (ReadAs item?) texts as) (rest : List Char) :
    items? close item?
      (gap ++ ((',' :: gap).intercalate (text :: texts) ++ (gap' ++ close :: rest))) =
        some (a :: as, rest) := by
  -- No item is written without a character, so there are enough of them for the limit.
  have hlimit : texts.length <
      ((',' :: gap).intercalate (text :: texts) ++ (gap' ++ close :: rest)).length := by
    have hcount := length_le_intercalate gap text texts
    simp only [List.length_append, List.length_cons]
    omega
  have hitems := moreItems_intercalate hclose hgap hgap' ha has hlimit rest
  have hskip := skipBlank_items hgap ha (',' :: gap) texts (gap' ++ close :: rest)
  -- The first item does not begin with the closing bracket.
  obtain ⟨c, cs, hbody, hc⟩ : ∃ c cs,
      (',' :: gap).intercalate (text :: texts) ++ (gap' ++ close :: rest) = c :: cs ∧
        isStop c = false := by
    obtain ⟨c, cs, hbegins, hc⟩ := ha.begins
    obtain ⟨more, hmore⟩ := intercalate_begins (',' :: gap) text texts (gap' ++ close :: rest)
    exact ⟨c, cs ++ more, by rw [hmore, hbegins, List.cons_append], hc⟩
  have hne : c ≠ close := (Expr.Piece.ne_of_class hclose.apart.1 hc).symm
  rw [hbody] at hitems hskip ⊢
  rw [items?, hskip]
  simpa [hne] using hitems

theorem newLine_blank (level : Nat) : ∀ c ∈ (newLine level).toList, isBlank c = true := by
  have htext : (newLine level).toList = '\n' :: List.replicate (2 * level) ' ' := by
    simp [newLine]
  rw [htext, List.forall_mem_cons]
  refine ⟨rfl, ?_⟩
  intro c hc
  rw [List.eq_of_mem_replicate hc]
  rfl

theorem items_block (opening : String) {closing : String} (hclosing : closing.toList = [close])
    (hclose : IsClosing close) (level : Nat) {texts : List String}
    (h : List.Forall₂ (fun text a => ReadAs item? text.toList a) texts as) :
    ∃ body, (block opening closing level texts).toList = opening.toList ++ body ∧
      ∀ rest, items? close item? (body ++ rest) = some (as, rest) := by
  obtain ⟨-, hblank, -⟩ := hclose.apart
  -- Without items there are no line ends; else there is one before each item and the last bracket.
  cases h with
  | nil =>
    refine ⟨[close], ?_, ?_⟩
    · simp [block, hclosing]
    · intro rest
      have hstay : skipBlank (close :: rest) = close :: rest := by simp [skipBlank, hblank]
      simp [items?, hstay]
  | @cons text a texts as ha has =>
    have hgap := newLine_blank (level + 1)
    have hall : List.Forall₂ (ReadAs item?) (texts.map String.toList) as :=
      List.forall₂_map_left_iff.mpr has
    refine ⟨(newLine (level + 1)).toList ++
      ((',' :: (newLine (level + 1)).toList).intercalate ((text :: texts).map String.toList) ++
        ((newLine level).toList ++ [close])), ?_, ?_⟩
    · simp [block, hclosing, String.toList_intercalate]
    · intro rest
      have hitems := items_intercalate hclose hgap (newLine_blank level) ha hall rest
      simpa using hitems

end

/-- The value has a text of its own: its numbers are integers, each key of a record stands once, and
at most `room` lists and records lie in each other. -/
inductive Fits : Nat → Value → Prop
  | null {room : Nat} : Fits room .null
  | bool {room : Nat} (b : Bool) : Fits room (.bool b)
  | int {room : Nat} (n : Int) : Fits room (.int n)
  | text {room : Nat} (s : String) : Fits room (.text s)
  | list {room : Nat} {items : List Value} (h : ∀ v ∈ items, Fits room v) :
    Fits (room + 1) (.list items)
  | record {room : Nat} {fields : List (String × Value)} (hkeys : (fields.map (·.1)).Nodup)
    (h : ∀ f ∈ fields, Fits room f.2) : Fits (room + 1) (.record fields)

theorem itemTexts_eq_map (level : Nat) (items : List Value) :
    itemTexts level items = items.map (textAt level) := by
  induction items with
  | nil => rfl
  | cons v items ih => rw [itemTexts, ih, List.map_cons]

theorem fieldTexts_eq_map (level : Nat) (fields : List (String × Value)) :
    fieldTexts level fields = fields.map fun f => quote f.1 ++ ": " ++ textAt level f.2 := by
  induction fields with
  | nil => rfl
  | cons f fields ih => rw [fieldTexts, ih, List.map_cons]

theorem ReadAs.field {value? : List Char → Option (Value × List Char)} {v : Value} {text : String}
    (h : ReadAs value? text.toList v) (key : String) :
    ReadAs (field? value?) (quote key ++ ": " ++ text).toList (key, v) := by
  have htext : (quote key ++ ": " ++ text).toList =
      (quote key).toList ++ ':' :: ' ' :: text.toList := by simp
  rw [htext]
  constructor
  case begins => exact ⟨'"', _, by rw [quote_toList, List.cons_append], rfl⟩
  case read =>
    intro rest hrest
    have hcolon (cs : List Char) : skipBlank (':' :: cs) = ':' :: cs := rfl
    have hskip : skipBlank (' ' :: (text.toList ++ rest)) = text.toList ++ rest :=
      skipBlank_gap (List.forall_mem_singleton.mpr rfl) (h.not_blank rest)
    rw [List.append_assoc, field?, string_quote]
    simp [hcolon, hskip, h.read rest hrest]

theorem value_numeric {c : Char} (h : c.isDigit = true ∨ c = '-') (room : Nat) (cs : List Char) :
    value? room (c :: cs) = number? (c :: cs) := by
  rcases h with hc | rfl
  · have hquote : c ≠ '"' := Expr.Piece.ne_of_class hc rfl
    have hlist : c ≠ '[' := Expr.Piece.ne_of_class hc rfl
    have hrecord : c ≠ '\x7b' := Expr.Piece.ne_of_class hc rfl
    have halpha : c.isAlpha = false := by
      cases hletter : c.isAlpha with
      | false => rfl
      | true => exact absurd hc (by simp [Expr.Piece.not_isDigit_of_alpha hletter])
    unfold value?
    simp [hquote, hlist, hrecord, halpha]
  · unfold value?
    rfl

theorem readAs_null (room level : Nat) :
    ReadAs (value? room) (textAt level .null).toList .null := by
  have htext : (textAt level .null).toList = ['n', 'u', 'l', 'l'] := by simp [textAt]
  rw [htext]
  constructor
  case begins => exact ⟨'n', _, rfl, rfl⟩
  case read =>
    intro rest _
    unfold value?
    rfl

theorem readAs_bool (room level : Nat) (b : Bool) :
    ReadAs (value? room) (textAt level (.bool b)).toList (.bool b) := by
  have htext : (textAt level (.bool b)).toList =
      if b then ['t', 'r', 'u', 'e'] else ['f', 'a', 'l', 's', 'e'] := by
    cases b <;> simp [textAt]
  rw [htext]
  constructor
  case begins => cases b <;> exact ⟨_, _, rfl, rfl⟩
  case read =>
    intro rest _
    unfold value?
    cases b <;> rfl

theorem readAs_text (room level : Nat) (s : String) :
    ReadAs (value? room) (textAt level (.text s)).toList (.text s) := by
  have htext : (textAt level (.text s)).toList = (quote s).toList := rfl
  rw [htext]
  constructor
  case begins => exact ⟨'"', _, quote_toList s, rfl⟩
  case read =>
    intro rest _
    have hstring := string_quote s rest
    rw [quote_toList, List.cons_append] at hstring ⊢
    unfold value?
    dsimp only
    rw [if_pos rfl, hstring, Option.map_some]

theorem readAs_list {room level : Nat} {items : List Value}
    (h : ∀ v ∈ items, ReadAs (value? room) (textAt (level + 1) v).toList v) :
    ReadAs (value? (room + 1)) (textAt level (.list items)).toList (.list items) := by
  have hall : List.Forall₂ (fun text v => ReadAs (value? room) text.toList v)
      (itemTexts (level + 1) items) items := by
    rw [itemTexts_eq_map, List.forall₂_map_left_iff, List.forall₂_same]
    exact h
  have hclosing : "]".toList = [']'] := rfl
  obtain ⟨body, hblock, hitems⟩ := items_block "[" hclosing (.inl rfl) level hall
  have htext : (textAt level (.list items)).toList = '[' :: body := hblock
  rw [htext]
  constructor
  case begins => exact ⟨'[', body, rfl, rfl⟩
  case read =>
    intro rest _
    have hvalue : value? (room + 1) ('[' :: (body ++ rest)) =
        (items? ']' (value? room) (body ++ rest)).map fun p => (.list p.1, p.2) := by
      rw [value?]
      rfl
    rw [List.cons_append, hvalue, hitems, Option.map_some]

theorem readAs_record {room level : Nat} {fields : List (String × Value)}
    (hkeys : (fields.map (·.1)).Nodup)
    (h : ∀ f ∈ fields, ReadAs (value? room) (textAt (level + 1) f.2).toList f.2) :
    ReadAs (value? (room + 1)) (textAt level (.record fields)).toList (.record fields) := by
  have hall : List.Forall₂ (fun text f => ReadAs (field? (value? room)) text.toList f)
      (fieldTexts (level + 1) fields) fields := by
    rw [fieldTexts_eq_map, List.forall₂_map_left_iff, List.forall₂_same]
    exact fun f hf => (h f hf).field f.1
  have hclosing : "\x7d".toList = ['\x7d'] := rfl
  obtain ⟨body, hblock, hfields⟩ := items_block "\x7b" hclosing (.inr rfl) level hall
  have htext : (textAt level (.record fields)).toList = '\x7b' :: body := hblock
  rw [htext]
  constructor
  case begins => exact ⟨'\x7b', body, rfl, rfl⟩
  case read =>
    intro rest _
    have hvalue : value? (room + 1) ('\x7b' :: (body ++ rest)) =
        (items? '\x7d' (field? (value? room)) (body ++ rest)).bind fun p =>
          (record? p.1).map (·, p.2) := by
      rw [value?]
      rfl
    rw [List.cons_append, hvalue, hfields, Option.bind_some, record?, if_pos hkeys,
      Option.map_some]

theorem Fits.readAs {room : Nat} {v : Value} (h : Fits room v) (level : Nat) :
    ReadAs (value? room) (textAt level v).toList v := by
  induction h generalizing level with
  | null => exact readAs_null _ level
  | bool b => exact readAs_bool _ level b
  | int n =>
    obtain ⟨hread, c, hc, hfirst⟩ := readAs_int n
    obtain ⟨cs, hcs⟩ := List.head?_eq_some_iff.mp hc
    have htext : (textAt level (.int n)).toList = (toString n).toList := rfl
    rw [htext]
    refine ⟨hread.begins, fun rest hrest => ?_⟩
    have hvalue := hread.read rest hrest
    rw [hcs, List.cons_append] at hvalue ⊢
    rw [value_numeric hfirst, hvalue]
  | text s => exact readAs_text _ level s
  | list _ ih => exact readAs_list fun v hv => ih v hv (level + 1)
  | record hkeys _ ih => exact readAs_record hkeys fun f hf => ih f hf (level + 1)

theorem Fits.parse_text {v : Value} (h : Fits maxDepth v) : parse? (Json.text v) = some v := by
  have hread := h.readAs 0
  have hskip : skipBlank (textAt 0 v).toList = (textAt 0 v).toList := by
    simpa using skipBlank_gap (List.forall_mem_nil _) (hread.not_blank [])
  have hvalue : value? maxDepth (textAt 0 v).toList = some (v, []) := by
    simpa using hread.read [] stops_nil
  rw [parse?, Json.text, hskip, hvalue]
  rfl

-- Other blanks and other escapes are read as well.
example : parse? "\x7b\"a\":[1,-20 ],\"b\":\"\\u0041\"\x7d" =
    some (.record [("a", .list [.int 1, .int (-20)]), ("b", .text "A")]) := by cbv

end FrontEnd.Json
