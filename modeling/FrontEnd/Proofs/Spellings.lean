import Mathlib
import FrontEnd.Name

-- Mathlib is imported whole: no module of it alone passes on `Batteries.Data.Char.AsciiCasing`.

namespace FrontEnd

namespace Text

@[simp] theorem toList_lower (s : String) : (lower s).toList = s.toList.map Char.toLower :=
  String.toList_map

@[simp] theorem toList_upper (s : String) : (upper s).toList = s.toList.map Char.toUpper :=
  String.toList_map

@[simp] theorem lower_upper (s : String) : lower (upper s) = lower s := by
  apply String.toList_injective
  simp [toList_lower, toList_upper]

@[simp] theorem upper_lower (s : String) : upper (lower s) = upper s := by
  apply String.toList_injective
  simp [toList_lower, toList_upper]

theorem upper_eq_upper_iff {s t : String} : upper s = upper t ↔ lower s = lower t := by
  constructor
  · intro h
    calc lower s = lower (upper s) := (lower_upper s).symm
      _ = lower (upper t) := by rw [h]
      _ = lower t := lower_upper t
  · intro h
    calc upper s = upper (lower s) := (upper_lower s).symm
      _ = upper (lower t) := by rw [h]
      _ = upper t := upper_lower t

theorem upper_append (s t : String) : upper (s ++ t) = upper s ++ upper t := by
  apply String.toList_injective
  simp

theorem length_eq_of_lower_eq {s t : String} (h : lower s = lower t) :
    s.toList.length = t.toList.length := by
  have hmap : s.toList.map Char.toLower = t.toList.map Char.toLower := by
    rw [← toList_lower, h, toList_lower]
  simpa using congrArg List.length hmap

/-- No underscore is due between the characters: the second is no capital, or the first is an
underscore. -/
def Joins (p c : Char) : Prop := c.isUpper = true → p = '_'

instance (p c : Char) : Decidable (Joins p c) :=
  inferInstanceAs (Decidable (c.isUpper = true → p = '_'))

/-- A text of one style: without underscores, or with one before each capital but a first. -/
def IsUniform (s : String) : Prop := '_' ∉ s.toList ∨ s.toList.IsChain Joins

instance (s : String) : Decidable (IsUniform s) :=
  inferInstanceAs (Decidable ('_' ∉ s.toList ∨ s.toList.IsChain Joins))

theorem separateCapitals_joined {p c : Char} (h : Joins p c) (cs : List Char) :
    separateCapitals (some p) (c :: cs) = c :: separateCapitals (some c) cs := by
  have hskip : ¬ (c.isUpper && p != '_') = true := by simpa [Joins] using h
  rw [separateCapitals, if_neg hskip]

theorem separateCapitals_parted {p c : Char} (h : ¬ Joins p c) (cs : List Char) :
    separateCapitals (some p) (c :: cs) = '_' :: c :: separateCapitals (some c) cs := by
  have hpart : (c.isUpper && p != '_') = true := by simpa [Joins] using h
  rw [separateCapitals, if_pos hpart]

theorem length_le_separateCapitals (before : Option Char) (cs : List Char) :
    cs.length ≤ (separateCapitals before cs).length := by
  induction cs generalizing before with
  | nil => exact Nat.zero_le _
  | cons c cs ih =>
    have htail := ih (some c)
    cases before with
    | none => simpa [separateCapitals] using htail
    | some p =>
      by_cases h : Joins p c
      · simpa [separateCapitals_joined h] using htail
      · simp only [separateCapitals_parted h, List.length_cons]
        omega

theorem length_separateCapitals_eq_iff (p : Char) (cs : List Char) :
    (separateCapitals (some p) cs).length = cs.length ↔ (p :: cs).IsChain Joins := by
  induction cs generalizing p with
  | nil => simp [separateCapitals]
  | cons c cs ih =>
    rw [List.isChain_cons_cons]
    by_cases h : Joins p c
    · simpa [separateCapitals_joined h, h] using ih c
    · have hlonger := length_le_separateCapitals (some c) cs
      simp only [separateCapitals_parted h, List.length_cons, h, false_and, iff_false]
      omega

theorem separateCapitals_eq_self {p : Char} {cs : List Char} (h : (p :: cs).IsChain Joins) :
    separateCapitals (some p) cs = cs := by
  induction cs generalizing p with
  | nil => rfl
  | cons c cs ih =>
    obtain ⟨hjoins, htail⟩ := List.isChain_cons_cons.mp h
    rw [separateCapitals_joined hjoins, ih htail]

theorem filter_separateCapitals (before : Option Char) (cs : List Char) :
    (separateCapitals before cs).filter (· != '_') = cs.filter (· != '_') := by
  induction cs generalizing before with
  | nil => cases before <;> rfl
  | cons c cs ih =>
    have htail := ih (some c)
    cases before with
    | none => rw [separateCapitals, List.filter_cons, List.filter_cons, htail]
    | some p =>
      by_cases h : Joins p c
      · rw [separateCapitals_joined h, List.filter_cons, List.filter_cons, htail]
      · rw [separateCapitals_parted h, List.filter_cons_of_neg (by decide), List.filter_cons,
          List.filter_cons, htail]

end Text

namespace Name

open Text

theorem matchesLoosely_iff {n : Name} {s : String} :
    n.matchesLoosely s = true ↔ Text.lower s = n.lower ∨ Text.lower s = Text.lower n.camel := by
  simp [matchesLoosely]

theorem upper_eq_upper_iff {n m : Name} : n.upper = m.upper ↔ n.lower = m.lower :=
  Text.upper_eq_upper_iff

theorem camel_ofCamel (s : String) :
    (ofCamel s).camel = String.ofList (s.toList.filter (· != '_')) := by
  rw [camel, ofCamel, String.toList_ofList, filter_separateCapitals]

theorem lower_ofCamel_eq_iff (s : String) :
    Text.lower s = (ofCamel s).lower ↔ s.toList.IsChain Joins := by
  have hcanonical : (ofCamel s).canonical.toList = separateCapitals none s.toList :=
    String.toList_ofList
  constructor
  · intro h
    -- Letter case keeps the length, so no underscore can have been put in.
    have hlength := length_eq_of_lower_eq h
    rw [hcanonical] at hlength
    cases hs : s.toList with
    | nil => exact .nil
    | cons c cs =>
      rw [hs, separateCapitals, List.length_cons, List.length_cons, Nat.add_right_cancel_iff]
        at hlength
      exact (length_separateCapitals_eq_iff c cs).mp hlength.symm
  · intro h
    have hsame : separateCapitals none s.toList = s.toList := by
      cases hs : s.toList with
      | nil => rfl
      | cons c cs => rw [separateCapitals, separateCapitals_eq_self (hs ▸ h)]
    rw [lower, String.toList_injective (hcanonical.trans hsame)]

theorem lower_camel_ofCamel_eq_iff (s : String) :
    Text.lower s = Text.lower (ofCamel s).camel ↔ '_' ∉ s.toList := by
  have hcamel : (ofCamel s).camel.toList = s.toList.filter (· != '_') := by
    rw [camel_ofCamel, String.toList_ofList]
  have hkept : (∀ c ∈ s.toList, (c != '_') = true) ↔ '_' ∉ s.toList := by
    simp only [bne_iff_ne, ne_eq, List.forall_mem_ne']
  rw [← hkept]
  constructor
  · intro h
    -- Here none can have been left out.
    have hlength := length_eq_of_lower_eq h
    rw [hcamel] at hlength
    exact List.length_filter_eq_length_iff.mp hlength.symm
  · intro h
    rw [String.toList_injective (hcamel.trans (List.filter_eq_self.mpr h))]

theorem ofCamel_matchesLoosely_iff (s : String) :
    (ofCamel s).matchesLoosely s = true ↔ IsUniform s := by
  rw [matchesLoosely_iff, lower_ofCamel_eq_iff, lower_camel_ofCamel_eq_iff, IsUniform, or_comm]

example : IsUniform "OpenWord" ∧ IsUniform "Open_Word" ∧ ¬ IsUniform "Open_WordMark" := by decide

end Name

end FrontEnd
