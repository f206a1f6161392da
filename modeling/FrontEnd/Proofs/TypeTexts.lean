import Mathlib.Data.List.Basic
import Mathlib.Data.List.DropRight
import FrontEnd.Ty

namespace FrontEnd

namespace Text

theorem trimEnd_eq (cs : List Char) : trimEnd cs = cs.rdropWhile isBlank := rfl

structure IsTrimmed (cs : List Char) : Prop where
  head : ∀ c ∈ cs.head?, isBlank c = false
  last : ∀ c ∈ cs.getLast?, isBlank c = false

theorem IsTrimmed.trim_eq {cs : List Char} (h : IsTrimmed cs) : trim cs = cs := by
  have hstart : cs.dropWhile isBlank = cs := by
    cases cs with
    | nil => rfl
    | cons c cs =>
      have hc : isBlank c = false := h.head c rfl
      exact List.dropWhile_cons_of_neg (by simp [hc])
  have hend : cs.rdropWhile isBlank = cs := by
    apply List.rdropWhile_eq_self_iff.mpr
    intro hne
    have hc := h.last (cs.getLast hne) (List.getLast?_eq_some_getLast hne)
    simp [hc]
  rw [trim, hstart, trimEnd_eq, hend]

theorem isTrimmed_trim (cs : List Char) : IsTrimmed (trim cs) := by
  constructor
  case head =>
    intro c hc
    -- What is left when blanks are taken from the end begins as before.
    obtain ⟨blanks, hsplit⟩ := List.rdropWhile_prefix isBlank (cs.dropWhile isBlank)
    change trim cs ++ blanks = cs.dropWhile isBlank at hsplit
    have hfirst := List.head?_dropWhile_not isBlank cs
    rw [← hsplit, List.head?_append, Option.mem_def.mp hc] at hfirst
    exact hfirst
  case last =>
    intro c hc
    obtain ⟨hne, rfl⟩ := List.mem_getLast?_eq_getLast hc
    have hlast := List.rdropWhile_last_not isBlank (cs.dropWhile isBlank) hne
    exact Bool.eq_false_iff.mpr hlast

end Text

namespace Ty

open Text

theorem display_ofWord (word : String) : (ofWord word).display = word := by
  unfold ofWord
  split <;> rfl

theorem parse_eq_ofWord {word : String} (htrim : trim word.toList = word.toList)
    (hbrackets : bracketed? word.toList = none) : parse word = ofWord word := by
  rw [parse, ofChars, htrim]
  split
  · next hinner => cases hbrackets.symm.trans hinner
  · rw [String.ofList_toList]

theorem bracketed?_brackets (cs : List Char) : bracketed? ('[' :: (cs ++ [']'])) = some cs := by
  simp [bracketed?]

theorem parse_brackets (text : String) : parse ("[" ++ text ++ "]") = array (parse text) := by
  -- A bracket is no blank, so nothing is taken from a text in brackets.
  have hchars : ("[" ++ text ++ "]").toList = '[' :: (text.toList ++ [']']) := by simp
  have htrimmed : IsTrimmed ('[' :: (text.toList ++ [']'])) := by
    constructor
    · intro c hc
      cases hc
      rfl
    · intro c hc
      rw [← List.cons_append, List.getLast?_concat] at hc
      cases hc
      rfl
  rw [parse, ofChars, hchars, htrimmed.trim_eq]
  split
  · next hinner =>
    rw [bracketed?_brackets] at hinner
    cases hinner
    rfl
  · next hnone =>
    rw [bracketed?_brackets] at hnone
    cases hnone

/-- A word that is read as the node type of that name. -/
structure IsNodeName (name : String) : Prop where
  trimmed : trim name.toList = name.toList
  unbracketed : bracketed? name.toList = none
  not_primitive : ofWord name = node name

/-- Each node type in the type is named by a word that is read so. -/
def IsWritten : Ty → Prop
  | node name => IsNodeName name
  | array element => element.IsWritten
  | _ => True

theorem ofWord_isWritten {word : String} (htrim : trim word.toList = word.toList)
    (hbrackets : bracketed? word.toList = none) : (ofWord word).IsWritten := by
  have hname : ∀ name, ofWord word = node name → name = word := by
    intro name heq
    have hdisplay := display_ofWord word
    rwa [heq] at hdisplay
  cases heq : ofWord word with
  | node name =>
    obtain rfl := hname name heq
    exact ⟨htrim, hbrackets, heq⟩
  | array element =>
    unfold ofWord at heq
    split at heq <;> cases heq
  | _ => trivial

theorem ofChars_isWritten (cs : List Char) : (ofChars cs).IsWritten := by
  fun_induction ofChars cs with
  | case1 cs inner hinner ih => exact ih
  | case2 cs hnone =>
    have htrim : trim (trim cs) = trim cs := (isTrimmed_trim cs).trim_eq
    apply ofWord_isWritten
    · rw [String.toList_ofList, htrim]
    · rw [String.toList_ofList, hnone]

theorem IsWritten.parse_eq {ty : Ty} (h : ty.IsWritten) : parse ty.display = ty := by
  induction ty with
  | node name =>
    obtain ⟨htrim, hbrackets, hname⟩ := h
    exact (parse_eq_ofWord htrim hbrackets).trans hname
  | array element ih =>
    calc parse (array element).display
      _ = array (parse element.display) := parse_brackets element.display
      _ = array element := congrArg array (ih h)
  | _ => exact parse_eq_ofWord (by decide) (by decide)

/-- The types that their own text denotes are those whose names reading leaves as they are. -/
theorem parse_display_eq_iff {ty : Ty} : parse ty.display = ty ↔ ty.IsWritten := by
  constructor
  · intro h
    rw [← h]
    exact ofChars_isWritten _
  · exact IsWritten.parse_eq

/-- Reading what a type is shown as gives the type again if the type was read from a text, whatever
that text was; so two texts are of one type if and only if they are shown alike. -/
theorem parse_display_stable (text : String) : parse (parse text).display = parse text ∧
    ∀ other, parse text = parse other ↔ (parse text).display = (parse other).display := by
  have hstable : ∀ text, parse (parse text).display = parse text := fun text =>
    parse_display_eq_iff.mpr (ofChars_isWritten text.toList)
  refine ⟨hstable text, fun other => ⟨congrArg display, fun h => ?_⟩⟩
  calc parse text
    _ = parse (parse text).display := (hstable text).symm
    _ = parse (parse other).display := congrArg parse h
    _ = parse other := hstable other

/-- Blanks inside brackets do not count either, and a bracket that is not closed is part of a
name. -/
example : parse " [ [Bool\t] ]" = array (array bool) ∧
    parse "[[ Bool]" = array (node "[ Bool") := by
  constructor <;> cbv

end Ty

end FrontEnd
