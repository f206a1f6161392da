import FrontEnd.Proofs.Spellings

/-!
Names and the casings they are shown in. Putting underscores before capitals leaves nothing to be
put in again. A name of whole words, each with a capital in front and no other, is made again from
each of its casings: the capitals tell where its words begin when the underscores are left out, and
the underscores tell it when the capitals are.
-/
namespace FrontEnd

namespace Text

/-! ### Underscores that are put in -/

theorem isChain_separateCapitals (p : Char) (cs : List Char) :
    (p :: separateCapitals (some p) cs).IsChain Joins := by
  induction cs generalizing p with
  | nil => exact .singleton p
  | cons c cs ih =>
    by_cases h : Joins p c
    · rw [separateCapitals_joined h]
      exact .cons_cons h (ih c)
    · rw [separateCapitals_parted h]
      -- The underscore joins what is on either side of it.
      have hbefore : Joins p '_' := fun hupper => by cases hupper
      have hbehind : Joins '_' c := fun _ => rfl
      exact .cons_cons hbefore (.cons_cons hbehind (ih c))

theorem separateCapitals_again (cs : List Char) :
    separateCapitals none (separateCapitals none cs) = separateCapitals none cs := by
  cases cs with
  | nil => rfl
  | cons c cs =>
    have hself := separateCapitals_eq_self (isChain_separateCapitals c cs)
    rw [separateCapitals, separateCapitals, hself]

/-! ### Words -/

/-- A character inside a word: no capital, and no underscore. -/
def IsSmall (c : Char) : Prop := c.isUpper = false ∧ c ≠ '_'

instance (c : Char) : Decidable (IsSmall c) :=
  inferInstanceAs (Decidable (c.isUpper = false ∧ c ≠ '_'))

/-- A capital and small characters behind it. -/
def IsWord (w : List Char) : Prop := ∃ c cs, w = c :: cs ∧ c.isUpper = true ∧ ∀ d ∈ cs, IsSmall d

/-- The words, each with an underscore before it. -/
def parted (ws : List (List Char)) : List Char := ws.flatMap ('_' :: ·)

theorem parted_cons (w : List Char) (ws : List (List Char)) :
    parted (w :: ws) = '_' :: (w ++ parted ws) := by
  rw [parted, List.flatMap_cons]
  rfl

theorem intercalate_cons (w : List Char) (ws : List (List Char)) :
    ['_'].intercalate (w :: ws) = w ++ parted ws := by
  induction ws generalizing w with
  | nil => simp [parted]
  | cons v ws ih =>
    rw [List.intercalate_cons_cons, ih, parted_cons, List.append_assoc, List.singleton_append]

theorem ne_underscore_of_isUpper {c : Char} (h : c.isUpper = true) : c ≠ '_' := by
  rintro rfl
  cases h

variable {c : Char} {cs : List Char} {ws : List (List Char)}

theorem IsWord.filter_eq {w : List Char} (h : IsWord w) : w.filter (· != '_') = w := by
  obtain ⟨c, cs, rfl, hc, hcs⟩ := h
  apply List.filter_eq_self.mpr
  rw [List.forall_mem_cons]
  exact ⟨bne_iff_ne.mpr (ne_underscore_of_isUpper hc), fun d hd => bne_iff_ne.mpr (hcs d hd).2⟩

theorem filter_parted (hws : ∀ w ∈ ws, IsWord w) :
    (parted ws).filter (· != '_') = ws.flatten := by
  induction ws with
  | nil => rfl
  | cons w ws ih =>
    obtain ⟨hw, hws⟩ := List.forall_mem_cons.mp hws
    rw [parted_cons, List.filter_cons_of_neg (by decide), List.filter_append, hw.filter_eq, ih hws,
      List.flatten_cons]

theorem filter_intercalate (hws : ∀ w ∈ ws, IsWord w) :
    (['_'].intercalate ws).filter (· != '_') = ws.flatten := by
  cases ws with
  | nil => rfl
  | cons w ws =>
    obtain ⟨hw, hws⟩ := List.forall_mem_cons.mp hws
    rw [intercalate_cons, List.filter_append, hw.filter_eq, filter_parted hws, List.flatten_cons]

/-! ### Words from their capitals -/

theorem separateCapitals_within {rest out : List Char} (hc : c ≠ '_') (hcs : ∀ d ∈ cs, IsSmall d)
    (hrest : ∀ p, p ≠ '_' → separateCapitals (some p) rest = out) :
    separateCapitals (some c) (cs ++ rest) = cs ++ out := by
  induction cs generalizing c with
  | nil => exact hrest c hc
  | cons d cs ih =>
    obtain ⟨⟨hupper, hd⟩, hcs⟩ := List.forall_mem_cons.mp hcs
    have hjoins : Joins c d := fun h => by cases hupper.symm.trans h
    rw [List.cons_append, separateCapitals_joined hjoins, ih hd hcs, List.cons_append]

/-- Behind a word an underscore is put in before each of the words that follow. -/
theorem separateCapitals_flatten (hc : c ≠ '_') (hcs : ∀ d ∈ cs, IsSmall d)
    (hws : ∀ w ∈ ws, IsWord w) :
    separateCapitals (some c) (cs ++ ws.flatten) = cs ++ parted ws := by
  induction ws generalizing c cs with
  | nil => exact separateCapitals_within hc hcs fun _ _ => rfl
  | cons w ws ih =>
    obtain ⟨⟨d, ds, rfl, hd, hds⟩, hrest⟩ := List.forall_mem_cons.mp hws
    refine separateCapitals_within hc hcs fun p hp => ?_
    have hparted : ¬ Joins p d := fun hjoins => hp (hjoins hd)
    rw [List.flatten_cons, List.cons_append, separateCapitals_parted hparted,
      ih (ne_underscore_of_isUpper hd) hds hrest, parted_cons, List.cons_append]

theorem separateCapitals_words (hws : ∀ w ∈ ws, IsWord w) :
    separateCapitals none ws.flatten = ['_'].intercalate ws := by
  cases ws with
  | nil => rfl
  | cons w ws =>
    obtain ⟨⟨c, cs, rfl, hc, hcs⟩, hrest⟩ := List.forall_mem_cons.mp hws
    rw [List.flatten_cons, List.cons_append, separateCapitals,
      separateCapitals_flatten (ne_underscore_of_isUpper hc) hcs hrest, intercalate_cons,
      List.cons_append]

/-! ### Words from their underscores -/

theorem toUpper_toLower_of_isUpper (h : c.isUpper = true) : c.toLower.toUpper = c := by
  rw [Char.toUpper_toLower_eq_toUpper]
  exact Char.toUpper_eq_of_not_isLower (Char.not_isLower_of_isUpper h)

theorem toLower_ne_underscore (h : c ≠ '_') : c.toLower ≠ '_' := by
  by_cases hc : c.isUpper = true
  · intro heq
    have halpha : c.toLower.isLower = true := by
      rw [Char.isLower_toLower_eq_isAlpha]
      exact Bool.or_eq_true_iff.mpr (.inl hc)
    rw [heq] at halpha
    cases halpha
  · rwa [Char.toLower_eq_of_not_isUpper hc]

theorem map_toLower_small (hcs : ∀ d ∈ cs, IsSmall d) : cs.map Char.toLower = cs :=
  calc cs.map Char.toLower
    _ = cs.map id := List.map_congr_left fun d hd =>
      Char.toLower_eq_of_not_isUpper (Bool.eq_false_iff.mp (hcs d hd).1)
    _ = cs := List.map_id cs

theorem capitalizeWords_within {rest : List Char} (hcs : ∀ d ∈ cs, IsSmall d) :
    capitalizeWords false (cs ++ rest) = cs ++ capitalizeWords false rest := by
  induction cs with
  | nil => rfl
  | cons c cs ih =>
    obtain ⟨⟨-, hc⟩, hcs⟩ := List.forall_mem_cons.mp hcs
    have hinside : (c == '_') = false := beq_eq_false_iff_ne.mpr hc
    rw [List.cons_append, capitalizeWords, hinside, ih hcs]
    rfl

theorem capitalizeWords_word {w rest : List Char} (hw : IsWord w) :
    capitalizeWords true (w.map Char.toLower ++ rest) = w ++ capitalizeWords false rest := by
  obtain ⟨c, cs, rfl, hc, hcs⟩ := hw
  have hinside : (c.toLower == '_') = false :=
    beq_eq_false_iff_ne.mpr (toLower_ne_underscore (ne_underscore_of_isUpper hc))
  rw [List.map_cons, map_toLower_small hcs, List.cons_append, capitalizeWords, hinside,
    capitalizeWords_within hcs, if_pos rfl, toUpper_toLower_of_isUpper hc, List.cons_append]

theorem capitalizeWords_parted (hws : ∀ w ∈ ws, IsWord w) :
    capitalizeWords false ((parted ws).map Char.toLower) = parted ws := by
  induction ws with
  | nil => rfl
  | cons w ws ih =>
    obtain ⟨hw, hws⟩ := List.forall_mem_cons.mp hws
    have hunder : Char.toLower '_' = '_' := rfl
    rw [parted_cons, List.map_cons, List.map_append, hunder, capitalizeWords]
    change '_' :: capitalizeWords true _ = _
    rw [capitalizeWords_word hw, ih hws]

theorem capitalizeWords_words (hws : ∀ w ∈ ws, IsWord w) :
    capitalizeWords true ((['_'].intercalate ws).map Char.toLower) = ['_'].intercalate ws := by
  cases ws with
  | nil => rfl
  | cons w ws =>
    obtain ⟨hw, hws⟩ := List.forall_mem_cons.mp hws
    rw [intercalate_cons, List.map_append, capitalizeWords_word hw, capitalizeWords_parted hws]

/-! ### Changes of letter case -/

/-- The second text is the first with some ASCII letters in the other case. -/
def Recased (s t : String) : Prop :=
  List.Forall₂ (fun c d => d = c ∨ d = c.toLower ∨ d = c.toUpper) s.toList t.toList

instance (s t : String) : Decidable (Recased s t) :=
  inferInstanceAs (Decidable (List.Forall₂ _ s.toList t.toList))

theorem Recased.lower_eq {s t : String} (h : Recased s t) : lower t = lower s := by
  apply String.toList_injective
  rw [toList_lower, toList_lower]
  unfold Recased at h
  generalize s.toList = cs, t.toList = ds at h
  induction h with
  | nil => rfl
  | cons hchar _ ih =>
    rw [List.map_cons, List.map_cons, ih]
    rcases hchar with rfl | rfl | rfl
    · rfl
    · rw [Char.toLower_toLower_eq_toLower]
    · rw [Char.toLower_toUpper_eq_toLower]

theorem lower_lower (s : String) : lower (lower s) = lower s := by
  apply String.toList_injective
  simp

end Text

namespace Name

open Text

/-- The name is made of words, with one underscore between two of them. -/
def IsOfWords (n : Name) : Prop :=
  ∃ ws, (∀ w ∈ ws, IsWord w) ∧ n.canonical.toList = ['_'].intercalate ws

theorem eq_of_toList {n m : Name} (h : n.canonical.toList = m.canonical.toList) : n = m := by
  cases n
  cases m
  exact congrArg Name.mk (String.toList_injective h)

theorem ofCamel_canonical (s : String) : ofCamel (ofCamel s).canonical = ofCamel s := by
  apply eq_of_toList
  simp only [ofCamel, String.toList_ofList]
  exact separateCapitals_again s.toList

theorem ofCamel_camel {n : Name} (h : n.IsOfWords) : ofCamel n.camel = n := by
  obtain ⟨ws, hws, hn⟩ := h
  apply eq_of_toList
  simp only [ofCamel, camel, String.toList_ofList]
  rw [hn, filter_intercalate hws, separateCapitals_words hws]

theorem ofLower_lower {n : Name} (h : n.IsOfWords) : ofLower n.lower = n := by
  obtain ⟨ws, hws, hn⟩ := h
  apply eq_of_toList
  simp only [ofLower, lower, String.toList_ofList, toList_lower]
  rw [hn, capitalizeWords_words hws]

theorem ofUpper_upper {n : Name} (h : n.IsOfWords) : ofUpper n.upper = n := by
  calc ofUpper n.upper
    _ = ofLower n.lower := by rw [ofUpper, upper, lower_upper, lower]
    _ = n := ofLower_lower h

theorem matchesLoosely_of_recased (n : Name) {spelling s : String}
    (hspelling : spelling ∈ [n.camel, n.lower, n.upper, n.canonical])
    (hs : Recased spelling s) : n.matchesLoosely s = true := by
  rw [matchesLoosely_iff, hs.lower_eq]
  simp only [List.mem_cons, List.not_mem_nil, or_false] at hspelling
  rcases hspelling with rfl | rfl | rfl | rfl
  · exact .inr rfl
  · exact .inl (Text.lower_lower n.canonical)
  · exact .inl (Text.lower_upper n.canonical)
  · exact .inl rfl

/-- Making a name from camel case and showing it are inverse to each other but for underscores:
nothing changes if the name that is made is read as camel case again, and its camel casing is the
text without underscores. A name of whole words is made again from its camel, lower and upper
casings, and answers to these and to itself in whatever letter case. -/
theorem casings_invert :
    (∀ s, ofCamel (ofCamel s).canonical = ofCamel s ∧
      (ofCamel s).camel = String.ofList (s.toList.filter (· != '_'))) ∧
    ∀ n : Name, n.IsOfWords → ofCamel n.camel = n ∧ ofLower n.lower = n ∧ ofUpper n.upper = n ∧
      ∀ spelling ∈ [n.camel, n.lower, n.upper, n.canonical], ∀ s, Recased spelling s →
        n.matchesLoosely s = true := by
  constructor
  · exact fun s => ⟨ofCamel_canonical s, camel_ofCamel s⟩
  · intro n hn
    refine ⟨ofCamel_camel hn, ofLower_lower hn, ofUpper_upper hn, ?_⟩
    exact fun spelling hspelling s hs => n.matchesLoosely_of_recased hspelling hs

end Name

def Sample.naiveMatch : Name := ⟨"Naïve_Match2"⟩

theorem Sample.naiveMatch_inverts :
    naiveMatch.IsOfWords ∧
      naiveMatch.camel = "NaïveMatch2" ∧ Name.ofCamel "NaïveMatch2" = naiveMatch ∧
      Name.ofLower "naïve_match2" = naiveMatch ∧ Name.ofUpper "NAïVE_MATCH2" = naiveMatch ∧
      Text.Recased "NaïveMatch2" "nAïVEmatch2" ∧
      naiveMatch.matchesLoosely "nAïVEmatch2" = true := by
  have hwords : naiveMatch.IsOfWords := by
    refine ⟨["Naïve".toList, "Match2".toList], ?_, by decide⟩
    intro w hw
    simp only [List.mem_cons, List.not_mem_nil, or_false] at hw
    rcases hw with rfl | rfl
    · exact ⟨'N', "aïve".toList, rfl, rfl, List.all_iff_forall_prop.mp (by decide)⟩
    · exact ⟨'M', "atch2".toList, rfl, rfl, List.all_iff_forall_prop.mp (by decide)⟩
  have hcamel : naiveMatch.camel = "NaïveMatch2" := by cbv
  have hlower : naiveMatch.lower = "naïve_match2" := by cbv
  have hupper : naiveMatch.upper = "NAïVE_MATCH2" := by cbv
  have hrecased : Text.Recased "NaïveMatch2" "nAïVEmatch2" := by decide
  obtain ⟨hcamel', hlower', hupper', hanswers⟩ := Name.casings_invert.2 naiveMatch hwords
  rw [hcamel] at hcamel' hanswers
  rw [hlower] at hlower'
  rw [hupper] at hupper'
  exact ⟨hwords, hcamel, hcamel', hlower', hupper', hrecased,
    hanswers _ List.mem_cons_self _ hrecased⟩

end FrontEnd
