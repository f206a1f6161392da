import FrontEnd.Proofs.Rendering

namespace FrontEnd

/-- The alternatives can be chosen from for a matcher that takes at most `max` characters. -/
structure CaseAction.Safe (max : Nat) (as : List Alternative) : Prop where
  nonempty : as ≠ []
  fits : ∀ a ∈ as, a.size ≤ max
  no_empty_guard : ∀ a ∈ as, a.guard ≠ some []
  last_open : ∀ a, as.getLast? = some a → a.guard = none

theorem CaseAction.safe_iff {max : Nat} {as : List Alternative} :
    Safe max as ↔ ∃ c : CaseAction, c.maxLength = max ∧ c.all = as ∧ c.fallback.guard = none ∧
      ∀ a ∈ as, a.size ≤ max ∧ a.guard ≠ some [] := by
  constructor
  · intro h
    obtain ⟨guarded, last, rfl⟩ := (List.eq_nil_or_concat' as).resolve_left h.nonempty
    have hlast : last.guard = none := h.last_open last List.getLast?_concat
    exact ⟨⟨max, guarded, last⟩, rfl, rfl, hlast, fun a ha => ⟨h.fits a ha, h.no_empty_guard a ha⟩⟩
  · rintro ⟨c, rfl, rfl, hlast, hfits⟩
    refine ⟨by simp [all], fun a ha => (hfits a ha).1, fun a ha => (hfits a ha).2, ?_⟩
    intro a ha
    rw [all, List.getLast?_concat] at ha
    cases ha
    exact hlast

theorem Rule.exists_ofCase_iff {m : Matcher} {as : List Alternative} :
    (∃ r, Rule.ofCase m as = .ok r) ↔
      ∃ max, m.maxLength = .ok max ∧ CaseAction.Safe max as := by
  simp only [Rule.ofCase_eq_ok_iff, CaseAction.safe_iff]
  constructor
  · rintro ⟨_, c, rfl, hmax, hall⟩
    exact ⟨c.maxLength, hmax, c, rfl, hall⟩
  · rintro ⟨_, hmax, c, rfl, hall⟩
    exact ⟨_, c, rfl, hmax, hall⟩

/-- The branch is one for the alternative, and gives back just what that does not keep of a match
of `max` characters. -/
structure Branch.Takes (tokens : List TokenEntry) (max : Nat) (a : Alternative) (b : Branch) : Prop where
  entry : LexerSpec.FitsAlternative tokens a b.entry
  lines : ∃ n, a.size + n = max ∧ SendsAfter b.entry.send n b.lines

namespace LexerSpec

variable {s : LexerSpec} {tokens : List TokenEntry} {max : Nat} {a : Alternative} {e : AltEntry}

theorem FitsAlternative.takes (h : FitsAlternative tokens a e) (ha : a.size ≤ max) :
    Branch.Takes tokens max a (e.branch max) where
  entry := h
  lines := by
    refine ⟨max - a.size, Nat.add_sub_cancel' ha, ?_⟩
    rw [← h.size]
    exact e.lines_sendAfter

theorem text_rule {r : RuleEntry} (hr : r ∈ s.rules) : ∃ before after,
    s.text = before ++ ("    " ++ r.matcher ++ " " ++ continued (actionText r.action) ++ "\n") ++
      after := by
  obtain ⟨front, back, hrules⟩ := List.append_of_mem hr
  unfold text specText blockText
  rw [hrules, List.map_append, List.map_append, List.map_cons, List.map_cons, indentedLines,
    indentedLines, indentedLines, List.map_append, List.map_cons, join_split]
  generalize String.join (List.map _ (List.map _ (List.map _ front))) = frontText
  generalize String.join (List.map _ (List.map _ (List.map _ back))) = backText
  generalize String.join (List.map _ (List.map _ s.tokens)) = tokenText
  generalize String.join (List.map _ (List.map _ s.patterns)) = patternText
  refine ⟨"token_prefix " ++ s.tokenPrefix ++ "\n\n" ++ ("token" ++ " \x7b\n" ++ tokenText ++
    "\x7d\n") ++ "\n" ++ ("define" ++ " \x7b\n" ++ patternText ++ "\x7d\n") ++ "\n" ++
    ("mode Default_Mode" ++ " \x7b\n" ++ frontText), backText ++ "\x7d\n", ?_⟩
  simp only [String.append_assoc]

/-- How the specification has a case rule at place `i`. -/
structure CaseAt (s : LexerSpec) (i : Nat) (m : Matcher) (max : Nat) (as : List Alternative)
    (branches : List Branch) (last : Branch) : Prop where
  entry : s.rules[i]? = some ⟨m.text, .case max (branches.map (·.entry)) last.entry⟩
  takes : List.Forall₂ (Branch.Takes s.tokens max) as (branches ++ [last])
  /-- The text has the block of the branches behind that of the matcher. -/
  in_text : ∃ before shown after, IsContinued (Branch.caseBlock branches last) shown ∧
    s.text = before ++ ("    " ++ m.text ++ " " ++ shown ++ "\n") ++ after

end LexerSpec

namespace Lexer

theorem SpecifiedBy.rule_at {l : Lexer} {s : LexerSpec} (h : l.SpecifiedBy s) {i : Nat} {r : Rule}
    (hr : l.rules[i]? = some r) :
    ∃ entry, s.rules[i]? = some entry ∧ LexerSpec.FitsRule s.tokens r entry := by
  obtain ⟨hi, rfl⟩ := List.getElem?_eq_some_iff.mp hr
  have hi' : i < s.rules.length := h.rules.length_eq ▸ hi
  exact ⟨s.rules[i], List.getElem?_eq_getElem hi', h.rules.get hi hi'⟩

theorem SpecifiedBy.caseAt {l : Lexer} {s : LexerSpec} (h : l.SpecifiedBy s) {i : Nat} {m : Matcher}
    {c : CaseAction} (hr : l.rules[i]? = some ⟨m, .case c⟩)
    (hfits : ∀ a ∈ c.all, a.size ≤ c.maxLength) :
    ∃ branches last, s.CaseAt i m c.maxLength c.all branches last := by
  obtain ⟨⟨matcher, action⟩, hentry, hmatcher, haction⟩ := h.rule_at hr
  dsimp only at hmatcher haction
  subst hmatcher
  cases haction with
  | @case _ alts fallback halts hfallback =>
    -- Entries and alternatives correspond one by one, the last ones apart from the others.
    have htakes : List.Forall₂ (Branch.Takes s.tokens c.maxLength) c.alternatives
        (alts.map (·.branch c.maxLength)) := by
      rw [List.forall₂_map_right_iff]
      refine ((List.forall₂_and_left _ _).mpr ⟨?_, halts⟩).imp fun a e hae => hae.2.takes hae.1
      exact fun a ha => hfits a (List.mem_append_left _ ha)
    have hlast := hfallback.takes (hfits c.fallback (by simp [CaseAction.all]))
    refine ⟨alts.map (·.branch c.maxLength), fallback.branch c.maxLength, ?_⟩
    constructor
    case entry => rwa [AltEntry.branches_entries]
    case takes => exact List.rel_append htakes (.cons hlast .nil)
    case in_text =>
      obtain ⟨before, after, htext⟩ := LexerSpec.text_rule (List.mem_of_getElem? hentry)
      rw [LexerSpec.actionText, caseText_eq_caseBlock] at htext
      exact ⟨before, _, after, continued_isContinued _, htext⟩

end Lexer

/-- A case rule is accepted exactly if its alternatives are safe for its matcher, and holds them in
their order. Whatever lexer it is added to, it is written with each of them going back by just what
it does not keep. -/
theorem Rule.ofCase_rewinds (m : Matcher) (as : List Alternative) :
    ((∃ r, Rule.ofCase m as = .ok r) ↔
      ∃ max, m.maxLength = .ok max ∧ CaseAction.Safe max as) ∧
    ∀ r, Rule.ofCase m as = .ok r → ∃ c, r = ⟨m, .case c⟩ ∧ m.maxLength = .ok c.maxLength ∧
      c.alternatives ++ [c.fallback] = as ∧
      ∀ config decls start calls i, Lexer.ofDecls config decls = .ok start →
        (start.addAll calls).rules[i]? = some r →
        ∃ s branches last, (start.addAll calls).emit = .ok s ∧
          s.CaseAt i m c.maxLength as branches last ∧
          (s.Sized → Renderer.builtin.lexer s = .ok s.text) := by
  refine ⟨Rule.exists_ofCase_iff, ?_⟩
  intro r hcase
  obtain ⟨c, rfl, hmax, rfl, -, hfits⟩ := Rule.ofCase_eq_ok_iff.mp hcase
  refine ⟨c, rfl, hmax, rfl, ?_⟩
  intro config decls start calls i hok hr
  obtain ⟨-, -, hclosed⟩ := Lexer.ofDecls_addAll hok calls
  obtain ⟨s, hs, hspec⟩ := (Lexer.ofDecls_numbered hok calls).emit_ok hclosed
  obtain ⟨branches, last, hwritten⟩ := hspec.caseAt hr fun a ha => (hfits a ha).1
  exact ⟨s, branches, last, hs, hwritten, Renderer.builtin_lexer⟩

namespace Sample

theorem additions_rewind : CaseAction.Safe 2 [⟨some [5, 0], 6, 1⟩, ⟨none, 5, 2⟩] ∧
    ∃ start s branches last, Lexer.ofDecls layoutConfig wordDecls = .ok start ∧
      (start.addAll additions).emit = .ok s ∧
      s.CaseAt 5 (.pattern "if") 2 [⟨some [5, 0], 6, 1⟩, ⟨none, 5, 2⟩] branches last := by
  obtain ⟨start, r, hok, hcase, hr⟩ : ∃ start r, Lexer.ofDecls layoutConfig wordDecls = .ok start ∧
      Rule.ofCase (.pattern "if") [⟨some [5, 0], 6, 1⟩, ⟨none, 5, 2⟩] = .ok r ∧
      (start.addAll additions).rules[5]? = some r := ⟨_, _, rfl, rfl, rfl⟩
  obtain ⟨hiff, hwritten⟩ :=
    Rule.ofCase_rewinds (.pattern "if") [⟨some [5, 0], 6, 1⟩, ⟨none, 5, 2⟩]
  obtain ⟨max, hmax, hsafe⟩ := hiff.mp ⟨r, hcase⟩
  cases (hmax.symm.trans rfl : Except.ok max = Except.ok 2)
  obtain ⟨c, -, hlength, -, hall⟩ := hwritten r hcase
  have htwo : c.maxLength = 2 := Except.ok.inj (hlength.symm.trans hmax)
  obtain ⟨s, branches, last, hs, hcaseAt, -⟩ := hall _ _ start additions 5 hok hr
  rw [htwo] at hcaseAt
  exact ⟨hsafe, start, s, branches, last, hok, hs, hcaseAt⟩

end Sample

end FrontEnd
