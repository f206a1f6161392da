import FrontEnd.Proofs.Emission

/-!
Case rules. A case rule keeps all alternatives that it is made from, the last as its fallback, which
has no guard; no guard is empty. But an alternative before the last may have none either. Such an
alternative is emitted like a fallback, with no tokens that have to come before, and the text of the
rule tests an empty condition for it.
-/
namespace FrontEnd

namespace CaseAction

theorem alternativeFault_eq_none_iff {max : Nat} {a : Alternative} :
    alternativeFault? max a = none ↔ a.size ≤ max ∧ a.guard ≠ some [] := by
  unfold alternativeFault?
  by_cases hsize : max < a.size
  · simp only [hsize, if_true, reduceCtorEq, false_iff, not_and]
    omega
  · by_cases hguard : a.guard = some []
    · simp [hsize, hguard]
    · simp [hsize, hguard, Nat.le_of_not_lt hsize]

theorem all_eq_concat_iff {c : CaseAction} {guarded : List Alternative} {last : Alternative} :
    c.all = guarded ++ [last] ↔ c.alternatives = guarded ∧ c.fallback = last := by
  constructor
  · intro h
    obtain ⟨hinit, hlast⟩ := List.append_inj' h rfl
    exact ⟨hinit, List.singleton_inj.mp hlast⟩
  · rintro ⟨rfl, rfl⟩
    rfl

/-- A case action is made if no alternative is too long or has an empty guard and the last has no
guard. It holds the alternatives in their order. -/
theorem ofAlternatives_eq_ok_iff {max : Nat} {as : List Alternative} {c : CaseAction} :
    ofAlternatives max as = .ok c ↔ c.maxLength = max ∧ c.all = as ∧ c.fallback.guard = none ∧
      ∀ a ∈ as, a.size ≤ max ∧ a.guard ≠ some [] := by
  unfold ofAlternatives
  cases hfault : as.findSome? (alternativeFault? max) with
  | some fault =>
    simp only [reduceCtorEq, false_iff]
    rintro ⟨-, -, -, hfits⟩
    have hnone : as.findSome? (alternativeFault? max) = none :=
      List.findSome?_eq_none_iff.mpr fun a ha => alternativeFault_eq_none_iff.mpr (hfits a ha)
    rw [hfault] at hnone
    cases hnone
  | none =>
    -- No alternative is at fault by itself, so only the last can still be refused.
    have hfits : ∀ a ∈ as, a.size ≤ max ∧ a.guard ≠ some [] := fun a ha =>
      alternativeFault_eq_none_iff.mp (List.findSome?_eq_none_iff.mp hfault a ha)
    cases hlast : as.getLast? with
    | none =>
      rw [List.getLast?_eq_none_iff.mp hlast]
      simp [all]
    | some last =>
      obtain ⟨guarded, rfl⟩ := List.getLast?_eq_some_iff.mp hlast
      rw [all_eq_concat_iff, List.dropLast_concat]
      by_cases hguard : last.guard = none
      · simp only [hguard, Option.isSome_none, Bool.false_eq_true, if_false, Except.ok.injEq]
        constructor
        · rintro rfl
          exact ⟨rfl, ⟨rfl, rfl⟩, hguard, hfits⟩
        · rintro ⟨rfl, ⟨rfl, rfl⟩, -, -⟩
          rfl
      · simp only [Option.isSome_iff_ne_none.mpr hguard, if_true, reduceCtorEq, false_iff]
        rintro ⟨-, ⟨-, rfl⟩, hnone, -⟩
        exact hguard hnone

end CaseAction

theorem Rule.ofCase_eq_ok_iff {m : Matcher} {as : List Alternative} {r : Rule} :
    Rule.ofCase m as = .ok r ↔ ∃ c, r = ⟨m, .case c⟩ ∧ m.maxLength = .ok c.maxLength ∧ c.all = as ∧
      c.fallback.guard = none ∧ ∀ a ∈ as, a.size ≤ c.maxLength ∧ a.guard ≠ some [] := by
  unfold ofCase
  cases hmax : m.maxLength with
  | error pattern => simp
  | ok max =>
    cases hmade : CaseAction.ofAlternatives max as with
    | error fault =>
      simp only [hmade, reduceCtorEq, false_iff]
      rintro ⟨c, -, hlength, hall⟩
      cases hlength
      rw [CaseAction.ofAlternatives_eq_ok_iff.mpr ⟨rfl, hall⟩] at hmade
      cases hmade
    | ok action =>
      simp only [hmade, Except.ok.injEq]
      constructor
      · rintro rfl
        obtain ⟨rfl, hall⟩ := CaseAction.ofAlternatives_eq_ok_iff.mp hmade
        exact ⟨action, rfl, rfl, hall⟩
      · rintro ⟨c, rfl, rfl, hall⟩
        rw [CaseAction.ofAlternatives_eq_ok_iff.mpr ⟨rfl, hall⟩] at hmade
        cases hmade
        rfl

namespace AltEntry

/-- The line that tests the condition of an alternative. -/
def test (a : AltEntry) : String := "    if (" ++ a.condition ++ ") \x7b\n"

theorem condition_eq_empty_iff {a : AltEntry} : a.condition = "" ↔ a.prevTokens = [] := by
  constructor
  · intro h
    cases hprev : a.prevTokens with
    | nil => rfl
    | cons t ts =>
      have hempty := congrArg String.toList h
      -- The condition begins with the test of the first token.
      rw [condition, hprev, List.map_cons, String.toList_intercalate, List.map_cons] at hempty
      cases ts <;> simp [List.intercalate] at hempty
  · intro h
    rw [condition, h]
    rfl

end AltEntry

theorem join_split (before : List String) (s : String) (after : List String) :
    String.join (before ++ s :: after) = String.join before ++ s ++ String.join after := by
  apply String.toList_injective
  simp

theorem caseText_tests {maxMatchLen : Nat} {alts : List AltEntry} {fallback a : AltEntry}
    (ha : a ∈ alts) :
    ∃ before after, caseText maxMatchLen alts fallback = before ++ a.test ++ after := by
  obtain ⟨front, back, rfl⟩ := List.append_of_mem ha
  rw [caseText, List.map_append, List.map_cons, join_split]
  generalize String.join (List.map _ front) = frontText
  generalize String.join (List.map _ back) = backText
  generalize indentedLines "        " _ = sent
  generalize indentedLines "    " _ = fallbackText
  refine ⟨"\x7b\n" ++ frontText, sent ++ "    \x7d\n" ++ backText ++ fallbackText ++ "\x7d", ?_⟩
  simp only [AltEntry.test, String.append_assoc]

theorem forall_iff_of_forall₂ {α β : Type} {P : α → Prop} {Q : β → Prop} {as : List α} {bs : List β}
    (h : List.Forall₂ (fun a b => P a ↔ Q b) as bs) : (∀ a ∈ as, P a) ↔ ∀ b ∈ bs, Q b := by
  induction h with
  | nil => simp
  | cons hab _ ih => rw [List.forall_mem_cons, List.forall_mem_cons, hab, ih]

namespace LexerSpec

variable {tokens : List TokenEntry}

theorem FitsAlternative.open_iff {a : Alternative} {e : AltEntry} (h : FitsAlternative tokens a e)
    (hguard : a.guard ≠ some []) : a.guard = none ↔ e.prevTokens = [] := by
  have hlength := h.guard.length_eq
  cases hg : a.guard with
  | none =>
    rw [hg] at hlength
    simpa using (List.length_eq_zero_iff.mp hlength.symm)
  | some kinds =>
    rw [hg] at hlength hguard
    have hkinds : kinds.length ≠ 0 := by simpa using hguard
    have hprev : e.prevTokens.length ≠ 0 := fun hnil => hkinds (hlength.trans hnil)
    simpa using hprev

/-- The entry of a case rule with the alternatives `as`. -/
structure Branches (as : List Alternative) (maxMatchLen : Nat) (alts : List AltEntry)
    (fallback : AltEntry) : Prop where
  /-- The default is the last alternative, and no token has to come before it. -/
  default_last : ∃ a, as.getLast? = some a ∧ a.guard = none
  default_open : fallback.prevTokens = []
  /-- Of the others just those without a guard are emitted like it. -/
  open_iff : List.Forall₂ (fun a e => a.guard = none ↔ e.prevTokens = []) as.dropLast alts
  /-- The text tests a condition for each of the others, an empty one for those. -/
  tested : ∀ e ∈ alts, ∃ before after,
    caseText maxMatchLen alts fallback = before ++ e.test ++ after
  condition_empty_iff : ∀ e ∈ alts, e.condition = "" ↔ e.prevTokens = []
  /-- There is one default and no empty condition exactly if all the others have guards. -/
  one_default_iff : (∀ a ∈ as.dropLast, ∃ kinds, a.guard = some kinds ∧ kinds ≠ []) ↔
    ∀ e ∈ alts, e.prevTokens ≠ [] ∧ e.condition ≠ ""

theorem FitsAction.branches {c : CaseAction} {as : List Alternative} {entry : ActionEntry}
    (h : FitsAction tokens (.case c) entry) (hall : c.all = as) (hlast : c.fallback.guard = none)
    (hguards : ∀ a ∈ as, a.guard ≠ some []) :
    ∃ alts fallback, entry = .case c.maxLength alts fallback ∧
      Branches as c.maxLength alts fallback := by
  subst hall
  cases h with
  | @case _ alts fallback halts hfallback =>
    have hinit : c.all.dropLast = c.alternatives := List.dropLast_concat
    -- No guard is empty, so an entry without tokens comes from an alternative without a guard.
    have hnonempty : ∀ a ∈ c.alternatives, a.guard ≠ some [] := fun a ha =>
      hguards a (List.mem_append_left _ ha)
    have hopen : List.Forall₂ (fun a e => a.guard = none ↔ e.prevTokens = []) c.alternatives alts :=
      ((List.forall₂_and_left _ _).mpr ⟨hnonempty, halts⟩).imp fun a e h => h.2.open_iff h.1
    refine ⟨alts, fallback, rfl, ?_⟩
    constructor
    case default_last => exact ⟨c.fallback, List.getLast?_concat, hlast⟩
    case default_open => exact (hfallback.open_iff (by simp [hlast])).mp hlast
    case open_iff => rwa [hinit]
    case tested => exact fun e he => caseText_tests he
    case condition_empty_iff => exact fun e _ => AltEntry.condition_eq_empty_iff
    case one_default_iff =>
      have hsame := forall_iff_of_forall₂ (hopen.imp fun a e hae => not_congr hae)
      rw [hinit]
      constructor
      · intro hall e he
        have hprev := hsame.mp (fun a ha => by obtain ⟨kinds, hk, -⟩ := hall a ha; simp [hk]) e he
        exact ⟨hprev, fun hempty => hprev (AltEntry.condition_eq_empty_iff.mp hempty)⟩
      · intro hall a ha
        have hguard : a.guard ≠ none := hsame.mpr (fun e he => (hall e he).1) a ha
        obtain ⟨kinds, hk⟩ := Option.ne_none_iff_exists'.mp hguard
        exact ⟨kinds, hk, fun hnil => hnonempty a ha (by rw [hk, hnil])⟩

end LexerSpec

namespace Lexer

/-- Whatever calls are made on a new lexer, a case rule that it holds is emitted in its place with
its alternatives in order, the last as the default. -/
theorem addAll_branches {config : LexerConfig} {decls : List TokenDecl} {start : Lexer}
    (h : ofDecls config decls = .ok start) (calls : List Addition) {m : Matcher}
    {as : List Alternative} {r : Rule} {i : Nat} (hcase : Rule.ofCase m as = .ok r)
    (hr : (start.addAll calls).rules[i]? = some r) :
    ∃ s maxMatchLen alts fallback, (start.addAll calls).emit = .ok s ∧
      m.maxLength = .ok maxMatchLen ∧
      s.rules[i]? = some ⟨m.text, .case maxMatchLen alts fallback⟩ ∧
      LexerSpec.Branches as maxMatchLen alts fallback := by
  obtain ⟨-, -, hclosed⟩ := ofDecls_addAll h calls
  obtain ⟨s, hs, hspec⟩ := (ofDecls_numbered h calls).emit_ok hclosed
  obtain ⟨c, rfl, hmax, hall, hlast, hfits⟩ := Rule.ofCase_eq_ok_iff.mp hcase
  -- Rules and their entries stand at the same places.
  obtain ⟨hi, hri⟩ := List.getElem?_eq_some_iff.mp hr
  have hi' : i < s.rules.length := hspec.rules.length_eq ▸ hi
  have hentry := hspec.rules.get hi hi'
  rw [List.get_eq_getElem, List.get_eq_getElem, hri] at hentry
  obtain ⟨alts, fallback, haction, hbranches⟩ :=
    hentry.action.branches hall hlast fun a ha => (hfits a ha).2
  refine ⟨s, c.maxLength, alts, fallback, hs, hmax, ?_, hbranches⟩
  rw [List.getElem?_eq_getElem hi', ← haction, ← hentry.matcher]

end Lexer

namespace Sample

theorem additions_branches :
    ∃ start s alts fallback, Lexer.ofDecls layoutConfig wordDecls = .ok start ∧
      (start.addAll additions).emit = .ok s ∧ s.rules[5]? = some ⟨"if", .case 2 alts fallback⟩ ∧
      LexerSpec.Branches [⟨some [5, 0], 6, 1⟩, ⟨none, 5, 2⟩] 2 alts fallback := by
  obtain ⟨start, r, hok, hcase, hr⟩ : ∃ start r, Lexer.ofDecls layoutConfig wordDecls = .ok start ∧
      Rule.ofCase (.pattern "if") [⟨some [5, 0], 6, 1⟩, ⟨none, 5, 2⟩] = .ok r ∧
      (start.addAll additions).rules[5]? = some r := ⟨_, _, rfl, rfl, rfl⟩
  obtain ⟨s, maxMatchLen, alts, fallback, hs, hmax, hentry, hbranches⟩ :=
    Lexer.addAll_branches hok additions hcase hr
  cases (hmax.symm.trans rfl : Except.ok maxMatchLen = Except.ok 2)
  exact ⟨start, s, alts, fallback, hok, hs, hentry, hbranches⟩

def plainConfig : LexerConfig := .ofLanguage "Tiny" false none

def openRule : Rule := ⟨.literal "ab", .case ⟨2, [⟨none, 0, 1⟩], ⟨none, 1, 2⟩⟩⟩

def openEntries : List RuleEntry :=
  [⟨"<<EOF>>", .send "TINY_TERMINATION" true⟩, ⟨"on_failure", .send "TINY_LEXING_FAILURE" true⟩,
    ⟨"\"ab\"", .case 2 [⟨[], "TINY_TERMINATION", 1⟩] ⟨[], "TINY_LEXING_FAILURE", 2⟩⟩]

end Sample

/-- Not every alternative before the last has a guard. One without is accepted and emitted with no
tokens that have to come before it, and the text of its rule has nothing to test. -/
theorem Lexer.branches_untested :
    Rule.ofCase (.literal "ab") [⟨none, 0, 1⟩, ⟨none, 1, 2⟩] = .ok Sample.openRule ∧
      ∃ start s, ofDecls Sample.plainConfig [] = .ok start ∧
        (start.addAll [.rules [Sample.openRule]]).rules[2]? = some Sample.openRule ∧
        (start.addAll [.rules [Sample.openRule]]).emit = .ok s ∧ s.rules = Sample.openEntries ∧
        ∃ before after,
          caseText 2 [⟨[], "TINY_TERMINATION", 1⟩] ⟨[], "TINY_LEXING_FAILURE", 2⟩ =
            before ++ "    if () \x7b\n" ++ after := by
  obtain ⟨start, hok, hheld, hentries⟩ : ∃ start, ofDecls Sample.plainConfig [] = .ok start ∧
      (start.addAll [.rules [Sample.openRule]]).rules[2]? = some Sample.openRule ∧
      (start.addAll [.rules [Sample.openRule]]).rules.mapM
        (start.addAll [.rules [Sample.openRule]]).ruleEntry = .ok Sample.openEntries := by
    exact ⟨_, rfl, rfl, by decide +kernel⟩
  obtain ⟨s, hs, hrules⟩ : ∃ s, (start.addAll [.rules [Sample.openRule]]).emit = .ok s ∧
      s.rules = Sample.openEntries := by
    rw [emit, (ofDecls_numbered hok _).tokenEntries_eq, hentries]
    exact ⟨_, rfl, rfl⟩
  exact ⟨rfl, start, s, hok, hheld, hs, hrules, caseText_tests (List.mem_singleton_self _)⟩

end FrontEnd
