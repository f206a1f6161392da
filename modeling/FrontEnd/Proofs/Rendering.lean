import FrontEnd.Artifact
import FrontEnd.Proofs.DescribedRules
import FrontEnd.Proofs.FunctionTexts

/-!
Rendering. What a template takes is written as a value and read back from it, and nothing is lost on
the way: the built-in renderer fills its templates with the specification and the function that it
was given. So no description is refused for a template that cannot be filled.
-/
namespace FrontEnd

/-! ### Values are read back -/

namespace Value

variable {α : Type} {write : α → Value} {read : Value → Option α}

theorem natBelow_nat {limit n : Nat} (h : n < limit) : natBelow? limit (nat n) = some n := if_pos h

theorem list_map {as : List α} (h : ∀ a ∈ as, read (write a) = some a) :
    list? read (list (as.map write)) = some as := by
  change (as.map write).mapM read = some as
  induction as with
  | nil => rfl
  | cons a as ih =>
    obtain ⟨ha, has⟩ := List.forall_mem_cons.mp h
    rw [List.map_cons, List.mapM_cons, ha, ih has]
    rfl

theorem list_texts (ss : List String) : list? text? (texts ss) = some ss :=
  list_map fun _ _ => rfl

end Value

theorem Retention.ofValue_toValue (r : Retention) : ofValue? .context r.toValue = some r := by
  cases r <;> rfl

theorem TokenEntry.ofValue_toValue {t : TokenEntry} (h : t.value < Lexer.maxKinds) :
    ofValue? t.toValue = some t := by
  -- Only the number and the word for the retention can be refused; the rest is taken as it stands.
  have hread : ofValue? t.toValue = (do
      let value ← Value.natBelow? Lexer.maxKinds (.nat t.value)
      let retention ← Retention.ofValue? .context t.retention.toValue
      pure { t with value, retention }) := rfl
  rw [hread, Value.natBelow_nat h, t.retention.ofValue_toValue]
  rfl

theorem NamedPattern.ofValue_toValue (p : NamedPattern) :
    ofValue? .context p.toValue = some p := rfl

theorem AltEntry.ofValue_toValue {a : AltEntry} (h : a.matchSize < UInt64.size) :
    ofValue? a.toValue = some a := by
  have hread : ofValue? a.toValue = (do
      let prevTokens ← Value.list? Value.text? (.texts a.prevTokens)
      let matchSize ← Value.size? (.nat a.matchSize)
      pure { a with prevTokens, matchSize }) := rfl
  rw [hread, Value.list_texts, Value.size?, Value.natBelow_nat h]
  rfl

theorem VarDecl.ofValue_toValue (v : VarDecl) : ofValue? v.toValue = some v := rfl

theorem FunctionContext.ofValue_toValue (f : FunctionContext) : ofValue? f.toValue = some f := by
  have hread : ofValue? f.toValue = (do
      let vars ← Value.list? VarDecl.ofValue? (.list (f.vars.map VarDecl.toValue))
      let arrayTypes ← Value.list? Value.text? (.texts f.arrayTypes)
      pure { f with vars, arrayTypes }) := rfl
  rw [hread, Value.list_texts, Value.list_map fun v _ => v.ofValue_toValue]
  rfl

/-- The rules of a specification with the texts of their actions. -/
def LexerSpec.ruleTexts (s : LexerSpec) : List RuleText :=
  s.rules.map fun r => ⟨r.matcher, actionText r.action⟩

def RuleText.toValue (r : RuleText) : Value :=
  .record [("matcher", .text r.matcher), ("action", .text r.action)]

theorem RuleText.ruleText_toValue (r : RuleText) : Template.ruleText? r.toValue = some r := rfl

/-! ### Templates are filled -/

/-- The sizes of an alternative and of a matcher are such as are written in 64 bits. -/
def ActionEntry.Sized : ActionEntry → Prop
  | .send .. | .ignore => True
  | .case maxMatchLen alts fallback => maxMatchLen < UInt64.size ∧
    fallback.matchSize < UInt64.size ∧ ∀ a ∈ alts, a.matchSize < UInt64.size

/-- The numbers of a specification are such as its entries have room for. -/
structure LexerSpec.Sized (s : LexerSpec) : Prop where
  tokens : ∀ t ∈ s.tokens, t.value < Lexer.maxKinds
  rules : ∀ r ∈ s.rules, r.action.Sized

namespace Template

variable {α : Type} {context v : Value} {key : String} {read : Value → Option α} {a : α}

theorem part_eq_ok (hv : context.get? key = some v) (ha : read v = some a) :
    part context key read = .ok a := by
  rw [part, hv]
  dsimp only
  rw [ha]

theorem fillCaseAction_context {maxMatchLen : Nat} {alts : List AltEntry} {fallback : AltEntry}
    (h : (ActionEntry.case maxMatchLen alts fallback).Sized) :
    fillCaseAction (Renderer.caseContext maxMatchLen alts fallback) =
      .ok (caseText maxMatchLen alts fallback) := by
  obtain ⟨hmax, hfallback, halts⟩ := h
  have hsize : Value.size? (.nat maxMatchLen) = some maxMatchLen := Value.natBelow_nat hmax
  have hread := Value.list_map fun a ha => AltEntry.ofValue_toValue (halts a ha)
  unfold fillCaseAction
  rw [part_eq_ok rfl hsize, part_eq_ok rfl hread,
    part_eq_ok rfl (AltEntry.ofValue_toValue hfallback)]
  rfl

theorem fillLexerSpec_context {s : LexerSpec} (h : s.Sized) (rules : List RuleText) :
    fillLexerSpec (Renderer.specContext s (rules.map RuleText.toValue)) =
      .ok (specText s.tokenPrefix s.tokens s.patterns rules) := by
  have htokens := Value.list_map fun t ht => TokenEntry.ofValue_toValue (h.tokens t ht)
  have hpatterns := Value.list_map fun p (_ : p ∈ s.patterns) => p.ofValue_toValue
  have hrules := Value.list_map fun r (_ : r ∈ rules) => r.ruleText_toValue
  unfold fillLexerSpec
  rw [part_eq_ok (a := s.tokenPrefix) rfl rfl, part_eq_ok rfl htokens, part_eq_ok rfl hpatterns,
    part_eq_ok rfl hrules]
  rfl

end Template

namespace Renderer

theorem builtin_action {entry : ActionEntry} (h : entry.Sized) :
    builtin.action entry = .ok (LexerSpec.actionText entry) := by
  cases entry with
  | send | ignore => rfl
  | case maxMatchLen alts fallback =>
    have hfill : Template.fill Template.caseAction (caseContext maxMatchLen alts fallback) =
        .ok (caseText maxMatchLen alts fallback) := Template.fillCaseAction_context h
    change (Template.fill _ _).mapError _ = _
    rw [hfill]
    rfl

theorem builtin_rule {entry : RuleEntry} (h : entry.action.Sized) : builtin.rule entry =
    .ok (RuleText.toValue ⟨entry.matcher, LexerSpec.actionText entry.action⟩) := by
  rw [rule, builtin_action h]
  rfl

theorem builtin_lexer {s : LexerSpec} (h : s.Sized) : builtin.lexer s = .ok s.text := by
  have hrules : s.rules.mapM builtin.rule = .ok (s.ruleTexts.map RuleText.toValue) := by
    rw [mapM_eq_ok_iff, LexerSpec.ruleTexts, List.map_map, List.forall₂_map_right_iff,
      List.forall₂_same]
    exact fun r hr => builtin_rule (h.rules r hr)
  have hfill : Template.fill Template.lexerSpec
      (specContext s (s.ruleTexts.map RuleText.toValue)) = .ok s.text :=
    Template.fillLexerSpec_context h s.ruleTexts
  rw [lexer, hrules]
  change (Template.fill _ _).mapError _ = _
  rw [hfill]
  rfl

theorem builtin_property (p : Property) : builtin.property p = .ok p.function.text := by
  have hfill : Template.fill Template.property p.function.toValue = .ok p.function.text := by
    change Template.fillProperty _ = _
    rw [Template.fillProperty, FunctionContext.ofValue_toValue]
  change (Template.fill _ _).mapError _ = _
  rw [hfill]
  rfl

end Renderer

/-! ### How specifications are written -/

/-- The lines send the token after `n` characters have gone back. -/
inductive SendsAfter (token : String) : Nat → List String → Prop
  | at_once : SendsAfter token 0 ["self_send(" ++ token ++ ");", "RETURN;"]
  | back (n : Nat) : SendsAfter token (n + 1)
      ["self_seek_backward(" ++ toString (n + 1) ++ ");", "self_send(" ++ token ++ ");", "RETURN;"]

theorem AltEntry.lines_sendAfter {e : AltEntry} {max : Nat} :
    SendsAfter e.send (max - e.matchSize) (e.lines max) := by
  unfold lines
  cases max - e.matchSize with
  | zero => exact .at_once
  | succ n => exact .back n

/-- An entry of a case rule with the lines that take it. -/
structure Branch where
  entry : AltEntry
  lines : List String

/-- The lines of a branch under its condition, that the token before is one of some tokens. -/
def Branch.block (b : Branch) : String :=
  "    if (" ++ " || ".intercalate (b.entry.prevTokens.map fun t => "last_token_id == " ++ t) ++
    ") \x7b\n" ++ String.join (b.lines.map fun l => "        " ++ l ++ "\n") ++ "    \x7d\n"

/-- The block of a case rule. The last branch has no condition. -/
def Branch.caseBlock (branches : List Branch) (last : Branch) : String :=
  "\x7b\n" ++ String.join (branches.map block) ++
    String.join (last.lines.map fun l => "    " ++ l ++ "\n") ++ "\x7d"

/-- How an action is written: with what it sends, as an empty block, or as the block of its own
alternatives, which go back by what they do not keep. -/
inductive ActionEntry.IsWritten : ActionEntry → String → Prop
  | send (token : String) : IsWritten (.send token false) ("=> " ++ token ++ ";")
  | sendLexeme (token : String) : IsWritten (.send token true) ("=> " ++ token ++ "(Lexeme);")
  | ignore : IsWritten .ignore "\x7b \x7d"
  | case {max : Nat} {branches : List Branch} {last : Branch} {alts : List AltEntry}
    (halts : branches.map (·.entry) = alts)
    (hsends : ∀ b ∈ last :: branches, SendsAfter b.entry.send (max - b.entry.matchSize) b.lines) :
    IsWritten (.case max alts last.entry) (Branch.caseBlock branches last)

def AltEntry.branch (max : Nat) (e : AltEntry) : Branch := ⟨e, e.lines max⟩

@[simp] theorem AltEntry.branches_entries (max : Nat) (es : List AltEntry) :
    (es.map (branch max)).map (·.entry) = es := by
  simp [branch, Function.comp_def]

theorem caseText_eq_caseBlock (max : Nat) (alts : List AltEntry) (fallback : AltEntry) :
    caseText max alts fallback =
      Branch.caseBlock (alts.map (·.branch max)) (fallback.branch max) := by
  simp only [caseText, Branch.caseBlock, Branch.block, AltEntry.branch, AltEntry.condition,
    indentedLines, List.map_map, Function.comp_def]

/-- The text as it stands inside a block, where each line but the first is behind four blanks. -/
def IsContinued (text shown : String) : Prop :=
  ∃ lines : List String, (∀ l ∈ lines, '\n' ∉ l.toList) ∧ text = "\n".intercalate lines ∧
    shown = "\n    ".intercalate lines

theorem intercalate_append_cons (sep s l : String) (ls : List String) :
    sep.intercalate ((s ++ l) :: ls) = s ++ sep.intercalate (l :: ls) := by
  cases ls with
  | nil => rw [String.intercalate_singleton, String.intercalate_singleton]
  | cons l' ls =>
    rw [String.intercalate_cons_cons, String.intercalate_cons_cons, String.append_assoc,
      String.append_assoc, String.append_assoc]

theorem exists_lines (cs : List Char) : ∃ l ls, (∀ x ∈ l :: ls, '\n' ∉ x.toList) ∧
    String.ofList cs = "\n".intercalate (l :: ls) ∧
    String.ofList (cs.flatMap fun c => if c = '\n' then '\n' :: "    ".toList else [c]) =
      "\n    ".intercalate (l :: ls) := by
  induction cs with
  | nil => exact ⟨"", [], by simp, rfl, rfl⟩
  | cons c cs ih =>
    obtain ⟨l, ls, hwhole, htext, hshown⟩ := ih
    rw [List.flatMap_cons]
    -- A line end opens a new first line; any other character joins the one behind it.
    by_cases hc : c = '\n'
    · refine ⟨"", l :: ls, by simpa using hwhole, ?_, ?_⟩
      · rw [String.intercalate_cons_cons, ← htext, hc]
        apply String.toList_injective
        simp
      · rw [String.intercalate_cons_cons, ← hshown, if_pos hc]
        apply String.toList_injective
        simp
    · have hwhole' : ∀ x ∈ (String.singleton c ++ l) :: ls, '\n' ∉ x.toList := by
        simpa [Ne.symm hc] using hwhole
      refine ⟨String.singleton c ++ l, ls, hwhole', ?_, ?_⟩
      · rw [intercalate_append_cons, ← htext]
        apply String.toList_injective
        simp
      · rw [intercalate_append_cons, ← hshown, if_neg hc]
        apply String.toList_injective
        simp

theorem continued_isContinued (text : String) : IsContinued text (continued text) := by
  obtain ⟨l, ls, hwhole, htext, hshown⟩ := exists_lines text.toList
  rw [String.ofList_toList] at htext
  exact ⟨l :: ls, hwhole, htext, hshown⟩

namespace LexerSpec

/-- The prefix of the tokens comes first, then an entry for each token, for each pattern and for
each rule, in order. -/
def IsWritten (s : LexerSpec) (text : String) : Prop :=
  ∃ actions shown, List.Forall₂ (fun rule action => rule.action.IsWritten action) s.rules actions ∧
    List.Forall₂ IsContinued actions shown ∧
    text = "token_prefix " ++ s.tokenPrefix ++ "\n\ntoken \x7b\n" ++
      String.join (s.tokens.map fun t => "    " ++ Text.upper t.name ++ ";\n") ++
      "\x7d\n\ndefine \x7b\n" ++
      String.join (s.patterns.map fun p => "    " ++ p.name ++ " " ++ p.pattern ++ "\n") ++
      "\x7d\n\nmode Default_Mode \x7b\n" ++
      String.join (List.zipWith (fun rule action =>
        "    " ++ rule.matcher ++ " " ++ action ++ "\n") s.rules shown) ++ "\x7d\n"

theorem actionText_isWritten (entry : ActionEntry) : entry.IsWritten (actionText entry) := by
  cases entry with
  | send token withLexeme =>
    cases withLexeme with
    | false => exact .send token
    | true => exact .sendLexeme token
  | ignore => exact .ignore
  | case max alts fallback =>
    rw [actionText, caseText_eq_caseBlock]
    have hsends : ∀ b ∈ fallback.branch max :: alts.map (·.branch max),
        SendsAfter b.entry.send (max - b.entry.matchSize) b.lines := by
      rw [List.forall_mem_cons, List.forall_mem_map]
      exact ⟨fallback.lines_sendAfter, fun e _ => e.lines_sendAfter⟩
    exact .case (AltEntry.branches_entries max alts) hsends

theorem text_isWritten (s : LexerSpec) : s.IsWritten s.text := by
  refine ⟨s.rules.map fun r => actionText r.action,
    s.rules.map fun r => continued (actionText r.action), ?_, ?_, ?_⟩
  · rw [List.forall₂_map_right_iff, List.forall₂_same]
    exact fun r _ => actionText_isWritten r.action
  · rw [List.forall₂_map_left_iff, List.forall₂_map_right_iff, List.forall₂_same]
    exact fun r _ => continued_isContinued _
  · -- The blocks put together their heads and ends from these.
    have htoken : "\n\ntoken \x7b\n" = "\n\n" ++ ("token" ++ " \x7b\n") := by decide
    have hdefine : "\x7d\n\ndefine \x7b\n" = "\x7d\n" ++ ("\n" ++ ("define" ++ " \x7b\n")) := by
      decide
    have hmode : "\x7d\n\nmode Default_Mode \x7b\n" =
        "\x7d\n" ++ ("\n" ++ ("mode Default_Mode" ++ " \x7b\n")) := by decide
    have hend : ";\n" = ";" ++ "\n" := by decide
    unfold text specText blockText indentedLines
    simp only [List.map_map, Function.comp_def, List.zipWith_map_right, List.zipWith_self,
      htoken, hdefine, hmode, hend, String.append_assoc]

end LexerSpec

/-! ### What is emitted has room -/

namespace Matcher

def source : Matcher → String
  | literal s | pattern s | noCase s | named _ s => s
  | eof | failure => ""

theorem maxLength_le {m : Matcher} {max : Nat} (h : m.maxLength = .ok max) :
    max ≤ m.source.length := by
  have hfixed {pattern : String} (hp : fixedWidth pattern = .ok max) : max ≤ pattern.length := by
    unfold fixedWidth at hp
    split at hp
    · cases hp
      exact Nat.le_of_eq String.length_toList
    · cases hp
  cases m with
  | literal s =>
    cases h
    exact Nat.le_of_eq String.length_toList
  | pattern s | noCase s | named name s => exact hfixed h
  | eof =>
    cases h
    exact Nat.zero_le _
  | failure => cases h

end Matcher

/-- A case rule takes less than 64 bits count, and its alternatives keep no more than that. -/
def Rule.Sized (r : Rule) : Prop :=
  ∀ c, r.action = .case c → c.maxLength < UInt64.size ∧ ∀ a ∈ c.all, a.size ≤ c.maxLength

theorem Rule.sized_ofCase {m : Matcher} {as : List Alternative} {r : Rule}
    (hm : m.source.length < UInt64.size) (hr : Rule.ofCase m as = .ok r) : r.Sized := by
  obtain ⟨c, rfl, hmax, hall, -, hfits⟩ := Rule.ofCase_eq_ok_iff.mp hr
  intro c' hc'
  cases hc'
  refine ⟨Nat.lt_of_le_of_lt (Matcher.maxLength_le hmax) hm, ?_⟩
  rw [hall]
  exact fun a ha => (hfits a ha).1

namespace LexerSpec

variable {tokens : List TokenEntry}

theorem FitsAction.sized {action : Action} {entry : ActionEntry}
    (h : FitsAction tokens action entry)
    (hr : ∀ c, action = .case c → c.maxLength < UInt64.size ∧ ∀ a ∈ c.all, a.size ≤ c.maxLength) :
    entry.Sized := by
  cases h with
  | send | ignore => trivial
  | @case c alts fallback halts hfallback =>
    obtain ⟨hmax, hsizes⟩ := hr c rfl
    have hsize : ∀ a ∈ c.all, a.size < UInt64.size := fun a ha =>
      Nat.lt_of_le_of_lt (hsizes a ha) hmax
    rw [CaseAction.all, List.forall_mem_append, List.forall_mem_singleton] at hsize
    refine ⟨hmax, hfallback.size ▸ hsize.2, ?_⟩
    have hboth := (List.forall₂_and_left _ _).mpr ⟨hsize.1, halts⟩
    exact forall_of_forall₂ hboth fun a e hae => hae.2.size ▸ hae.1

end LexerSpec

theorem Lexer.Settled.emit_sized {l : Lexer} (hl : l.Settled) (hr : ∀ r ∈ l.rules, r.Sized) :
    ∃ s, l.emit = .ok s ∧ s.Sized := by
  obtain ⟨s, hs, hspec⟩ := hl.numbered.emit_ok hl.closed
  refine ⟨s, hs, ?_⟩
  constructor
  case tokens =>
    intro t ht
    have hvalue : t.value ∈ s.tokens.map (·.value) := List.mem_map_of_mem ht
    rw [hspec.values, List.mem_range] at hvalue
    exact Nat.lt_of_lt_of_le hvalue hl.bounded
  case rules =>
    have hboth := (List.forall₂_and_left _ _).mpr ⟨hr, hspec.rules⟩
    exact forall_of_forall₂ hboth fun r e hre => hre.2.action.sized hre.1

/-! ### Compiling -/

def Error.IsRender (e : Error) : Prop := ∃ message, e = .render message

theorem LexerFault.toError_not_render (f : LexerFault) : ¬ f.toError.IsRender := by
  rintro ⟨message, h⟩
  cases h

namespace Lexer

theorem addRules_not_render {l : Lexer} {rs : List Rule} {e : Error}
    (h : l.addRules rs = .error e) : ¬ e.IsRender := by
  unfold addRules extend at h
  split at h
  · rename_i e' hforeign
    cases h
    obtain ⟨r, -, hr⟩ := List.exists_of_findSome?_eq_some hforeign
    obtain ⟨kind, -, rfl⟩ := Option.map_eq_some_iff.mp hr
    rintro ⟨message, hmessage⟩
    cases hmessage
  · cases hadded : (l.appendRules rs).1 with
    | error fault =>
      rw [hadded] at h
      cases h
      exact fault.toError_not_render
    | ok _ =>
      rw [hadded] at h
      cases h

theorem ownRules_send {l : Lexer} {r : Rule} (hr : r ∈ l.ownRules) :
    ∃ kind, r.action = .send kind := by
  rcases List.mem_append.mp hr with hr | hr
  · rw [List.mem_cons, List.mem_singleton] at hr
    rcases hr with rfl | rfl
    · exact ⟨terminationKind, rfl⟩
    · exact ⟨failureKind, rfl⟩
  · obtain ⟨kind, -, rfl⟩ := List.mem_map.mp hr
    exact ⟨kind, rfl⟩

end Lexer

namespace Description

variable {d : Description}

theorem bareLexer_not_render {e : Error} (h : d.bareLexer = .error e) : ¬ e.IsRender := by
  unfold bareLexer at h
  split at h
  · rename_i e' hdecls
    cases h
    unfold Lexer.ofDecls at hdecls
    split at hdecls
    · cases hdecls
      exact LexerFault.toError_not_render _
    · exact Lexer.addRules_not_render hdecls
  · split at h
    · cases h
      exact LexerFault.toError_not_render _
    · cases h

theorem RuleSection.RefusedAs.not_render {l : FrontEnd.Lexer} {s : RuleSection} {place : String}
    {e : Error} (h : s.RefusedAs l place e) : ¬ e.IsRender := by
  rintro ⟨message, rfl⟩
  cases h

theorem toLexer_eq_bind : d.toLexer = d.bareLexer >>= fun l => addRules d.name l 1 d.rules := rfl

theorem toLexer_not_render {e : Error} (h : d.toLexer = .error e) : ¬ e.IsRender := by
  rw [toLexer_eq_bind, bind_eq_error_iff] at h
  rcases h with hbare | ⟨start, hbare, hrules⟩
  · exact bareLexer_not_render hbare
  · obtain ⟨hsettled, -⟩ := bareLexer_settled hbare
    obtain ⟨_, s, _, _, l, cause, -, -, hcause, -, rfl⟩ := addRules_error hsettled d.name 1 hrules
    exact (hcause.refusedAs _).not_render

/-- The texts of the description's matchers are such as a machine can count the characters of. -/
structure Sized (d : Description) : Prop where
  matchers : ∀ s ∈ d.rules, ∀ m ∈ s.written, m.source.length < UInt64.size
  patterns : ∀ p ∈ d.patterns, p.pattern.length < UInt64.size

theorem RuleSection.Matches.source_lt {l : FrontEnd.Lexer} {s : RuleSection} {m : Matcher}
    (h : s.Matches l m) (hd : d.Sized) (hs : s ∈ d.rules) (hl : l.patterns = d.patterns) :
    m.source.length < UInt64.size := by
  cases h with
  | written hw => exact hd.matchers s hs m (by rw [hw]; exact List.mem_singleton_self m)
  | named _ _ hm =>
    unfold Lexer.pattern? at hm
    obtain ⟨p, hp, rfl⟩ := Option.map_eq_some_iff.mp hm
    exact hd.patterns p (hl ▸ List.mem_of_find?_eq_some hp)

theorem RuleSection.Describes.sized {l : FrontEnd.Lexer} {s : RuleSection} {r : Rule}
    (h : s.Describes l r) (hd : d.Sized) (hs : s ∈ d.rules) (hl : l.patterns = d.patterns) :
    r.Sized := by
  obtain ⟨m, hm, hr⟩ := h
  cases hr with
  | send | ignore =>
    intro c hc
    cases hc
  | case _ _ _ _ hr => exact Rule.sized_ofCase (hm.source_lt hd hs hl) hr

theorem toLexer_sized (hd : d.Sized) {l : FrontEnd.Lexer} (h : d.toLexer = .ok l) :
    l.Settled ∧ ∀ r ∈ l.rules, r.Sized := by
  rw [toLexer_eq_bind, bind_eq_ok_iff] at h
  obtain ⟨start, hbare, hrules⟩ := h
  obtain ⟨hstart, hown, hpatterns, -⟩ := bareLexer_settled hbare
  obtain ⟨rs, hordered⟩ := (addRules_eq_ok_iff hstart d.name 1).mp hrules
  have hgrows := hordered.grows hstart
  refine ⟨hstart.grows hgrows, ?_⟩
  intro r hr
  rw [hgrows.rules, hown, List.mem_append] at hr
  -- The lexer's own rules have no alternatives, and each of the others is described by a section.
  rcases hr with hr | hr
  · obtain ⟨kind, hkind⟩ := Lexer.ownRules_send hr
    intro c hc
    cases hkind.symm.trans hc
  · obtain ⟨s, hs, l', hl', hdescribes⟩ := hordered.described hstart r hr
    exact hdescribes.sized hd hs (hl'.trans hpatterns)

/-- What a description is compiled to if the texts are made from the specification and the functions
without templates. -/
def compileDirectly (d : Description) : Except Error Artifact := do
  let hierarchy ← d.hierarchy
  let lexer ← d.toLexer
  let spec ← lexer.emit.mapError LexerFault.toError
  let decls ← d.propertyDecls
  let properties ← decls.mapM fun p =>
    (p.check hierarchy).map fun property => ⟨property, property.function.text⟩
  pure ⟨d.name, spec, spec.text, properties, lexer.warnings⟩

theorem ofExcept_eq {α : Type} (x : Except Error α) :
    (MonadExcept.ofExcept x : Except Error α) = x := by
  cases x <;> rfl

theorem compileProperty_builtin (h : Hierarchy) : compileProperty Renderer.builtin h =
    fun p => (p.check h).map fun property => ⟨property, property.function.text⟩ := by
  funext p
  unfold compileProperty
  rw [ofExcept_eq]
  cases p.check h with
  | error e => rfl
  | ok property =>
    change Renderer.builtin.property property >>= _ = _
    rw [Renderer.builtin_property]
    rfl

theorem Sized.compile_builtin (hd : d.Sized) :
    d.compile Renderer.builtin = d.compileDirectly := by
  unfold compile compileDirectly
  simp only [ofExcept_eq, compileProperty_builtin]
  cases d.hierarchy with
  | error e => rfl
  | ok hierarchy =>
    cases hlexer : d.toLexer with
    | error e => rfl
    | ok lexer =>
      obtain ⟨hsettled, hrules⟩ := toLexer_sized hd hlexer
      obtain ⟨spec, hspec, hsized⟩ := hsettled.emit_sized hrules
      -- Up to the specification both go the same way; from there its text is the same.
      change ((lexer.emit.mapError LexerFault.toError) >>= _) =
        ((lexer.emit.mapError LexerFault.toError) >>= _)
      rw [hspec]
      change (Renderer.builtin.lexer spec >>= _) = _
      rw [Renderer.builtin_lexer hsized]
      rfl

theorem hierarchy_not_render {e : Error} (h : d.hierarchy = .error e) : ¬ e.IsRender := by
  rintro ⟨message, rfl⟩
  unfold hierarchy at h
  cases hnodes : Hierarchy.ofNodes (d.nodes.map NodeSection.node) <;> rw [hnodes] at h <;> cases h

theorem propertyDecls_not_render {e : Error} (h : d.propertyDecls = .error e) :
    ¬ e.IsRender := by
  rintro ⟨message, rfl⟩
  obtain ⟨p, -, hp⟩ := mapM_error h
  unfold PropertySection.decl at hp
  split at hp <;> cases hp

theorem check_not_render {h : Hierarchy} {p : PropertyDecl} {e : Error}
    (hc : p.check h = .error e) : ¬ e.IsRender := by
  rintro ⟨message, rfl⟩
  unfold PropertyDecl.check at hc
  split at hc <;> cases hc

theorem compileDirectly_not_render {e : Error} (h : d.compileDirectly = .error e) :
    ¬ e.IsRender := by
  unfold compileDirectly at h
  rcases bind_eq_error_iff.mp h with h | ⟨hierarchy, -, h⟩
  · exact hierarchy_not_render h
  rcases bind_eq_error_iff.mp h with h | ⟨lexer, -, h⟩
  · exact toLexer_not_render h
  rcases bind_eq_error_iff.mp h with h | ⟨spec, -, h⟩
  · cases hspec : lexer.emit <;> rw [hspec] at h <;> cases h
    exact LexerFault.toError_not_render _
  rcases bind_eq_error_iff.mp h with h | ⟨decls, -, h⟩
  · exact propertyDecls_not_render h
  rcases bind_eq_error_iff.mp h with h | ⟨properties, -, h⟩
  · obtain ⟨p, -, hp⟩ := mapM_error h
    cases hc : p.check hierarchy <;> rw [hc] at hp <;> cases hp
    exact check_not_render hc
  · cases h

end Description

/-- The built-in renderer never fails: the text of a specification and that of a property are made
from them directly, and so is what a description is compiled to. A specification is written entry by
entry. -/
theorem Renderer.builtin_renders :
    (∀ s : LexerSpec, s.Sized → builtin.lexer s = .ok s.text ∧ s.IsWritten s.text) ∧
      (∀ p : Property, builtin.property p = .ok p.function.text ∧
        p.function.IsWritten p.function.text) ∧
      ∀ d : Description, d.Sized → d.compile builtin = d.compileDirectly ∧
        ∀ message, d.compile builtin ≠ .error (.render message) := by
  refine ⟨fun s hs => ⟨builtin_lexer hs, s.text_isWritten⟩,
    fun p => ⟨builtin_property p, p.function.text_isWritten⟩, fun d hd => ?_⟩
  have hdirect := hd.compile_builtin
  refine ⟨hdirect, ?_⟩
  intro message h
  rw [hdirect] at h
  exact Description.compileDirectly_not_render h ⟨message, rfl⟩

namespace Sample

def choiceSpec : LexerSpec where
  langName := "Tiny"
  tokenPrefix := "TINY_"
  trackIndent := false
  tokens := [⟨0, "Word", "TINY_WORD", "TINY_WORD", "Tiny_Word", .text, false, false⟩]
  patterns := [⟨"blank", "[ ]"⟩]
  rules := [⟨"\x7bblank\x7d", .ignore⟩,
    ⟨"\"ab\"", .case 2 [⟨["TINY_WORD"], "TINY_WORD", 1⟩] ⟨[], "TINY_WORD", 2⟩⟩]

theorem choiceSpec_renders :
    choiceSpec.Sized ∧ Renderer.builtin.lexer choiceSpec = .ok choiceSpec.text ∧
      choiceSpec.IsWritten choiceSpec.text ∧ language.Sized ∧
      language.compile Renderer.builtin = language.compileDirectly ∧
      ∀ message, language.compile Renderer.builtin ≠ .error (.render message) := by
  have hspec : choiceSpec.Sized := by
    constructor
    · decide
    · have htwo : 2 < UInt64.size := by decide
      simp [choiceSpec, ActionEntry.Sized, htwo]
  have hlanguage : language.Sized := by
    constructor
    · have htexts : "do".length < UInt64.size ∧ "if".length < UInt64.size := by decide
      simpa [language, Description.RuleSection.written, Matcher.source] using htexts
    · have hblank : "[ ]".length < UInt64.size := by decide
      simpa [language] using hblank
  obtain ⟨hlexer, -, hcompile⟩ := Renderer.builtin_renders
  obtain ⟨htext, hwritten⟩ := hlexer choiceSpec hspec
  exact ⟨hspec, htext, hwritten, hlanguage, hcompile language hlanguage⟩

end Sample

end FrontEnd
