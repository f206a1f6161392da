import FrontEnd.Proofs.References

namespace FrontEnd

/-! ### Steps that may fail -/

section

variable {α β ε : Type} {x : Except ε α} {f : α → Except ε β} {as : List α} {e : ε}

theorem bind_eq_ok_iff {b : β} : (x >>= f) = .ok b ↔ ∃ a, x = .ok a ∧ f a = .ok b := by
  cases x with
  | error e =>
    change (Except.error e = Except.ok b) ↔ _
    simp
  | ok a =>
    change (f a = .ok b) ↔ _
    simp

theorem bind_eq_error_iff :
    (x >>= f) = .error e ↔ x = .error e ∨ ∃ a, x = .ok a ∧ f a = .error e := by
  cases x with
  | error e' =>
    change (Except.error e' = Except.error e) ↔ _
    simp
  | ok a =>
    change (f a = .error e) ↔ _
    simp

theorem mapM_eq_ok_iff {bs : List β} :
    as.mapM f = .ok bs ↔ List.Forall₂ (fun a b => f a = .ok b) as bs := by
  induction as generalizing bs with
  | nil =>
    rw [List.mapM_nil, List.forall₂_nil_left_iff]
    exact ⟨fun h => (Except.ok.inj h).symm, fun h => congrArg Except.ok h.symm⟩
  | cons a as ih =>
    rw [List.mapM_cons, bind_eq_ok_iff, List.forall₂_cons_left_iff]
    simp only [bind_eq_ok_iff, ih]
    constructor
    · rintro ⟨b, hb, bs', hbs, hpure⟩
      exact ⟨b, bs', hb, hbs, (Except.ok.inj hpure).symm⟩
    · rintro ⟨b, bs', hb, hbs, rfl⟩
      exact ⟨b, hb, bs', hbs, rfl⟩

theorem mapM_error (h : as.mapM f = .error e) : ∃ a ∈ as, f a = .error e := by
  induction as with
  | nil => cases h
  | cons a as ih =>
    rw [List.mapM_cons, bind_eq_error_iff] at h
    rcases h with ha | ⟨b, -, h⟩
    · exact ⟨a, List.mem_cons_self, ha⟩
    · rcases bind_eq_error_iff.mp h with has | ⟨bs, -, hpure⟩
      · obtain ⟨a', ha', hf⟩ := ih has
        exact ⟨a', List.mem_cons_of_mem a ha', hf⟩
      · cases hpure

theorem forall_of_forall₂ {R : α → β → Prop} {Q : β → Prop} {bs : List β}
    (h : List.Forall₂ R as bs) (hQ : ∀ a b, R a b → Q b) : ∀ b ∈ bs, Q b := by
  induction h with
  | nil => exact List.forall_mem_nil Q
  | cons hab _ ih => exact List.forall_mem_cons.mpr ⟨hQ _ _ hab, ih⟩

end

/-! ### Faults and their findings -/

theorem LexerFault.toError_inContext (f : LexerFault) (place : String) :
    f.toError.inContext place = .specification { f.finding with context := some place } := by
  cases f <;> rfl

namespace Lexer

/-- The tokens have their places as numbers, of which there are enough, and names of their own, and
nothing is named that is not among them. -/
structure Settled (l : Lexer) : Prop where
  numbered : l.Numbered
  names : l.DistinctNames
  closed : l.Closed
  bounded : l.tokens.length ≤ maxKinds

namespace Settled

variable {l m : Lexer} {text : String}

theorem grows {rs : List Rule} (hl : l.Settled) (h : l.Grows rs m) : m.Settled where
  numbered := by
    have hnumbered := hl.numbered
    unfold Numbered at hnumbered ⊢
    rwa [h.tokens]
  names := by
    have hnames := hl.names
    unfold DistinctNames at hnames ⊢
    rwa [h.tokens]
  closed := h.closed
  bounded := h.tokens ▸ hl.bounded

theorem withPatterns (hl : l.Settled) (ps : List NamedPattern) :
    Settled { l with patterns := ps } :=
  ⟨hl.numbered, hl.names, hl.closed.withPatterns ps, hl.bounded⟩

theorem kindOf_lt (hl : l.Settled) {kind : Nat} (h : l.kindOf (.text text) = .ok kind) :
    kind < l.tokens.length := by
  rcases (kindOf_text_iff hl.numbered hl.names hl.closed).mp h with ⟨t, ht⟩ | ⟨-, hliteral⟩
  · exact (List.getElem?_eq_some_iff.mp ht.at_place).1
  · exact hl.closed.literal_lt hliteral

theorem kindOf_error (hl : l.Settled) {fault : LexerFault}
    (h : l.kindOf (.text text) = .error fault) : fault = .unknownSpelling text := by
  cases hfind : l.tokens.find? (·.name.matchesLoosely text) with
  | some t =>
    obtain ⟨kind, hfirst⟩ := find?_eq_some_iff_isFirst.mp hfind
    rw [kindOf_of_isFirst hl.numbered hl.names hfirst] at h
    cases h
  | none =>
    rw [kindOf_of_unanswered hl.numbered hl.names hl.closed (List.find?_eq_none.mp hfind)] at h
    split at h
    · cases h
    · exact (Except.error.inj h).symm

theorem addRules_single (hl : l.Settled) {r : Rule} (hr : r.Within l.tokens.length) :
    ∃ m, l.addRules [r] = .ok m ∧ (l.add (.rules [r])).2 = m ∧ l.Grows [r] m := by
  have hwithin : ∀ r' ∈ [r], r'.Within l.tokens.length := List.forall_mem_singleton.mpr hr
  obtain ⟨m, hm, hgrows⟩ := hl.closed.appendRules_ok hwithin
  have hextend : l.extend [r] = (.ok (), m) := by
    rw [extend, foreignRule_eq_none_iff.mpr hwithin]
    dsimp only
    rw [hm]
    rfl
  refine ⟨m, ?_, congrArg Prod.snd hextend, hgrows⟩
  rw [addRules, hextend]
  rfl

end Settled

theorem ofDecls_settled {config : LexerConfig} {decls : List TokenDecl} {l : Lexer}
    (h : ofDecls config decls = .ok l) : l.Settled ∧ l.rules = l.ownRules ∧ l.patterns = [] := by
  obtain ⟨-, -, hclosed⟩ := ofDecls_addAll h []
  obtain ⟨tokens, hregister, hgrows⟩ := ofDecls_grows h
  have hbounded : tokens.length ≤ maxKinds :=
    (register_bounded hregister List.nodup_nil (Nat.zero_le _)).2
  refine ⟨⟨ofDecls_numbered h [], ofDecls_distinctNames h [], hclosed, hgrows.tokens ▸ hbounded⟩,
    ?_, hgrows.patterns⟩
  rw [hgrows.rules, List.nil_append]
  unfold ownRules newline?
  rw [hgrows.config]

end Lexer

/-! ### What a section describes -/

namespace Description

section

variable (l : FrontEnd.Lexer)

/-- The alternative that a section describes: its tokens have the kinds that the texts refer to. -/
structure AltSection.Resolves (s : AltSection) (a : Alternative) : Prop where
  send : l.kindOf (.text s.send) = .ok a.send
  guard : Option.Rel (List.Forall₂ fun text kind => l.kindOf (.text text) = .ok kind) s.prev a.guard
  size : a.size = s.matchSize

namespace RuleSection

def written (s : RuleSection) : List Matcher :=
  s.literal.toList.map .literal ++ s.pattern.toList.map .pattern ++ s.noCase.toList.map .noCase

/-- It is told once what is matched: by a text or by the name of a pattern. -/
inductive Matches (s : RuleSection) : Matcher → Prop
  | written {m : Matcher} (hw : s.written = [m]) (hn : s.named = none) : Matches s m
  | named {name : String} {m : Matcher} (hw : s.written = []) (hn : s.named = some name)
    (hm : l.pattern? name = some m) : Matches s m

/-- It is told once what is done with what the matcher `m` takes. -/
inductive Does (s : RuleSection) (m : Matcher) : Rule → Prop
  | send {text : String} {kind : Nat} (ht : s.token = some text) (hi : s.ignore = false)
    (hc : s.case = none) (hk : l.kindOf (.text text) = .ok kind) : Does s m ⟨m, .send kind⟩
  | ignore (ht : s.token = none) (hi : s.ignore = true) (hc : s.case = none) :
    Does s m ⟨m, .ignore⟩
  | case {alts : List AltSection} {as : List Alternative} {r : Rule} (ht : s.token = none)
    (hi : s.ignore = false) (hc : s.case = some alts)
    (has : List.Forall₂ (AltSection.Resolves l) alts as) (hr : Rule.ofCase m as = .ok r) :
    Does s m r

/-- The section describes the rule in the lexer `l`. -/
def Describes (s : RuleSection) (r : Rule) : Prop := ∃ m, s.Matches l m ∧ s.Does l m r

/-- What is wrong with a section by itself or with what it refers to. -/
inductive Fault (s : RuleSection) : LexerFault → Prop
  | noMatcher (hw : s.written = []) (hn : s.named = none) : Fault s .noMatcher
  | manyMatchers (h : 1 < s.written.length + s.named.toList.length) : Fault s .manyMatchers
  | unknownPattern {name : String} (hn : s.named = some name) (hp : l.pattern? name = none) :
    Fault s (.unknownPattern name)
  | actionCount (h : s.actionCount ≠ 1) : Fault s .actionCount
  | unknownSpelling {text : String} (hk : l.kindOf (.text text) = .error (.unknownSpelling text)) :
    Fault s (.unknownSpelling text)

/-- Why a section describes no rule: it is at fault, or its case rule is not accepted. -/
inductive Refuses (s : RuleSection) : Error → Prop
  | fault {f : LexerFault} (hf : s.Fault l f) : Refuses s f.toError
  | case {m : Matcher} {alts : List AltSection} {as : List Alternative} {e : Error}
    (hm : s.Matches l m) (ht : s.token = none) (hi : s.ignore = false) (hc : s.case = some alts)
    (has : List.Forall₂ (AltSection.Resolves l) alts as) (he : Rule.ofCase m as = .error e) :
    Refuses s e

/-- The error for a section that describes no rule. It tells the place of the section, but for a
case rule that is not accepted: that tells its matcher, or the pattern whose extent is not known. -/
inductive RefusedAs (s : RuleSection) (place : String) : Error → Prop
  | fault {f : LexerFault} (hf : s.Fault l f) :
    RefusedAs s place (.specification { f.finding with context := some place })
  | unaccepted {m : Matcher} {alts : List AltSection} {as : List Alternative} {max : Nat}
    {f : LexerFault} (hm : s.Matches l m) (hc : s.case = some alts)
    (has : List.Forall₂ (AltSection.Resolves l) alts as) (hmax : m.maxLength = .ok max)
    (hf : CaseAction.ofAlternatives max as = .error f) :
    RefusedAs s place (.specification { f.finding with context := some ("case rule " ++ m.text) })
  | unknownExtent {m : Matcher} {alts : List AltSection} {pattern : String} (hm : s.Matches l m)
    (hc : s.case = some alts) (hmax : m.maxLength = .error pattern) :
    RefusedAs s place (.unknownExtent pattern)

end RuleSection

end

variable {l : FrontEnd.Lexer}

/-! ### Sections are read as rules -/

def guardKinds (l : FrontEnd.Lexer) : Option (List String) → Except LexerFault (Option (List Nat))
  | none => .ok none
  | some texts => some <$> texts.mapM fun text => l.kindOf (.text text)

theorem guardKinds_eq_ok_iff {prev : Option (List String)} {guard : Option (List Nat)} :
    guardKinds l prev = .ok guard ↔
      Option.Rel (List.Forall₂ fun text kind => l.kindOf (.text text) = .ok kind) prev guard := by
  cases prev with
  | none =>
    constructor
    · intro h
      cases h
      exact .none
    · intro h
      cases h
      rfl
  | some texts =>
    rw [guardKinds, map_eq_pure_bind, bind_eq_ok_iff]
    simp only [mapM_eq_ok_iff]
    constructor
    · rintro ⟨kinds, hkinds, hsome⟩
      cases Except.ok.inj hsome
      exact .some hkinds
    · intro h
      cases h with
      | some hkinds => exact ⟨_, hkinds, rfl⟩

namespace AltSection

variable {s : AltSection} {a : Alternative}

theorem alternative_eq : s.alternative l = (do
    let send ← l.kindOf (.text s.send)
    let guard ← guardKinds l s.prev
    pure ⟨guard, send, s.matchSize⟩) := by
  obtain ⟨prev, send, matchSize⟩ := s
  cases prev <;> rfl

theorem alternative_eq_ok_iff : s.alternative l = .ok a ↔ s.Resolves l a := by
  rw [alternative_eq, bind_eq_ok_iff]
  simp only [bind_eq_ok_iff, guardKinds_eq_ok_iff]
  constructor
  · rintro ⟨send, hsend, guard, hguard, hpure⟩
    cases Except.ok.inj hpure
    exact ⟨hsend, hguard, rfl⟩
  · rintro ⟨hsend, hguard, hsize⟩
    refine ⟨a.send, hsend, a.guard, hguard, ?_⟩
    rw [← hsize]
    rfl

theorem Resolves.within (hl : l.Settled) (h : s.Resolves l a) :
    ∀ kind ∈ a.send :: a.guard.getD [], kind < l.tokens.length := by
  have hsend : a.send < l.tokens.length := hl.kindOf_lt h.send
  rw [List.forall_mem_cons]
  refine ⟨hsend, ?_⟩
  have hguard := h.guard
  cases hkinds : a.guard with
  | none => exact List.forall_mem_nil _
  | some kinds =>
    rw [hkinds] at hguard
    generalize s.prev = prev at hguard
    cases hguard with
    | some htexts => exact forall_of_forall₂ htexts fun _ _ hk => hl.kindOf_lt hk

theorem alternative_error (hl : l.Settled) {fault : LexerFault}
    (h : s.alternative l = .error fault) :
    ∃ text, fault = .unknownSpelling text ∧ l.kindOf (.text text) = .error fault := by
  rw [alternative_eq, bind_eq_error_iff] at h
  rcases h with hsend | ⟨send, -, h⟩
  · exact ⟨s.send, hl.kindOf_error hsend, hsend⟩
  rcases bind_eq_error_iff.mp h with hguard | ⟨guard, -, hpure⟩
  · unfold guardKinds at hguard
    split at hguard
    · cases hguard
    · rw [map_eq_pure_bind, bind_eq_error_iff] at hguard
      rcases hguard with htexts | ⟨kinds, -, hpure⟩
      · obtain ⟨text, -, hk⟩ := mapM_error htexts
        exact ⟨text, hl.kindOf_error hk, hk⟩
      · cases hpure
  · cases hpure

end AltSection

namespace RuleSection

variable {s : RuleSection} {m : Matcher} {r : Rule}

def theOnly : List Matcher → Except LexerFault Matcher
  | [] => .error .noMatcher
  | [m] => .ok m
  | _ => .error .manyMatchers

theorem theOnly_eq_ok_iff {ms : List Matcher} : theOnly ms = .ok m ↔ ms = [m] := by
  unfold theOnly
  split <;> simp_all

theorem matcher_eq :
    s.matcher l = s.namedMatcher l >>= fun named => theOnly (s.written ++ named.toList) := by
  have hall (named : Option Matcher) :
      ([s.literal.map Matcher.literal, s.pattern.map Matcher.pattern,
        s.noCase.map Matcher.noCase] ++ [named]).reduceOption = s.written ++ named.toList := by
    unfold written
    cases s.literal <;> cases s.pattern <;> cases s.noCase <;> cases named <;> rfl
  unfold matcher
  simp only [hall]
  rfl

theorem namedMatcher_eq_ok_iff {named : Option Matcher} :
    s.namedMatcher l = .ok named ↔ (s.named = none ∧ named = none) ∨
      ∃ name m, s.named = some name ∧ l.pattern? name = some m ∧ named = some m := by
  unfold namedMatcher
  cases s.named with
  | none => simp [eq_comm]
  | some name =>
    dsimp only
    cases hp : l.pattern? name with
    | none => simp [hp]
    | some m => simp [hp, eq_comm]

theorem matcher_eq_ok_iff : s.matcher l = .ok m ↔ s.Matches l m := by
  rw [matcher_eq, bind_eq_ok_iff]
  simp only [namedMatcher_eq_ok_iff, theOnly_eq_ok_iff]
  constructor
  · rintro ⟨named, ⟨hn, rfl⟩ | ⟨name, m', hn, hm, rfl⟩, hall⟩
    · rw [Option.toList_none, List.append_nil] at hall
      exact .written hall hn
    · -- The named matcher stands last, so no other one is there.
      rw [Option.toList_some] at hall
      obtain ⟨hw, hsame⟩ := List.append_inj' (hall.trans (List.nil_append [m]).symm) rfl
      cases List.singleton_inj.mp hsame
      exact .named hw hn hm
  · intro h
    cases h with
    | written hw hn => exact ⟨none, .inl ⟨hn, rfl⟩, by rw [hw]; rfl⟩
    | named hw hn hm => exact ⟨some m, .inr ⟨_, m, hn, hm, rfl⟩, by rw [hw]; rfl⟩

theorem matcher_fault {fault : LexerFault} (h : s.matcher l = .error fault) : s.Fault l fault := by
  rw [matcher_eq, bind_eq_error_iff] at h
  rcases h with hnamed | ⟨named, hnamed, hone⟩
  · unfold namedMatcher at hnamed
    split at hnamed
    · cases hnamed
    · rename_i name hn
      split at hnamed
      · rename_i hp
        cases hnamed
        exact .unknownPattern hn hp
      · cases hnamed
  -- The name is known, so the matchers are none or several.
  · have hlength : s.named.toList.length = named.toList.length := by
      rcases namedMatcher_eq_ok_iff.mp hnamed with ⟨hn, rfl⟩ | ⟨name, m, hn, -, rfl⟩
      · rw [hn]
        rfl
      · rw [hn]
        rfl
    unfold theOnly at hone
    split at hone
    · rename_i hall
      cases hone
      obtain ⟨hw, hnone⟩ := List.append_eq_nil_iff.mp hall
      rw [hnone, List.length_nil, List.length_eq_zero_iff] at hlength
      exact .noMatcher hw (by simpa using hlength)
    · cases hone
    · rename_i hnil hsingle
      cases hone
      apply Fault.manyMatchers
      rw [hlength, ← List.length_append]
      generalize s.written ++ named.toList = ms at hnil hsingle
      match ms with
      | [] => exact absurd rfl hnil
      | [m] => exact absurd rfl (hsingle m)
      | _ :: _ :: _ => simp

theorem actionCount_eq_one_iff : s.actionCount = 1 ↔
    (∃ text, s.token = some text ∧ s.ignore = false ∧ s.case = none) ∨
    (s.token = none ∧ s.ignore = true ∧ s.case = none) ∨
    ∃ alts, s.token = none ∧ s.ignore = false ∧ s.case = some alts := by
  unfold actionCount
  cases s.token <;> cases s.ignore <;> cases s.case <;> simp

theorem actionCount_of_does (h : s.Does l m r) : s.actionCount = 1 := by
  rw [actionCount_eq_one_iff]
  cases h with
  | send ht hi hc => exact .inl ⟨_, ht, hi, hc⟩
  | ignore ht hi hc => exact .inr (.inl ⟨ht, hi, hc⟩)
  | case ht hi hc => exact .inr (.inr ⟨_, ht, hi, hc⟩)

theorem ruleFor_of_token {text : String} (ht : s.token = some text) :
    s.ruleFor l m = ((l.kindOf (.text text)).mapError LexerFault.toError).map fun kind =>
      ⟨m, .send kind⟩ := by
  unfold ruleFor
  rw [ht]

theorem ruleFor_of_ignore (ht : s.token = none) (hc : s.case = none) :
    s.ruleFor l m = .ok ⟨m, .ignore⟩ := by
  unfold ruleFor
  rw [ht, hc]

theorem ruleFor_of_case {alts : List AltSection} (ht : s.token = none) (hc : s.case = some alts) :
    s.ruleFor l m = (alts.mapM (AltSection.alternative l)).mapError LexerFault.toError >>=
      Rule.ofCase m := by
  unfold ruleFor
  rw [ht, hc]
  dsimp only
  cases (alts.mapM (AltSection.alternative l)).mapError LexerFault.toError <;> rfl

theorem ruleFor_of_does (h : s.Does l m r) : s.ruleFor l m = .ok r := by
  cases h with
  | send ht hi hc hk =>
    rw [ruleFor_of_token ht, hk]
    rfl
  | ignore ht hi hc => exact ruleFor_of_ignore ht hc
  | case ht hi hc has hr =>
    have hread := mapM_eq_ok_iff.mpr (has.imp fun _ _ h => AltSection.alternative_eq_ok_iff.mpr h)
    rw [ruleFor_of_case ht hc, hread]
    exact hr

theorem rule_of_describes (h : s.Describes l r) : s.rule l = .ok r := by
  obtain ⟨m, hm, hr⟩ := h
  rw [rule, matcher_eq_ok_iff.mpr hm]
  dsimp only
  rw [if_pos (actionCount_of_does hr), ruleFor_of_does hr]

theorem ruleFor_cases (hl : l.Settled) (hm : s.Matches l m) (hcount : s.actionCount = 1) :
    (∃ r, s.ruleFor l m = .ok r ∧ s.Does l m r) ∨
      ∃ e, s.ruleFor l m = .error e ∧ s.Refuses l e := by
  -- A section with one action sends, ignores or chooses.
  rcases actionCount_eq_one_iff.mp hcount with ⟨text, ht, hi, hc⟩ | ⟨ht, hi, hc⟩ |
    ⟨alts, ht, hi, hc⟩
  · rw [ruleFor_of_token ht]
    cases hk : l.kindOf (.text text) with
    | error fault =>
      obtain rfl := hl.kindOf_error hk
      exact .inr ⟨_, rfl, .fault (.unknownSpelling hk)⟩
    | ok kind => exact .inl ⟨_, rfl, .send ht hi hc hk⟩
  · exact .inl ⟨_, ruleFor_of_ignore ht hc, .ignore ht hi hc⟩
  · rw [ruleFor_of_case ht hc]
    cases hread : alts.mapM (AltSection.alternative l) with
    | error fault =>
      obtain ⟨a, -, ha⟩ := mapM_error hread
      obtain ⟨text, rfl, hk⟩ := AltSection.alternative_error hl ha
      exact .inr ⟨_, rfl, .fault (.unknownSpelling hk)⟩
    | ok as =>
      have has := (mapM_eq_ok_iff.mp hread).imp fun _ _ h => AltSection.alternative_eq_ok_iff.mp h
      cases hr : Rule.ofCase m as with
      | error e => exact .inr ⟨e, hr, .case hm ht hi hc has hr⟩
      | ok r => exact .inl ⟨r, hr, .case ht hi hc has hr⟩

theorem rule_cases (hl : l.Settled) :
    (∃ r, s.rule l = .ok r ∧ s.Describes l r) ∨ ∃ e, s.rule l = .error e ∧ s.Refuses l e := by
  unfold rule
  cases hm : s.matcher l with
  | error fault => exact .inr ⟨_, rfl, .fault (matcher_fault hm)⟩
  | ok m =>
    have hmatches := matcher_eq_ok_iff.mp hm
    dsimp only
    by_cases hcount : s.actionCount = 1
    · rw [if_pos hcount]
      rcases ruleFor_cases hl hmatches hcount with ⟨r, hr, hdoes⟩ | ⟨e, he, hrefuses⟩
      · exact .inl ⟨r, hr, m, hmatches, hdoes⟩
      · exact .inr ⟨e, he, hrefuses⟩
    · -- With no action or several, the section is refused before any of them is looked at.
      rw [if_neg hcount]
      exact .inr ⟨_, rfl, .fault (.actionCount hcount)⟩

theorem rule_eq_ok_iff (hl : l.Settled) : s.rule l = .ok r ↔ s.Describes l r := by
  constructor
  · intro h
    rcases s.rule_cases hl with ⟨r', hr', hrule⟩ | ⟨e, he, -⟩
    · cases hr'.symm.trans h
      exact hrule
    · cases he.symm.trans h
  · exact rule_of_describes

theorem refuses_of_error (hl : l.Settled) {e : Error} (h : s.rule l = .error e) :
    s.Refuses l e := by
  rcases s.rule_cases hl with ⟨r, hr, -⟩ | ⟨e', he', hrefuses⟩
  · cases hr.symm.trans h
  · cases he'.symm.trans h
    exact hrefuses

theorem Refuses.refusedAs {cause : Error} (h : s.Refuses l cause) (place : String) :
    s.RefusedAs l place (cause.inContext place) := by
  cases h with
  | fault hf =>
    rw [LexerFault.toError_inContext]
    exact .fault hf
  | @case m alts as e hm _ _ hc has he =>
    unfold Rule.ofCase at he
    split at he
    · rename_i pattern hmax
      cases he
      exact .unknownExtent hm hc hmax
    · rename_i max hmax
      split at he
      · rename_i f hf
        cases he
        -- The context of the case rule is there first, and stays.
        rw [LexerFault.toError_inContext]
        exact .unaccepted hm hc has hmax hf
      · cases he

theorem Describes.within (hl : l.Settled) (h : s.Describes l r) : r.Within l.tokens.length := by
  obtain ⟨m, -, hr⟩ := h
  intro kind hkind
  cases hr with
  | send _ _ _ hk =>
    rw [Action.kinds, List.mem_singleton] at hkind
    subst hkind
    exact hl.kindOf_lt hk
  | ignore => cases hkind
  | case _ _ _ has hr =>
    obtain ⟨c, rfl, -, hall, -, -⟩ := Rule.ofCase_eq_ok_iff.mp hr
    rw [Action.kinds, hall, List.mem_flatMap] at hkind
    obtain ⟨a, ha, hkind⟩ := hkind
    exact forall_of_forall₂ has (fun _ _ h => h.within hl) a ha kind hkind

end RuleSection

/-! ### Sections in order -/

/-- The sections describe the rules in order, each in the lexer that holds the rules before it; the
last lexer holds them all. -/
inductive DescribedInOrder : FrontEnd.Lexer → List RuleSection → List Rule → FrontEnd.Lexer → Prop
  | nil {l : FrontEnd.Lexer} : DescribedInOrder l [] [] l
  | cons {l m : FrontEnd.Lexer} {s : RuleSection} {ss : List RuleSection} {r : Rule}
    {rs : List Rule} (hs : s.Describes l r)
    (hss : DescribedInOrder (l.add (.rules [r])).2 ss rs m) :
    DescribedInOrder l (s :: ss) (r :: rs) m

theorem DescribedInOrder.grows {l m : FrontEnd.Lexer} {ss : List RuleSection} {rs : List Rule}
    (hl : l.Settled) (h : DescribedInOrder l ss rs m) : l.Grows rs m := by
  induction h with
  | nil => exact .refl hl.closed
  | cons hs _ ih =>
    obtain ⟨m', -, hadd, hgrows⟩ := hl.addRules_single (hs.within hl)
    have hrest := ih (hadd ▸ hl.grows hgrows)
    exact hgrows.trans (hadd ▸ hrest)

theorem DescribedInOrder.described {l m : FrontEnd.Lexer} {ss : List RuleSection} {rs : List Rule}
    (hl : l.Settled) (h : DescribedInOrder l ss rs m) :
    ∀ r ∈ rs, ∃ s ∈ ss, ∃ l' : FrontEnd.Lexer, l'.patterns = l.patterns ∧ s.Describes l' r := by
  induction h with
  | nil => exact List.forall_mem_nil _
  | @cons l m s ss r rs hs _ ih =>
    obtain ⟨m', -, hadd, hgrows⟩ := hl.addRules_single (hs.within hl)
    rw [hadd] at ih
    rw [List.forall_mem_cons]
    refine ⟨⟨s, List.mem_cons_self, l, rfl, hs⟩, fun r' hr' => ?_⟩
    obtain ⟨t, ht, l', hpatterns, hrule⟩ := ih (hl.grows hgrows) r' hr'
    exact ⟨t, List.mem_cons_of_mem s ht, l', hpatterns.trans hgrows.patterns, hrule⟩

theorem addRules_eq_ok_iff {l m : FrontEnd.Lexer} (hl : l.Settled) (language : String)
    (number : Nat) {ss : List RuleSection} :
    addRules language l number ss = .ok m ↔ ∃ rs, DescribedInOrder l ss rs m := by
  induction ss generalizing l number with
  | nil =>
    constructor
    · intro h
      cases h
      exact ⟨[], .nil⟩
    · rintro ⟨rs, h⟩
      cases h
      rfl
  | cons s ss ih =>
    rw [addRules]
    constructor
    · intro h
      cases hr : s.rule l with
      | error e =>
        rw [hr] at h
        cases h
      | ok r =>
        have hrule := (RuleSection.rule_eq_ok_iff hl).mp hr
        -- The rule is added, and the lexer with it is one that the next section can be read in.
        obtain ⟨l', hadd, hl', hgrows⟩ := hl.addRules_single (hrule.within hl)
        rw [hr] at h
        dsimp only at h
        rw [hadd] at h
        obtain ⟨rs, hrs⟩ := (ih (hl.grows hgrows) _).mp h
        exact ⟨r :: rs, .cons hrule (hl' ▸ hrs)⟩
    · rintro ⟨_, hall⟩
      cases hall with
      | @cons _ _ _ _ r rs hrule hss =>
        obtain ⟨l', hadd, hl', hgrows⟩ := hl.addRules_single (hrule.within hl)
        rw [RuleSection.rule_of_describes hrule]
        dsimp only
        rw [hadd]
        exact (ih (hl.grows hgrows) _).mpr ⟨rs, hl' ▸ hss⟩

theorem addRules_error {l : FrontEnd.Lexer} (hl : l.Settled) (language : String) (number : Nat)
    {ss : List RuleSection} {e : Error} (h : addRules language l number ss = .error e) :
    ∃ before s after rs m cause, ss = before ++ s :: after ∧ DescribedInOrder l before rs m ∧
      s.Refuses m cause ∧ (∀ r, ¬ s.Describes m r) ∧ e = cause.inContext
        ("rule #" ++ toString (number + before.length) ++ " of " ++ language) := by
  induction ss generalizing l number with
  | nil => cases h
  | cons s ss ih =>
    rw [addRules] at h
    cases hr : s.rule l with
    | error cause =>
      rw [hr] at h
      refine ⟨[], s, ss, [], l, cause, rfl, .nil, RuleSection.refuses_of_error hl hr, ?_, ?_⟩
      · intro r hrule
        cases hr.symm.trans (RuleSection.rule_of_describes hrule)
      · exact (Except.error.inj h).symm
    | ok r =>
      -- The section describes a rule, so the failure is one of the sections behind it.
      have hrule := (RuleSection.rule_eq_ok_iff hl).mp hr
      obtain ⟨l', hadd, hl', hgrows⟩ := hl.addRules_single (hrule.within hl)
      rw [hr] at h
      dsimp only at h
      rw [hadd] at h
      obtain ⟨before, t, after, rs, m, cause, rfl, hdescribed, hrefuses, hnone, he⟩ :=
        ih (hl.grows hgrows) _ h
      refine ⟨s :: before, t, after, r :: rs, m, cause, rfl, .cons hrule (hl' ▸ hdescribed),
        hrefuses, hnone, ?_⟩
      rw [he, List.length_cons, Nat.add_right_comm, Nat.add_assoc]

theorem bareLexer_settled {d : Description} {start : FrontEnd.Lexer}
    (h : d.bareLexer = .ok start) : start.Settled ∧ start.rules = start.ownRules ∧
      start.patterns = d.patterns ∧ start.config = d.lexerConfig := by
  unfold bareLexer at h
  split at h
  · cases h
  · rename_i l hl
    obtain ⟨hsettled, hrules, hpatterns⟩ := Lexer.ofDecls_settled hl
    obtain ⟨hconfig, -, -⟩ := Lexer.ofDecls_addAll hl []
    rcases l.addPatterns_cases d.patterns with hadd | ⟨before, p, after, -, -, hadd⟩
    · rw [hadd] at h
      cases h
      exact ⟨hsettled.withPatterns _, hrules, by rw [hpatterns, List.nil_append], hconfig⟩
    · rw [hadd] at h
      cases h

theorem DescribedInOrder.length_eq {l m : FrontEnd.Lexer} {ss : List RuleSection} {rs : List Rule}
    (h : DescribedInOrder l ss rs m) : rs.length = ss.length := by
  induction h with
  | nil => rfl
  | cons _ _ ih => rw [List.length_cons, List.length_cons, ih]

end Description

namespace Sample

/-- A language with a rule for a literal, one for a named pattern and a choice by the token before,
which refers to the literal. -/
def language : Description where
  name := "Tiny"
  lexer := {}
  tokens := [⟨"Word", .text, false, false⟩, ⟨"Mark", .symbol, false, false⟩]
  patterns := [⟨"blank", "[ ]"⟩]
  rules := [⟨some "do", none, none, none, some "Word", false, none⟩,
    ⟨none, none, none, some "Blank", none, true, none⟩,
    ⟨none, some "if", none, none, none, false, some [⟨some ["do"], "mark", 1⟩, ⟨none, "do", 2⟩]⟩]
  nodes := []
  properties := []
  source := "tiny.toml"

end Sample

end FrontEnd
