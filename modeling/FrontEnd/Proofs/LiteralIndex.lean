import FrontEnd.Proofs.References

namespace FrontEnd

def Rule.sends (text : String) (kind : Nat) : Rule := ⟨.literal text, .send kind⟩

theorem Rule.sends_inj {text text' : String} {kind kind' : Nat} :
    Rule.sends text kind = Rule.sends text' kind' ↔ text = text' ∧ kind = kind' := by
  simp [Rule.sends]

/-- The last of the rules that send a token for the literal sends one of this kind. -/
def LastSends (rules : List Rule) (text : String) (kind : Nat) : Prop :=
  ∃ before after, rules = before ++ Rule.sends text kind :: after ∧ ∀ k, Rule.sends text k ∉ after

/-- The rule at place `i` has its literal stand for `now`, where it stood for `before` so far. -/
structure Rebinds (rules : List Rule) (i : Nat) (text : String) (now before : Nat) : Prop where
  rule : rules[i]? = some (.sends text now)
  last : LastSends (rules.take i) text before
  differs : now ≠ before

section

variable {rules : List Rule} {r : Rule} {text : String} {kind : Nat}

theorem not_lastSends_nil : ¬ LastSends [] text kind := by
  rintro ⟨before, after, h, -⟩
  cases before <;> cases h

theorem not_rebinds_nil {i now before : Nat} : ¬ Rebinds [] i text now before := fun h => by
  cases h.rule

theorem lastSends_concat_iff : LastSends (rules ++ [r]) text kind ↔
    r = .sends text kind ∨ (∀ k, r ≠ .sends text k) ∧ LastSends rules text kind := by
  constructor
  · rintro ⟨before, after, h, hafter⟩
    rcases List.eq_nil_or_concat' after with rfl | ⟨init, last, rfl⟩
    · exact .inl (List.singleton_inj.mp (List.append_inj' h rfl).2)
    · rw [← List.cons_append, ← List.append_assoc] at h
      obtain ⟨hinit, hlast⟩ := List.append_inj' h rfl
      cases hlast
      refine .inr ⟨fun k hk => hafter k (by simp [hk]), before, init, hinit, ?_⟩
      exact fun k hk => hafter k (List.mem_append_left _ hk)
  · rintro (rfl | ⟨hr, before, after, rfl, hafter⟩)
    · exact ⟨rules, [], rfl, fun _ => List.not_mem_nil⟩
    · refine ⟨before, after ++ [r], by simp, fun k hk => ?_⟩
      rcases List.mem_append.mp hk with hk | hk
      · exact hafter k hk
      · exact hr k (List.mem_singleton.mp hk).symm

theorem exists_lastSends_iff :
    (∃ kind, LastSends rules text kind) ↔ ∃ kind, Rule.sends text kind ∈ rules := by
  induction rules using List.reverseRecOn with
  | nil => simp [not_lastSends_nil]
  | append_singleton rules r ih =>
    simp only [lastSends_concat_iff, List.mem_append, List.mem_singleton]
    by_cases hr : ∃ k, r = .sends text k
    · obtain ⟨k, rfl⟩ := hr
      exact ⟨fun _ => ⟨k, .inr rfl⟩, fun _ => ⟨k, .inl rfl⟩⟩
    · have hother : ∀ k, r ≠ .sends text k := not_exists.mp hr
      have hother' : ∀ k, Rule.sends text k ≠ r := fun k h => hother k h.symm
      simpa [hother, hother'] using ih

theorem rebinds_concat_iff {i now before : Nat} : Rebinds (rules ++ [r]) i text now before ↔
    Rebinds rules i text now before ∨
      i = rules.length ∧ r = .sends text now ∧ LastSends rules text before ∧ now ≠ before := by
  -- The place is one of the old rules, that of the new one, or behind all rules.
  rcases Nat.lt_trichotomy i rules.length with hi | rfl | hi
  · have htake : (rules ++ [r]).take i = rules.take i :=
      List.take_append_of_le_length (Nat.le_of_lt hi)
    rw [or_iff_left (fun h => absurd h.1 (Nat.ne_of_lt hi))]
    constructor <;> rintro ⟨hrule, hlast, hne⟩
    · exact ⟨by rwa [List.getElem?_append_left hi] at hrule, htake ▸ hlast, hne⟩
    · exact ⟨by rwa [List.getElem?_append_left hi], htake ▸ hlast, hne⟩
  · rw [or_iff_right (fun h => by simpa using h.rule)]
    constructor
    · rintro ⟨hrule, hlast, hne⟩
      exact ⟨rfl, by simpa using hrule, by simpa using hlast, hne⟩
    · rintro ⟨-, rfl, hlast, hne⟩
      exact ⟨by simp, by simpa using hlast, hne⟩
  · have hnone : (rules ++ [r])[i]? = none := List.getElem?_eq_none (by simpa using hi)
    constructor
    · intro h
      cases hnone.symm.trans h.rule
    · rintro (h | ⟨rfl, -⟩)
      · have hlt := (List.getElem?_eq_some_iff.mp h.rule).1
        exact absurd hlt (Nat.not_lt_of_lt hi)
      · exact absurd hi (Nat.lt_irrefl _)

end

def reboundFinding (text : String) (now before : Name) : Diagnostic :=
  .warning "E0111" ("literal \"" ++ text ++ "\" is now mapped to " ++ now.canonical ++
    " instead of " ++ before.canonical)

namespace Lexer

/-- The warning tells which tokens the rule at place `i` changes between. -/
def Warns (l : Lexer) (i : Nat) (w : Diagnostic) : Prop :=
  ∃ text now before t u, Rebinds l.rules i text now before ∧ l.tokens[now]? = some t ∧
    l.tokens[before]? = some u ∧ w = reboundFinding text t.name u.name

/-- The literals and the warnings of a lexer are those that its rules make. -/
structure Indexed (l : Lexer) : Prop where
  literal_iff : ∀ text kind, l.literal? text = some kind ↔ LastSends l.rules text kind
  /-- There is one warning for each place where a literal is rebound, in the order of the places. -/
  warned : ∃ places : List Nat, places.Pairwise (· < ·) ∧
    (∀ i, i ∈ places ↔ ∃ text now before, Rebinds l.rules i text now before) ∧
    List.Forall₂ l.Warns places l.warnings

theorem Indexed.literal?_eq_none_iff {l : Lexer} (hl : l.Indexed) {text : String} :
    l.literal? text = none ↔ ∀ kind, Rule.sends text kind ∉ l.rules := by
  rw [← not_exists, ← exists_lastSends_iff, Option.eq_none_iff_forall_ne_some, ← not_exists]
  exact not_congr (exists_congr fun kind => hl.literal_iff text kind)

section Step

variable {l m : Lexer} {r : Rule}

theorem literal?_cons (l : Lexer) (text text' : String) (kind : Nat) :
    { l with literals := (text, kind) :: l.literals }.literal? text' =
      if text' = text then some kind else l.literal? text' := by
  unfold literal?
  rw [List.lookup_cons]
  by_cases h : text' = text
  · simp [h]
  · simp [h, beq_eq_false_iff_ne.mpr h]

theorem known_eq_ok_iff {kind : Nat} {t : Token} :
    l.known kind = .ok t ↔ l.tokens[kind]? = some t := by
  unfold known token?
  cases l.tokens[kind]? <;> simp

/-- What adding a rule makes of a lexer. -/
inductive AddsRule (l : Lexer) : Rule → Lexer → Prop
  | other {r : Rule} (hr : ∀ text kind, r ≠ .sends text kind) :
    AddsRule l r { l with rules := l.rules ++ [r] }
  | bound {text : String} {kind : Nat}
    (hsame : ∀ before, l.literal? text = some before → before = kind) :
    AddsRule l (.sends text kind) { l with
      rules := l.rules ++ [.sends text kind], literals := (text, kind) :: l.literals }
  | rebound {text : String} {kind before : Nat} {t u : Token}
    (hbefore : l.literal? text = some before) (hne : kind ≠ before)
    (ht : l.tokens[kind]? = some t) (hu : l.tokens[before]? = some u) :
    AddsRule l (.sends text kind) { l with
      rules := l.rules ++ [.sends text kind], literals := (text, kind) :: l.literals,
      warnings := l.warnings ++ [reboundFinding text t.name u.name] }

theorem rebound_eq_ok {text : String} {now before : Nat} {w : Diagnostic}
    (h : l.rebound text now before = .ok w) : ∃ t u, l.tokens[now]? = some t ∧
      l.tokens[before]? = some u ∧ w = reboundFinding text t.name u.name := by
  unfold rebound at h
  cases ht : l.known now with
  | error fault =>
    rw [ht] at h
    cases h
  | ok t =>
    cases hu : l.known before with
    | error fault =>
      rw [ht, hu] at h
      cases h
    | ok u =>
      rw [ht, hu] at h
      cases h
      exact ⟨t, u, known_eq_ok_iff.mp ht, known_eq_ok_iff.mp hu, rfl⟩

theorem bindLiteral_adds {text : String} {kind : Nat} {l' : Lexer}
    (h : l.bindLiteral text kind = .ok l') :
    l.AddsRule (.sends text kind) { l' with rules := l'.rules ++ [.sends text kind] } := by
  unfold bindLiteral reboundWarning? at h
  cases hliteral : l.literal? text with
  | none =>
    simp only [hliteral] at h
    cases h
    simp only [Option.toList_none, List.append_nil]
    exact .bound (by simp [hliteral])
  | some before =>
    simp only [hliteral] at h
    split at h
    case isTrue hsame =>
      cases h
      simp only [Option.toList_none, List.append_nil]
      exact .bound (by simp [hliteral, hsame])
    case isFalse hne =>
      cases hw : l.rebound text kind before with
      | error fault =>
        rw [hw] at h
        cases h
      | ok w =>
        rw [hw] at h
        cases h
        obtain ⟨t, u, ht, hu, rfl⟩ := rebound_eq_ok hw
        exact .rebound hliteral (Ne.symm hne) ht hu

theorem addRule_adds (h : l.addRule r = .ok m) : l.AddsRule r m := by
  obtain ⟨matcher, action⟩ := r
  unfold addRule at h
  split at h
  case h_1 text kind hmatcher haction =>
    obtain rfl : matcher = .literal text := hmatcher
    obtain rfl : action = .send kind := haction
    cases hl : l.bindLiteral text kind with
    | error fault =>
      rw [hl] at h
      cases h
    | ok l' =>
      rw [hl] at h
      cases h
      exact bindLiteral_adds hl
  case h_2 hother =>
    cases h
    refine .other fun text kind heq => ?_
    cases heq
    exact hother text kind rfl rfl

namespace AddsRule

theorem tokens_eq (h : l.AddsRule r m) : m.tokens = l.tokens := by
  cases h <;> rfl

theorem rules_eq (h : l.AddsRule r m) : m.rules = l.rules ++ [r] := by
  cases h <;> rfl

theorem literal_iff (h : l.AddsRule r m) {text : String} {kind : Nat} :
    m.literal? text = some kind ↔
      r = .sends text kind ∨ (∀ k, r ≠ .sends text k) ∧ l.literal? text = some kind := by
  -- For a literal's rule, whatever has come before counts for the other texts only.
  have hbound : ∀ text' kind', { l with literals := (text', kind') :: l.literals }.literal? text =
      some kind ↔ Rule.sends text' kind' = .sends text kind ∨
        (∀ k, Rule.sends text' kind' ≠ .sends text k) ∧ l.literal? text = some kind := by
    intro text' kind'
    rw [literal?_cons]
    by_cases htext : text = text' <;> simp [Rule.sends_inj, htext, eq_comm]
  cases h with
  | other hr => simp [hr, literal?]
  | bound => exact hbound _ _
  | rebound => exact hbound _ _

theorem warnings_cases (h : l.AddsRule r m) (hl : l.Indexed) :
    (m.warnings = l.warnings ∧
        ∀ text now before, ¬ Rebinds m.rules l.rules.length text now before) ∨
      ∃ w, m.warnings = l.warnings ++ [w] ∧ m.Warns l.rules.length w := by
  have hnew : ∀ text now before, Rebinds m.rules l.rules.length text now before ↔
      r = .sends text now ∧ LastSends l.rules text before ∧ now ≠ before := by
    intro text now before
    rw [h.rules_eq, rebinds_concat_iff, or_iff_right, and_iff_right rfl]
    intro hold
    have hlt := (List.getElem?_eq_some_iff.mp hold.rule).1
    exact Nat.lt_irrefl _ hlt
  cases h with
  | other hr =>
    refine .inl ⟨rfl, fun text now before hrebinds => ?_⟩
    exact hr text now ((hnew _ _ _).mp hrebinds).1
  | @bound text kind hsame =>
    refine .inl ⟨rfl, fun text' now before hrebinds => ?_⟩
    obtain ⟨hr, hlast, hne⟩ := (hnew _ _ _).mp hrebinds
    obtain ⟨rfl, rfl⟩ := Rule.sends_inj.mp hr
    exact hne (hsame before ((hl.literal_iff _ _).mpr hlast)).symm
  | @rebound text kind before t u hbefore hne ht hu =>
    refine .inr ⟨_, rfl, text, kind, before, t, u, (hnew _ _ _).mpr ⟨rfl, ?_, hne⟩, ht, hu, rfl⟩
    exact (hl.literal_iff _ _).mp hbefore

theorem warns_of_warns (h : l.AddsRule r m) {i : Nat} {w : Diagnostic} (hw : l.Warns i w) :
    m.Warns i w := by
  obtain ⟨text, now, before, t, u, hrebinds, ht, hu, rfl⟩ := hw
  rw [← h.tokens_eq] at ht hu
  refine ⟨text, now, before, t, u, ?_, ht, hu, rfl⟩
  rw [h.rules_eq]
  exact rebinds_concat_iff.mpr (.inl hrebinds)

theorem indexed (h : l.AddsRule r m) (hl : l.Indexed) : m.Indexed := by
  constructor
  case literal_iff =>
    intro text kind
    rw [h.literal_iff, h.rules_eq, lastSends_concat_iff, hl.literal_iff]
  case warned =>
    obtain ⟨places, hsorted, hplaces, hwarns⟩ := hl.warned
    have hkept : List.Forall₂ m.Warns places l.warnings := hwarns.imp fun _ _ => h.warns_of_warns
    have hlt : ∀ i ∈ places, i < l.rules.length := by
      intro i hi
      obtain ⟨text, now, before, hrebinds⟩ := (hplaces i).mp hi
      exact (List.getElem?_eq_some_iff.mp hrebinds.rule).1
    -- The places that stay are joined by that of the new rule, if it rebinds its literal.
    have hold : ∀ i, (∃ text now before, Rebinds m.rules i text now before) ↔ i ∈ places ∨
        i = l.rules.length ∧ ∃ text now before, Rebinds m.rules l.rules.length text now before := by
      intro i
      rw [hplaces, h.rules_eq]
      constructor
      · rintro ⟨text, now, before, hrebinds⟩
        rcases rebinds_concat_iff.mp hrebinds with hbefore | ⟨rfl, -⟩
        · exact .inl ⟨text, now, before, hbefore⟩
        · exact .inr ⟨rfl, text, now, before, hrebinds⟩
      · rintro (⟨text, now, before, hrebinds⟩ | ⟨rfl, hnew⟩)
        · exact ⟨text, now, before, rebinds_concat_iff.mpr (.inl hrebinds)⟩
        · exact hnew
    rcases h.warnings_cases hl with ⟨hw, hnone⟩ | ⟨w, hw, hwarn⟩
    · refine ⟨places, hsorted, fun i => ?_, hw ▸ hkept⟩
      rw [hold, or_iff_left]
      rintro ⟨-, text, now, before, hrebinds⟩
      exact hnone text now before hrebinds
    · obtain ⟨text, now, before, t, u, hrebinds, -⟩ := id hwarn
      refine ⟨places ++ [l.rules.length], ?_, fun i => ?_, ?_⟩
      · rw [List.pairwise_append]
        exact ⟨hsorted, List.pairwise_singleton _ _, fun i hi j hj =>
          List.mem_singleton.mp hj ▸ hlt i hi⟩
      · rw [hold, List.mem_append, List.mem_singleton, and_iff_left ⟨text, now, before, hrebinds⟩]
      · rw [hw]
        exact List.rel_append hkept (.cons hwarn .nil)

end AddsRule

end Step

/-- The lexer `m` is one that `l` can become: its literals stand for what they stand for in `l`
unless a new warning tells that they have been rebound. -/
structure Follows (l m : Lexer) : Prop where
  tokens : m.tokens = l.tokens
  warned : ∃ new, m.warnings = l.warnings ++ new ∧ ∀ text kind, l.literal? text = some kind →
    m.literal? text = some kind ∨ ∃ now before, reboundFinding text now before ∈ new

namespace Follows

variable {l m n : Lexer} {r : Rule}

theorem refl (l : Lexer) : l.Follows l := ⟨rfl, [], by simp, fun _ _ h => .inl h⟩

theorem trans (h : l.Follows m) (k : m.Follows n) : l.Follows n := by
  obtain ⟨htokens, new, hnew, hkeeps⟩ := h
  obtain ⟨htokens', new', hnew', hkeeps'⟩ := k
  refine ⟨htokens'.trans htokens, new ++ new', by rw [hnew', hnew, List.append_assoc], ?_⟩
  intro text kind hliteral
  rcases hkeeps text kind hliteral with hsame | ⟨now, before, hw⟩
  · rcases hkeeps' text kind hsame with hsame | ⟨now, before, hw⟩
    · exact .inl hsame
    · exact .inr ⟨now, before, List.mem_append_right _ hw⟩
  · exact .inr ⟨now, before, List.mem_append_left _ hw⟩

theorem of_adds (h : l.AddsRule r m) : l.Follows m := by
  have hother : ∀ {text text' : String} {now kind : Nat}, text ≠ text' →
      l.literal? text = some kind →
      { l with literals := (text', now) :: l.literals }.literal? text = some kind := by
    intro text text' now kind hne hliteral
    rw [literal?_cons, if_neg hne, hliteral]
  -- A text follows unless it is the one that the new rule has stand for another token.
  cases h with
  | other => exact ⟨rfl, [], by simp, fun _ _ h => .inl h⟩
  | @bound text' now hsame =>
    refine ⟨rfl, [], by simp, fun text kind hliteral => .inl ?_⟩
    by_cases htext : text = text'
    · subst htext
      rw [hsame kind hliteral]
      exact (literal?_cons ..).trans (if_pos rfl)
    · exact hother htext hliteral
  | @rebound text' now before t u =>
    refine ⟨rfl, [reboundFinding text' t.name u.name], rfl, fun text kind hliteral => ?_⟩
    by_cases htext : text = text'
    · subst htext
      exact .inr ⟨t.name, u.name, List.mem_singleton_self _⟩
    · exact .inl (hother htext hliteral)

end Follows

section Runs

variable {l m : Lexer}

theorem appendRules_indexed {rs : List Rule} (h : l.appendRules rs = (.ok (), m)) (hl : l.Indexed) :
    m.Indexed ∧ l.Follows m := by
  induction rs generalizing l with
  | nil =>
    cases h
    exact ⟨hl, .refl _⟩
  | cons r rs ih =>
    unfold appendRules at h
    cases hr : l.addRule r with
    | error fault => simp [hr] at h
    | ok l' =>
      simp only [hr] at h
      have hadds := addRule_adds hr
      obtain ⟨hindexed, hfollows⟩ := ih h (hadds.indexed hl)
      exact ⟨hindexed, (Follows.of_adds hadds).trans hfollows⟩

theorem Indexed.withPatterns (hl : l.Indexed) (ps : List NamedPattern) :
    Indexed { l with patterns := ps } :=
  ⟨hl.literal_iff, hl.warned⟩

theorem addAll_follows (hclosed : l.Closed) (hl : l.Indexed) (calls : List Addition) :
    (l.addAll calls).Indexed ∧ l.Follows (l.addAll calls) := by
  obtain ⟨hrun, -⟩ := hclosed.addAll_ok calls
  obtain ⟨hindexed, hfollows⟩ := appendRules_indexed hrun hl
  exact ⟨hindexed.withPatterns (l.addAll calls).patterns, hfollows.tokens, hfollows.warned⟩

theorem start_indexed {config : LexerConfig} {decls : List TokenDecl} {start : Lexer}
    (h : ofDecls config decls = .ok start) : start.Indexed := by
  unfold ofDecls at h
  cases hregister : register [] (ownDecls config.trackIndent ++ decls) with
  | error fault =>
    rw [hregister] at h
    cases h
  | ok tokens =>
    have hempty : Closed { config, tokens } := ⟨by simp, by simp⟩
    have hindexed : Indexed { config, tokens } :=
      ⟨fun text kind => by simp [literal?, not_lastSends_nil],
        [], .nil, fun i => by simp [not_rebinds_nil], .nil⟩
    simp only [hregister, addRules] at h
    rcases hempty.extend_cases (ownRules { config, tokens }) with ⟨m, hm, happend, -⟩ | ⟨e, he⟩
    · rw [hm] at h
      cases h
      exact (appendRules_indexed happend hindexed).1
    · rw [he] at h
      cases h

theorem ofDecls_indexed {config : LexerConfig} {decls : List TokenDecl} {start : Lexer}
    (h : ofDecls config decls = .ok start) (calls : List Addition) :
    (start.addAll calls).Indexed := by
  obtain ⟨_, -, hstart⟩ := ofDecls_grows h
  exact (addAll_follows hstart.closed (start_indexed h) calls).1

theorem addAll_append (l : Lexer) (calls more : List Addition) :
    l.addAll (calls ++ more) = (l.addAll calls).addAll more := List.foldl_append

end Runs

/-- Whatever calls are made on a new lexer, its rules tell its literals and warnings. A text that has
referred to a token refers to it until a new warning tells that it has been rebound. -/
theorem addAll_indexed {config : LexerConfig} {decls : List TokenDecl} {start : Lexer}
    (h : ofDecls config decls = .ok start) (calls : List Addition) :
    (start.addAll calls).Indexed ∧
    (∀ text, (start.addAll calls).literal? text = none ↔
      ∀ kind, Rule.sends text kind ∉ (start.addAll calls).rules) ∧
    ∀ (more : List Addition) text kind, (start.addAll calls).kindOf (.text text) = .ok kind →
      ((start.addAll calls).addAll more).kindOf (.text text) ≠ .ok kind →
      ∃ new now before, ((start.addAll calls).addAll more).warnings =
        (start.addAll calls).warnings ++ new ∧ reboundFinding text now before ∈ new := by
  have hl := ofDecls_numbered h calls
  have hnames := ofDecls_distinctNames h calls
  obtain ⟨-, -, hclosed⟩ := ofDecls_addAll h calls
  have hindexed := ofDecls_indexed h calls
  refine ⟨hindexed, fun text => hindexed.literal?_eq_none_iff, ?_⟩
  intro more text kind hbefore hafter
  obtain ⟨-, hfollows⟩ := addAll_follows hclosed hindexed more
  obtain ⟨new, hnew, hkeeps⟩ := hfollows.warned
  have hl' := ofDecls_numbered h (calls ++ more)
  have hnames' := ofDecls_distinctNames h (calls ++ more)
  obtain ⟨-, -, hclosed'⟩ := ofDecls_addAll h (calls ++ more)
  rw [addAll_append] at hl' hnames' hclosed'
  rw [ne_eq, kindOf_text_iff hl' hnames' hclosed', hfollows.tokens] at hafter
  -- A token that answers stays in the catalog, so the text is one of a literal.
  rcases (kindOf_text_iff hl hnames hclosed).mp hbefore with hfirst | ⟨hnone, hliteral⟩
  · exact absurd (.inl hfirst) hafter
  rcases hkeeps text kind hliteral with hsame | ⟨now, before, hw⟩
  · exact absurd (.inr ⟨hnone, hsame⟩) hafter
  · exact ⟨new, now, before, hnew, hw⟩

end Lexer

namespace Sample

theorem additions_indexed : ∃ start, Lexer.ofDecls layoutConfig wordDecls = .ok start ∧
    (start.addAll (additions.take 1)).Indexed ∧
    (∀ text, (start.addAll (additions.take 1)).literal? text = none ↔
      ∀ kind, Rule.sends text kind ∉ (start.addAll (additions.take 1)).rules) ∧
    (start.addAll (additions.take 1)).kindOf (.text "do") = .ok 5 ∧
    ((start.addAll (additions.take 1)).addAll (additions.drop 1)).kindOf (.text "do") = .ok 6 ∧
    ∃ new now before, ((start.addAll (additions.take 1)).addAll (additions.drop 1)).warnings =
      (start.addAll (additions.take 1)).warnings ++ new ∧ reboundFinding "do" now before ∈ new := by
  obtain ⟨start, hok, hbefore, hafter⟩ : ∃ start,
      Lexer.ofDecls layoutConfig wordDecls = .ok start ∧
      (start.addAll (additions.take 1)).kindOf (.text "do") = .ok 5 ∧
      ((start.addAll (additions.take 1)).addAll (additions.drop 1)).kindOf (.text "do") =
        .ok 6 := by
    refine ⟨_, rfl, ?_, ?_⟩ <;> cbv
  obtain ⟨hindexed, hnone, hwarned⟩ := Lexer.addAll_indexed hok (additions.take 1)
  refine ⟨start, hok, hindexed, hnone, hbefore, hafter, ?_⟩
  exact hwarned (additions.drop 1) "do" 5 hbefore (by rw [hafter]; simp)

end Sample

end FrontEnd
