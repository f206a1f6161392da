import FrontEnd.Description.Lexer
import FrontEnd.Proofs.CaseRules
import FrontEnd.Proofs.Spellings

/-!
What texts refer to in a lexer under definition. Tokens and patterns are kept apart by their exact
names, but looked up in any letter case, and the first that answers is taken. So the spelling that a
token is declared with refers to it exactly if that is of one style and no earlier token answers to
it, and the name of a pattern refers to the first pattern whose name differs from it in letter case
only.
-/
namespace FrontEnd

/-! ### First items -/

/-- The item `x` at place `i` is the first that passes a test. -/
structure IsFirst {α : Type} (p : α → Bool) (items : List α) (i : Nat) (x : α) : Prop where
  at_place : items[i]? = some x
  passes : p x
  none_before : ∀ y ∈ items.take i, ¬ p y

section First

variable {α : Type} {p : α → Bool} {items : List α} {i j : Nat} {x y : α}

theorem IsFirst.mem (h : IsFirst p items i x) : x ∈ items := List.mem_of_getElem? h.at_place

theorem IsFirst.le_of_passes (h : IsFirst p items i x) (hy : items[j]? = some y) (hp : p y) :
    i ≤ j := by
  by_contra hlt
  have hbefore : (items.take i)[j]? = some y :=
    (List.getElem?_take_of_lt (Nat.lt_of_not_le hlt)).trans hy
  exact h.none_before y (List.mem_of_getElem? hbefore) hp

theorem IsFirst.unique (h : IsFirst p items i x) (k : IsFirst p items j y) : i = j ∧ x = y := by
  have hij : i = j := Nat.le_antisymm (h.le_of_passes k.at_place k.passes)
    (k.le_of_passes h.at_place h.passes)
  subst hij
  exact ⟨rfl, Option.some.inj (h.at_place.symm.trans k.at_place)⟩

theorem find?_eq_some_iff_isFirst : items.find? p = some x ↔ ∃ i, IsFirst p items i x := by
  rw [List.find?_eq_some_iff_getElem]
  constructor
  · rintro ⟨hp, i, hi, rfl, hbefore⟩
    refine ⟨i, List.getElem?_eq_getElem hi, hp, ?_⟩
    intro y hy
    obtain ⟨j, hj, rfl⟩ := List.mem_take_iff_getElem.mp hy
    simpa using hbefore j (by omega)
  · rintro ⟨i, hplace, hp, hbefore⟩
    obtain ⟨hi, rfl⟩ := List.getElem?_eq_some_iff.mp hplace
    refine ⟨hp, i, hi, rfl, fun j hj => ?_⟩
    have hmem : items[j] ∈ items.take i := List.mem_take_iff_getElem.mpr ⟨j, by omega, rfl⟩
    simpa using hbefore _ hmem

theorem exists_isFirst (hx : items[i]? = some x) (hp : p x) :
    ∃ j y, j ≤ i ∧ IsFirst p items j y := by
  cases hfind : items.find? p with
  | none => exact absurd hp (List.find?_eq_none.mp hfind x (List.mem_of_getElem? hx))
  | some y =>
    obtain ⟨j, hfirst⟩ := find?_eq_some_iff_isFirst.mp hfind
    exact ⟨j, y, hfirst.le_of_passes hx hp, hfirst⟩

end First

namespace Lexer

/-! ### Tokens -/

section Tokens

variable {l : Lexer} {text : String} {kind : Nat}

theorem known_mem {t : Token} (h : l.known kind = .ok t) : t ∈ l.tokens := by
  unfold known at h
  split at h
  · rename_i u hu
    cases h
    exact List.mem_of_getElem? hu
  · cases h

theorem resolve_mem {r : TokenRef} {t : Token} (h : l.resolve r = .ok t) : t ∈ l.tokens := by
  unfold resolve at h
  split at h
  case h_1 | h_2 => exact known_mem h
  case h_3 =>
    split at h
    · rename_i u hu
      cases h
      exact List.mem_of_find?_eq_some hu
    · cases h
  case h_4 =>
    split at h
    · rename_i u hu
      cases h
      exact List.mem_of_find?_eq_some hu
    · split at h
      · exact known_mem h
      · cases h

/-- The tokens have names of their own, by which they are told apart. -/
def DistinctNames (l : Lexer) : Prop := (l.tokens.map (·.name)).Nodup

theorem DistinctNames.find?_name (hnames : l.DistinctNames) {t : Token} (ht : t ∈ l.tokens) :
    l.tokens.find? (·.name == t.name) = some t := by
  cases hfind : l.tokens.find? (·.name == t.name) with
  | none => exact absurd (beq_self_eq_true t.name) (List.find?_eq_none.mp hfind t ht)
  | some u =>
    have hname : u.name = t.name := by simpa using List.find?_some hfind
    rw [List.inj_on_of_nodup_map hnames (List.mem_of_find?_eq_some hfind) ht hname]

theorem DistinctNames.kindOf_eq (hnames : l.DistinctNames) (r : TokenRef) :
    l.kindOf r = (l.resolve r).map (·.kind) := by
  unfold kindOf tokenName
  cases hr : l.resolve r with
  | error fault => rfl
  | ok t =>
    simp only [Except.map, bind, Except.bind, hnames.find?_name (resolve_mem hr)]
    rfl

theorem kindOf_of_isFirst (hl : l.Numbered) (hnames : l.DistinctNames) {t : Token}
    (h : IsFirst (·.name.matchesLoosely text) l.tokens kind t) :
    l.kindOf (.text text) = .ok kind := by
  have hfind : l.tokens.find? (·.name.matchesLoosely text) = some t :=
    find?_eq_some_iff_isFirst.mpr ⟨kind, h⟩
  obtain ⟨hkind, rfl⟩ := List.getElem?_eq_some_iff.mp h.at_place
  rw [hnames.kindOf_eq, resolve, hfind]
  exact congrArg Except.ok (hl kind hkind)

theorem kindOf_of_unanswered (hl : l.Numbered) (hnames : l.DistinctNames) (hclosed : l.Closed)
    (h : ∀ t ∈ l.tokens, ¬ t.name.matchesLoosely text) :
    l.kindOf (.text text) =
      match l.literal? text with
      | some kind => .ok kind
      | none => .error (.unknownSpelling text) := by
  have hfind : l.tokens.find? (·.name.matchesLoosely text) = none := List.find?_eq_none.mpr h
  rw [hnames.kindOf_eq, resolve, hfind]
  cases hliteral : l.literal? text with
  | none => rfl
  | some kind =>
    have hkind := hclosed.literal_lt hliteral
    simp only [known_of_lt hkind]
    exact congrArg Except.ok (hl kind hkind)

theorem kindOf_text_iff (hl : l.Numbered) (hnames : l.DistinctNames) (hclosed : l.Closed) :
    l.kindOf (.text text) = .ok kind ↔
      (∃ t, IsFirst (·.name.matchesLoosely text) l.tokens kind t) ∨
      ((∀ t ∈ l.tokens, ¬ t.name.matchesLoosely text) ∧ l.literal? text = some kind) := by
  cases hfind : l.tokens.find? (·.name.matchesLoosely text) with
  | none =>
    have hnone : ∀ t ∈ l.tokens, ¬ t.name.matchesLoosely text := List.find?_eq_none.mp hfind
    have hfirst : ¬ ∃ t, IsFirst (·.name.matchesLoosely text) l.tokens kind t := by
      rintro ⟨t, ht⟩
      exact hnone t ht.mem ht.passes
    rw [kindOf_of_unanswered hl hnames hclosed hnone, or_iff_right hfirst, and_iff_right hnone]
    cases l.literal? text <;> simp
  | some u =>
    -- A token that answers hides the literal.
    obtain ⟨j, hfirst⟩ := find?_eq_some_iff_isFirst.mp hfind
    have hliteral : ¬ ((∀ t ∈ l.tokens, ¬ t.name.matchesLoosely text) ∧
        l.literal? text = some kind) := fun h => h.1 u hfirst.mem hfirst.passes
    rw [kindOf_of_isFirst hl hnames hfirst, Except.ok.injEq, or_iff_left hliteral]
    constructor
    · rintro rfl
      exact ⟨u, hfirst⟩
    · rintro ⟨t, ht⟩
      exact (hfirst.unique ht).1

theorem kindOf_text_refused_iff (hl : l.Numbered) (hnames : l.DistinctNames)
    (hclosed : l.Closed) :
    l.kindOf (.text text) = .error (.unknownSpelling text) ↔
      (∀ t ∈ l.tokens, ¬ t.name.matchesLoosely text) ∧ l.literal? text = none := by
  cases hfind : l.tokens.find? (·.name.matchesLoosely text) with
  | none =>
    have hnone : ∀ t ∈ l.tokens, ¬ t.name.matchesLoosely text := List.find?_eq_none.mp hfind
    rw [kindOf_of_unanswered hl hnames hclosed hnone, and_iff_right hnone]
    cases l.literal? text <;> simp
  | some u =>
    obtain ⟨j, hfirst⟩ := find?_eq_some_iff_isFirst.mp hfind
    simp only [kindOf_of_isFirst hl hnames hfirst, reduceCtorEq, false_iff]
    exact fun h => h.1 u hfirst.mem hfirst.passes

end Tokens

/-- What the text `spelling` refers to, beside the declaration `d` that has been made with it and
the kind that is registered for `d`. -/
structure Referred (l : Lexer) (d : TokenDecl) (kind : Nat) (spelling : String) : Prop where
  registered : l.tokens[kind]? = some { d with kind }
  /-- The text refers to the token if that answers to it as the first, or if none does and the text
  is a literal that stands for the token. -/
  referred_iff : l.kindOf (.text spelling) = .ok kind ↔
    (Text.IsUniform spelling ∧ ∀ t ∈ l.tokens.take kind, ¬ t.name.matchesLoosely spelling) ∨
    ((∀ t ∈ l.tokens, ¬ t.name.matchesLoosely spelling) ∧ l.literal? spelling = some kind)
  /-- A text of one style refers to this token or to an earlier one that answers to it. -/
  of_uniform : Text.IsUniform spelling → ∃ j t, j ≤ kind ∧ l.kindOf (.text spelling) = .ok j ∧
    IsFirst (·.name.matchesLoosely spelling) l.tokens j t
  refused_iff : l.kindOf (.text spelling) = .error (.unknownSpelling spelling) ↔
    (∀ t ∈ l.tokens, ¬ t.name.matchesLoosely spelling) ∧ l.literal? spelling = none

theorem ofDecls_distinctNames {config : LexerConfig} {decls : List TokenDecl} {start : Lexer}
    (h : ofDecls config decls = .ok start) (calls : List Addition) :
    (start.addAll calls).DistinctNames := by
  obtain ⟨catalog, hregister, hstart⟩ := ofDecls_grows h
  have htokens : (start.addAll calls).tokens = catalog :=
    (hstart.closed.addAll_grows calls).tokens.trans hstart.tokens
  unfold DistinctNames
  rw [htokens]
  exact (register_bounded hregister List.nodup_nil (Nat.zero_le _)).1

theorem ofDecls_registered {config : LexerConfig} {decls : List TokenDecl} {start : Lexer}
    (h : ofDecls config decls = .ok start) (calls : List Addition) {i : Nat} {d : TokenDecl}
    (hd : decls[i]? = some d) :
    (start.addAll calls).tokens[(ownDecls config.trackIndent).length + i]? =
      some { d with kind := (ownDecls config.trackIndent).length + i } := by
  obtain ⟨-, htokens, -⟩ := ofDecls_addAll h calls
  rw [htokens, numbered, List.getElem?_mapIdx, List.getElem?_append_right (Nat.le_add_right _ _),
    Nat.add_sub_cancel_left, hd]
  simp

/-- Whatever calls are made on a new lexer, the text that a token has been declared with refers to
it unless it mixes styles or an earlier token answers to it. -/
theorem addAll_referred {config : LexerConfig} {decls : List TokenDecl} {start : Lexer}
    (h : ofDecls config decls = .ok start) (calls : List Addition) {i : Nat} {d : TokenDecl}
    {spelling : String} (hd : decls[i]? = some d) (hname : d.name = .ofCamel spelling) :
    Referred (start.addAll calls) d ((ownDecls config.trackIndent).length + i) spelling := by
  obtain ⟨-, -, hclosed⟩ := ofDecls_addAll h calls
  have hl := ofDecls_numbered h calls
  have hnames := ofDecls_distinctNames h calls
  have hregistered := ofDecls_registered h calls hd
  have hanswers : d.name.matchesLoosely spelling ↔ Text.IsUniform spelling := by
    rw [hname]
    exact Name.ofCamel_matchesLoosely_iff spelling
  constructor
  case registered => exact hregistered
  case referred_iff =>
    rw [kindOf_text_iff hl hnames hclosed]
    refine or_congr_left ?_
    constructor
    · rintro ⟨t, ht⟩
      -- The first token that answers has the declared kind, so it is the declared one.
      cases ht.at_place.symm.trans hregistered
      exact ⟨hanswers.mp ht.passes, ht.none_before⟩
    · rintro ⟨huniform, hbefore⟩
      exact ⟨_, hregistered, hanswers.mpr huniform, hbefore⟩
  case of_uniform =>
    intro huniform
    obtain ⟨j, t, hj, hfirst⟩ := exists_isFirst (p := (·.name.matchesLoosely spelling)) hregistered
      (hanswers.mpr huniform)
    exact ⟨j, t, hj, kindOf_of_isFirst hl hnames hfirst, hfirst⟩
  case refused_iff => exact kindOf_text_refused_iff hl hnames hclosed

end Lexer

namespace Sample

theorem additions_referred :
    ∃ start, Lexer.ofDecls layoutConfig wordDecls = .ok start ∧ wordDecls[1]? = some wordDecls[1] ∧
      Lexer.Referred (start.addAll additions) wordDecls[1] 6 "Word" := by
  obtain ⟨start, hok⟩ : ∃ start, Lexer.ofDecls layoutConfig wordDecls = .ok start := ⟨_, rfl⟩
  exact ⟨start, hok, rfl, Lexer.addAll_referred (i := 1) hok additions rfl rfl⟩

def mixedDecls : List TokenDecl := [{ name := .ofCamel "Open_WordMark" }]

def twinDecls : List TokenDecl := [{ name := .ofCamel "Word" }, { name := .ofCamel "word" }]

end Sample

/-- Not every text that a token has been declared with refers to it. One that mixes styles is
refused, and one that an earlier token answers to refers to that. -/
theorem Lexer.declared_spelling_lost :
    (∃ start, ofDecls Sample.plainConfig Sample.mixedDecls = .ok start ∧
      start.tokens[2]?.map (·.name) = some (.ofCamel "Open_WordMark") ∧
      start.kindOf (.text "Open_WordMark") = .error (.unknownSpelling "Open_WordMark")) ∧
    ∃ start, ofDecls Sample.plainConfig Sample.twinDecls = .ok start ∧
      start.tokens[3]?.map (·.name) = some (.ofCamel "word") ∧
      start.kindOf (.text "word") = .ok 2 := by
  constructor
  case left =>
    obtain ⟨start, hok, hliterals⟩ : ∃ start,
        ofDecls Sample.plainConfig Sample.mixedDecls = .ok start ∧ start.literals = [] :=
      ⟨_, rfl, rfl⟩
    obtain ⟨-, htokens, hclosed⟩ := ofDecls_addAll hok []
    rw [addAll_nil] at htokens hclosed
    refine ⟨start, hok, congrArg _ (ofDecls_registered hok [] (i := 0) rfl), ?_⟩
    refine (kindOf_text_refused_iff (ofDecls_numbered hok [])
      (ofDecls_distinctNames hok []) hclosed).mpr ⟨?_, ?_⟩
    · rw [addAll_nil, htokens]
      have hnone : (numbered 0 (ownDecls false ++ Sample.mixedDecls)).all
          (!·.name.matchesLoosely "Open_WordMark") := by cbv
      exact fun t ht => by simpa using List.all_eq_true.mp hnone t ht
    · rw [addAll_nil, literal?, hliterals]
      rfl
  case right =>
    obtain ⟨start, hok⟩ : ∃ start, ofDecls Sample.plainConfig Sample.twinDecls = .ok start :=
      ⟨_, rfl⟩
    obtain ⟨-, htokens, -⟩ := ofDecls_addAll hok []
    rw [addAll_nil] at htokens
    have hfirst : IsFirst (·.name.matchesLoosely "word") start.tokens 2
        { name := .ofCamel "Word", kind := 2 } := by
      constructor
      case at_place => exact ofDecls_registered hok [] (i := 0) rfl
      case passes => cbv
      case none_before =>
        have hnone : ((numbered 0 (ownDecls false ++ Sample.twinDecls)).take 2).all
            (!·.name.matchesLoosely "word") := by cbv
        rw [htokens]
        exact fun t ht => by simpa using List.all_eq_true.mp hnone t ht
    exact ⟨start, hok, congrArg _ (ofDecls_registered hok [] (i := 1) rfl),
      kindOf_of_isFirst (ofDecls_numbered hok []) (ofDecls_distinctNames hok []) hfirst⟩

/-! ### Patterns -/

namespace Description.RuleSection

variable {l : FrontEnd.Lexer} {s : RuleSection} {m : Matcher} {r : Rule}

theorem pattern?_of_matcher {name : String} (hname : s.named = some name)
    (h : s.matcher l = .ok m) : l.pattern? name = some m := by
  rw [matcher, namedMatcher, hname] at h
  cases hfound : l.pattern? name with
  | none =>
    simp only [hfound] at h
    cases h
  | some found =>
    simp only [hfound, bind, Except.bind] at h
    split at h
    case h_2 only hgiven =>
      cases h
      have hmem : found ∈ [m] := hgiven ▸ List.reduceOption_mem_iff.mpr (by simp)
      rw [List.mem_singleton.mp hmem]
    all_goals cases h

theorem ruleFor_ok (h : s.ruleFor l m = .ok r) :
    r.matcher = m ∧ ∀ c, r.action = .case c → m.maxLength = .ok c.maxLength := by
  unfold ruleFor at h
  split at h
  case h_1 token _ =>
    cases hkind : l.kindOf (.text token) with
    | error fault =>
      rw [hkind] at h
      cases h
    | ok kind =>
      rw [hkind] at h
      cases h
      exact ⟨rfl, fun c hc => by cases hc⟩
  case h_2 =>
    split at h
    · cases h
    · obtain ⟨c, rfl, hmax, -⟩ := Rule.ofCase_eq_ok_iff.mp h
      refine ⟨rfl, fun c' hc => ?_⟩
      cases hc
      exact hmax
  case h_3 =>
    cases h
    exact ⟨rfl, fun c hc => by cases hc⟩

end Description.RuleSection

/-- The pattern is one that `name` may stand for: their names differ in letter case at most. -/
def NamedPattern.answersTo (p : NamedPattern) (name : String) : Bool :=
  Text.lower p.name == Text.lower name

theorem NamedPattern.answersTo_iff {p : NamedPattern} {name : String} :
    p.answersTo name ↔ Text.lower p.name = Text.lower name := beq_iff_eq

namespace Lexer

section Patterns

variable {l : Lexer} {name : String} {q : NamedPattern} {m : Matcher}

theorem pattern?_eq_some_iff : l.pattern? name = some m ↔
    ∃ j q, IsFirst (·.answersTo name) l.patterns j q ∧ m = .named q.name q.pattern := by
  rw [pattern?, Option.map_eq_some_iff]
  constructor
  · rintro ⟨q, hfind, rfl⟩
    obtain ⟨j, hfirst⟩ := find?_eq_some_iff_isFirst.mp hfind
    exact ⟨j, q, hfirst, rfl⟩
  · rintro ⟨j, q, hfirst, rfl⟩
    exact ⟨q, find?_eq_some_iff_isFirst.mpr ⟨j, hfirst⟩, rfl⟩

/-- The name stands for the pattern `q`. -/
structure Means (l : Lexer) (name : String) (q : NamedPattern) : Prop where
  found : l.pattern? name = some (.named q.name q.pattern)
  /-- A rule of a description that gives the name is made for `q`, and a case rule takes its length
  from the text of `q`. -/
  in_rules : ∀ (s : Description.RuleSection) r, s.named = some name → s.rule l = .ok r →
    r.matcher = .named q.name q.pattern ∧
      ∀ c, r.action = .case c → Matcher.fixedWidth q.pattern = .ok c.maxLength

theorem means_iff_found : l.Means name q ↔ l.pattern? name = some (.named q.name q.pattern) := by
  refine ⟨Means.found, fun hfound => ⟨hfound, ?_⟩⟩
  intro s r hname hr
  unfold Description.RuleSection.rule at hr
  split at hr
  · cases hr
  case h_2 m hmatcher =>
    cases (Description.RuleSection.pattern?_of_matcher hname hmatcher).symm.trans hfound
    split at hr
    · exact Description.RuleSection.ruleFor_ok hr
    · cases hr

theorem means_iff_isFirst :
    l.Means name q ↔ ∃ j, IsFirst (·.answersTo name) l.patterns j q := by
  rw [means_iff_found, pattern?_eq_some_iff]
  constructor
  · rintro ⟨j, q', hfirst, heq⟩
    -- A pattern has nothing but its name and its text.
    have hq : q = q' := by
      cases q
      cases q'
      rw [NamedPattern.mk.injEq]
      exact Matcher.named.inj heq
    exact ⟨j, hq ▸ hfirst⟩
  · rintro ⟨j, hfirst⟩
    exact ⟨j, q, hfirst, rfl⟩

end Patterns

/-- Whatever calls are made on a new lexer, the name of a pattern that it has registered stands for
the first pattern that answers to it; that is the pattern itself unless an earlier one has the same
name in another letter case. -/
theorem addAll_means {config : LexerConfig} {decls : List TokenDecl} {start : Lexer}
    (h : ofDecls config decls = .ok start) (calls : List Addition) {i : Nat} {p : NamedPattern}
    (hp : (start.addAll calls).patterns[i]? = some p) :
    ((start.addAll calls).Means p.name p ↔
      ∀ q ∈ (start.addAll calls).patterns.take i, Text.lower q.name ≠ Text.lower p.name) ∧
    ∃ j q, j ≤ i ∧ IsFirst (·.answersTo p.name) (start.addAll calls).patterns j q ∧
      (start.addAll calls).Means p.name q := by
  have hself : p.answersTo p.name := NamedPattern.answersTo_iff.mpr rfl
  constructor
  case left =>
    simp only [means_iff_isFirst, ne_eq, ← NamedPattern.answersTo_iff]
    constructor
    · rintro ⟨k, hk⟩
      -- The names are distinct, so `p` stands at one place only.
      obtain ⟨_, -, hstart⟩ := ofDecls_grows h
      have hnodup : (start.addAll calls).patterns.Nodup :=
        (hstart.closed.addAll_patterns calls (by simp [hstart.patterns])).1.of_map
      obtain ⟨hi, -⟩ := List.getElem?_eq_some_iff.mp hp
      have hki : i = k := (List.getElem?_inj hi hnodup).mp (hp.trans hk.at_place.symm)
      exact hki ▸ hk.none_before
    · intro hbefore
      exact ⟨i, hp, hself, hbefore⟩
  case right =>
    obtain ⟨j, q, hj, hfirst⟩ := exists_isFirst (p := (·.answersTo p.name)) hp hself
    exact ⟨j, q, hj, hfirst, means_iff_isFirst.mpr ⟨j, hfirst⟩⟩

end Lexer

namespace Sample

def markPatterns : List NamedPattern := [⟨"mark", "x"⟩, ⟨"Mark", "xyz"⟩]

theorem marks_mean : ∃ start, Lexer.ofDecls plainConfig [] = .ok start ∧
    (start.addAll [.patterns markPatterns]).patterns[1]? = some ⟨"Mark", "xyz"⟩ ∧
    ((start.addAll [.patterns markPatterns]).Means "Mark" ⟨"Mark", "xyz"⟩ ↔
      ∀ q ∈ (start.addAll [.patterns markPatterns]).patterns.take 1,
        Text.lower q.name ≠ Text.lower "Mark") ∧
    ∃ j q, j ≤ 1 ∧
      IsFirst (·.answersTo "Mark") (start.addAll [.patterns markPatterns]).patterns j q ∧
      (start.addAll [.patterns markPatterns]).Means "Mark" q := by
  obtain ⟨start, hok, hp⟩ : ∃ start, Lexer.ofDecls plainConfig [] = .ok start ∧
      (start.addAll [.patterns markPatterns]).patterns[1]? = some ⟨"Mark", "xyz"⟩ := ⟨_, rfl, rfl⟩
  exact ⟨start, hok, hp, Lexer.addAll_means hok [.patterns markPatterns] hp⟩

def markRule : Description.RuleSection where
  literal := none
  pattern := none
  noCase := none
  named := some "Mark"
  token := none
  ignore := false
  case := some [⟨none, "Termination", 1⟩]

end Sample

/-- A registered pattern is not always found back. One whose name differs from an earlier one in
letter case only is taken for that, by a rule that gives its name as well. -/
theorem Lexer.pattern_mistaken : ∃ start, ofDecls Sample.plainConfig [] = .ok start ∧
    (start.add (.patterns Sample.markPatterns)).1 = .ok () ∧
    (start.addAll [.patterns Sample.markPatterns]).patterns[1]? = some ⟨"Mark", "xyz"⟩ ∧
    (start.addAll [.patterns Sample.markPatterns]).pattern? "Mark" = some (.named "mark" "x") ∧
    Sample.markRule.rule (start.addAll [.patterns Sample.markPatterns]) =
      .ok ⟨.named "mark" "x", .case ⟨1, [], ⟨none, 0, 1⟩⟩⟩ := by
  obtain ⟨start, hok, haccepted, hpatterns⟩ : ∃ start, ofDecls Sample.plainConfig [] = .ok start ∧
      (start.add (.patterns Sample.markPatterns)).1 = .ok () ∧
      (start.addAll [.patterns Sample.markPatterns]).patterns = Sample.markPatterns :=
    ⟨_, rfl, rfl, rfl⟩
  have hfound : (start.addAll [.patterns Sample.markPatterns]).pattern? "Mark" =
      some (.named "mark" "x") := by
    refine pattern?_eq_some_iff.mpr ⟨0, ⟨"mark", "x"⟩, ?_, rfl⟩
    rw [hpatterns]
    exact ⟨rfl, by cbv, by simp⟩
  have hsent : (start.addAll [.patterns Sample.markPatterns]).kindOf (.text "Termination") =
      .ok 0 := by
    obtain ⟨-, htokens, -⟩ := ofDecls_addAll hok [.patterns Sample.markPatterns]
    have hfirst : IsFirst (·.name.matchesLoosely "Termination")
        (numbered 0 (ownDecls false ++ [])) 0 { name := .ofCamel "Termination", kind := 0 } :=
      ⟨rfl, by cbv, by simp⟩
    exact kindOf_of_isFirst (ofDecls_numbered hok _) (ofDecls_distinctNames hok _)
      (htokens ▸ hfirst)
  refine ⟨start, hok, haccepted, by rw [hpatterns]; rfl, hfound, ?_⟩
  generalize start.addAll [.patterns Sample.markPatterns] = l at hfound hsent ⊢
  have hmatcher : Sample.markRule.matcher l = .ok (.named "mark" "x") := by
    simp only [Description.RuleSection.matcher, Description.RuleSection.namedMatcher,
      Sample.markRule, hfound]
    rfl
  have halternatives : [⟨none, "Termination", 1⟩].mapM (Description.AltSection.alternative l) =
      .ok [⟨none, 0, 1⟩] := by
    simp only [List.mapM_cons, List.mapM_nil, Description.AltSection.alternative, hsent]
    rfl
  rw [Description.RuleSection.rule, hmatcher]
  simp only [Description.RuleSection.ruleFor, Sample.markRule, halternatives]
  cbv

end FrontEnd
