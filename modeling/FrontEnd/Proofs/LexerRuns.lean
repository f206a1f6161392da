import Mathlib.Data.List.Nodup
import FrontEnd.Lexer.Store

namespace FrontEnd

theorem nodup_map_concat {α β : Type} [BEq β] [LawfulBEq β] {name : α → β} {items : List α} {x : α}
    (hitems : (items.map name).Nodup) (hx : ¬ items.any (name · == name x) = true) :
    ((items ++ [x]).map name).Nodup := by
  have hnew : ∀ y ∈ items, name y ≠ name x := by simpa using hx
  simpa [List.nodup_append, hitems] using hnew

/-- A call that adds to a lexer. -/
inductive Addition where
  | patterns (ps : List NamedPattern)
  | rules (rs : List Rule)

namespace Addition

def patternList : Addition → List NamedPattern
  | patterns ps => ps
  | rules _ => []

def ruleList : Addition → List Rule
  | patterns _ => []
  | rules rs => rs

end Addition

/-- The tokens that the rule names are among the first `size`. -/
def Rule.Within (r : Rule) (size : Nat) : Prop := ∀ kind ∈ r.action.kinds, kind < size

namespace Lexer

/-- What a call answers and what it leaves. -/
def add (l : Lexer) : Addition → Except Error Unit × Lexer
  | .patterns ps => ((l.addPatterns ps).1.mapError LexerFault.toError, (l.addPatterns ps).2)
  | .rules rs => l.extend rs

/-- The lexer that calls leave, whether they are refused or not. -/
def addAll (l : Lexer) (calls : List Addition) : Lexer :=
  calls.foldl (fun l call => (l.add call).2) l

/-- The rules of the calls that are accepted. -/
def acceptedRules (l : Lexer) : List Addition → List Rule
  | [] => []
  | call :: calls =>
    (if (l.add call).1 = .ok () then call.ruleList else []) ++ (l.add call).2.acceptedRules calls

@[simp] theorem addAll_nil (l : Lexer) : l.addAll [] = l := rfl

@[simp] theorem addAll_cons (l : Lexer) (call : Addition) (calls : List Addition) :
    l.addAll (call :: calls) = (l.add call).2.addAll calls := rfl

/-- The tokens that declarations become behind `n` others. -/
def numbered (n : Nat) (ds : List TokenDecl) : List Token :=
  ds.mapIdx fun i d => { d with kind := n + i }

theorem numbered_cons (n : Nat) (d : TokenDecl) (ds : List TokenDecl) :
    numbered n (d :: ds) = { d with kind := n } :: numbered (n + 1) ds := by
  simp only [numbered, List.mapIdx_cons, Nat.add_zero]
  congr 2
  funext i d'
  rw [Nat.add_assoc, Nat.add_comm 1 i]

@[simp] theorem length_numbered (n : Nat) (ds : List TokenDecl) :
    (numbered n ds).length = ds.length := List.length_mapIdx

@[simp] theorem numbered_decls (n : Nat) (ds : List TokenDecl) :
    (numbered n ds).map Token.toTokenDecl = ds := by
  apply List.ext_getElem
  · simp
  · simp [numbered]

theorem register_eq {catalog tokens : List Token} {ds : List TokenDecl}
    (h : register catalog ds = .ok tokens) : tokens = catalog ++ numbered catalog.length ds := by
  induction ds generalizing catalog with
  | nil => simpa [register, numbered] using h.symm
  | cons d ds ih =>
    unfold register at h
    split at h
    · cases h
    split at h
    · cases h
    rw [ih h, numbered_cons, List.length_append, List.append_assoc]
    rfl

theorem register_bounded {catalog tokens : List Token} {ds : List TokenDecl}
    (h : register catalog ds = .ok tokens) (hnames : (catalog.map (·.name)).Nodup)
    (hsize : catalog.length ≤ maxKinds) :
    (tokens.map (·.name)).Nodup ∧ tokens.length ≤ maxKinds := by
  induction ds generalizing catalog with
  | nil =>
    cases h
    exact ⟨hnames, hsize⟩
  | cons d ds ih =>
    unfold register at h
    split at h
    · cases h
    case isFalse hnew =>
      split at h
      · cases h
      case isFalse hroom =>
        refine ih h (nodup_map_concat hnames hnew) ?_
        rw [List.length_append]
        exact Nat.lt_of_not_le hroom

/-- All tokens that the lexer's rules and literals stand for are in its catalog. -/
structure Closed (l : Lexer) : Prop where
  rules : ∀ r ∈ l.rules, r.Within l.tokens.length
  literals : ∀ entry ∈ l.literals, entry.2 < l.tokens.length

theorem Closed.withPatterns {l : Lexer} (hl : l.Closed) (ps : List NamedPattern) :
    Closed { l with patterns := ps } :=
  ⟨hl.rules, hl.literals⟩

/-- The lexer `m` is `l` with the rules `rs` added, and with all that follows from them. -/
structure Grows (l : Lexer) (rs : List Rule) (m : Lexer) : Prop where
  config : m.config = l.config
  tokens : m.tokens = l.tokens
  patterns : m.patterns = l.patterns
  rules : m.rules = l.rules ++ rs
  closed : m.Closed

namespace Grows

theorem refl {l : Lexer} (hl : l.Closed) : l.Grows [] l where
  config := rfl
  tokens := rfl
  patterns := rfl
  rules := (List.append_nil _).symm
  closed := hl

theorem trans {l m n : Lexer} {rs ss : List Rule} (h : l.Grows rs m) (k : m.Grows ss n) :
    l.Grows (rs ++ ss) n where
  config := k.config.trans h.config
  tokens := k.tokens.trans h.tokens
  patterns := k.patterns.trans h.patterns
  rules := by rw [k.rules, h.rules, List.append_assoc]
  closed := k.closed

end Grows

theorem foreignKind_eq_none_iff {l : Lexer} {r : Rule} :
    l.foreignKind? r = none ↔ r.Within l.tokens.length := by
  simp [foreignKind?, token?, Rule.Within]

theorem foreignRule_eq_none_iff {l : Lexer} {rs : List Rule} :
    l.foreignRule? rs = none ↔ ∀ r ∈ rs, r.Within l.tokens.length := by
  simp [foreignRule?, foreignKind_eq_none_iff]

theorem known_of_lt {l : Lexer} {kind : Nat} (h : kind < l.tokens.length) :
    l.known kind = .ok l.tokens[kind] := by
  simp [known, token?, List.getElem?_eq_getElem h]

theorem Closed.literal_lt {l : Lexer} (hl : l.Closed) {text : String} {kind : Nat}
    (h : l.literal? text = some kind) : kind < l.tokens.length := by
  obtain ⟨before, after, hsplit, -⟩ := List.lookup_eq_some_iff.mp h
  exact hl.literals (text, kind) (by simp [hsplit])

theorem Closed.reboundWarning_ok {l : Lexer} (hl : l.Closed) (text : String) {kind : Nat}
    (hkind : kind < l.tokens.length) : ∃ warning, l.reboundWarning? text kind = .ok warning := by
  unfold reboundWarning?
  split
  · exact ⟨_, rfl⟩
  case _ before hbefore =>
    split
    · exact ⟨_, rfl⟩
    · rw [rebound, known_of_lt hkind, known_of_lt (hl.literal_lt hbefore)]
      exact ⟨_, rfl⟩

theorem Closed.addRule_ok {l : Lexer} (hl : l.Closed) {r : Rule}
    (hr : r.Within l.tokens.length) : ∃ m, l.addRule r = .ok m ∧ l.Grows [r] m := by
  have hrules : ∀ r' ∈ l.rules ++ [r], r'.Within l.tokens.length := by
    intro r' hr'
    rcases List.mem_append.mp hr' with hr' | hr'
    · exact hl.rules r' hr'
    · rw [List.mem_singleton.mp hr']
      exact hr
  unfold addRule
  split
  case _ text kind _ haction =>
    -- Only the rule of a literal looks tokens up, its own and the one it stood for before.
    have hkind : kind < l.tokens.length := hr kind (by simp [haction, Action.kinds])
    obtain ⟨warning, hw⟩ := hl.reboundWarning_ok text hkind
    rw [bindLiteral, hw]
    refine ⟨_, rfl, ⟨rfl, rfl, rfl, rfl, ⟨hrules, ?_⟩⟩⟩
    intro entry hentry
    rcases List.mem_cons.mp hentry with rfl | hentry
    · exact hkind
    · exact hl.literals entry hentry
  · exact ⟨_, rfl, ⟨rfl, rfl, rfl, rfl, ⟨hrules, hl.literals⟩⟩⟩

theorem Closed.appendRules_ok {l : Lexer} (hl : l.Closed) {rs : List Rule}
    (hrs : ∀ r ∈ rs, r.Within l.tokens.length) : ∃ m, l.appendRules rs = (.ok (), m) ∧ l.Grows rs m := by
  induction rs generalizing l with
  | nil => exact ⟨l, rfl, .refl hl⟩
  | cons r rs ih =>
    obtain ⟨m, hm, hgrows⟩ := hl.addRule_ok (hrs r (by simp))
    obtain ⟨n, hn, hgrows'⟩ := ih hgrows.closed (by
      rw [hgrows.tokens]
      exact fun r' hr' => hrs r' (List.mem_cons_of_mem r hr'))
    exact ⟨n, by simp [appendRules, hm, hn], hgrows.trans hgrows'⟩

theorem appendRules_append (l : Lexer) (rs ss : List Rule) {m : Lexer}
    (h : l.appendRules rs = (.ok (), m)) : l.appendRules (rs ++ ss) = m.appendRules ss := by
  induction rs generalizing l with
  | nil =>
    cases h
    rfl
  | cons r rs ih =>
    rw [List.cons_append]
    simp only [appendRules] at h ⊢
    cases hr : l.addRule r with
    | error fault => simp [hr] at h
    | ok l' =>
      simp only [hr] at h ⊢
      exact ih l' h

theorem addRule_withPatterns (l : Lexer) (ps : List NamedPattern) (r : Rule) :
    { l with patterns := ps }.addRule r = (l.addRule r).map fun m => { m with patterns := ps } := by
  unfold addRule
  split
  case _ text kind _ _ =>
    have hwarning :
        { l with patterns := ps }.reboundWarning? text kind = l.reboundWarning? text kind := rfl
    rw [bindLiteral, bindLiteral, hwarning]
    cases l.reboundWarning? text kind <;> rfl
  · rfl

theorem appendRules_withPatterns (l : Lexer) (ps : List NamedPattern) (rs : List Rule) :
    { l with patterns := ps }.appendRules rs =
      ((l.appendRules rs).1, { (l.appendRules rs).2 with patterns := ps }) := by
  induction rs generalizing l with
  | nil => rfl
  | cons r rs ih =>
    unfold appendRules
    rw [addRule_withPatterns]
    cases l.addRule r with
    | error fault => rfl
    | ok m => exact ih m

theorem addPatterns_cases (l : Lexer) (ps : List NamedPattern) :
    (l.addPatterns ps = (.ok (), { l with patterns := l.patterns ++ ps })) ∨
    ∃ before p after, ps = before ++ p :: after ∧ p.name ∈ (l.patterns ++ before).map (·.name) ∧
      l.addPatterns ps =
        (.error (.patternTwice p.name), { l with patterns := l.patterns ++ before }) := by
  induction ps generalizing l with
  | nil => simp [addPatterns]
  | cons p ps ih =>
    unfold addPatterns
    split
    case isTrue htaken =>
      obtain ⟨q, hq, hname⟩ := List.any_eq_true.mp htaken
      refine .inr ⟨[], p, ps, rfl, ?_, by simp⟩
      rw [List.append_nil, ← beq_iff_eq.mp hname]
      exact List.mem_map_of_mem hq
    case isFalse =>
      rcases ih { l with patterns := l.patterns ++ [p] } with h | ⟨before, q, after, hps, hq, h⟩
      · exact .inl (by simp [h])
      · refine .inr ⟨p :: before, q, after, by simp [hps], by simpa using hq, by simp [h]⟩

theorem addPatterns_nodup {l : Lexer} (hl : (l.patterns.map (·.name)).Nodup)
    (ps : List NamedPattern) : ((l.addPatterns ps).2.patterns.map (·.name)).Nodup := by
  induction ps generalizing l with
  | nil => exact hl
  | cons p ps ih =>
    unfold addPatterns
    split
    · exact hl
    case isFalse hnew => exact ih (nodup_map_concat hl hnew)

theorem Closed.extend_cases {l : Lexer} (hl : l.Closed) (rs : List Rule) :
    (∃ m, l.extend rs = (.ok (), m) ∧ l.appendRules rs = (.ok (), m) ∧ l.Grows rs m ∧
      ∀ r ∈ rs, r.Within l.tokens.length) ∨
    ∃ e, l.extend rs = (.error e, l) := by
  unfold extend
  split
  · exact .inr ⟨_, rfl⟩
  case _ hforeign =>
    have hrs := foreignRule_eq_none_iff.mp hforeign
    obtain ⟨m, hm, hgrows⟩ := hl.appendRules_ok hrs
    exact .inl ⟨m, by rw [hm]; rfl, hm, hgrows, hrs⟩

theorem add_patterns (l : Lexer) (ps : List NamedPattern) :
    ∃ added, added.Sublist ps ∧
      (l.add (.patterns ps)).2 = { l with patterns := l.patterns ++ added } := by
  rcases l.addPatterns_cases ps with h | ⟨before, p, after, hps, -, h⟩
  · exact ⟨ps, .refl ps, by rw [add, h]⟩
  · exact ⟨before, by simp [hps], by rw [add, h]⟩

/-- A run leaves what one call with all accepted rules would leave, but for the patterns. -/
theorem Closed.addAll_ok {l : Lexer} (hl : l.Closed) (calls : List Addition) :
    l.appendRules (l.acceptedRules calls) =
        (.ok (), { l.addAll calls with patterns := l.patterns }) ∧
      ∀ r ∈ l.acceptedRules calls, r.Within l.tokens.length := by
  induction calls generalizing l with
  | nil => exact ⟨rfl, by simp [acceptedRules]⟩
  | cons call calls ih =>
    cases call with
    | patterns ps =>
      obtain ⟨added, -, hleft⟩ := l.add_patterns ps
      let l' : Lexer := { l with patterns := l.patterns ++ added }
      obtain ⟨hrun, hwithin⟩ := ih (hl.withPatterns (l.patterns ++ added))
      have haccepted : l.acceptedRules (.patterns ps :: calls) = l'.acceptedRules calls := by
        simp only [acceptedRules, Addition.ruleList, ite_self, List.nil_append, hleft, l']
      rw [haccepted, addAll_cons, hleft]
      refine ⟨?_, hwithin⟩
      -- The run goes on with other patterns, which do not matter to its rules.
      calc l.appendRules (l'.acceptedRules calls)
          = ((l'.appendRules (l'.acceptedRules calls)).1,
              { (l'.appendRules (l'.acceptedRules calls)).2 with patterns := l.patterns }) :=
            appendRules_withPatterns l' l.patterns _
        _ = (.ok (), { l'.addAll calls with patterns := l.patterns }) := by rw [hrun]
    | rules rs =>
      rcases hl.extend_cases rs with ⟨m, hadd, hm, hgrows, hrs⟩ | ⟨e, hadd⟩
      · obtain ⟨hrun, hwithin⟩ := ih hgrows.closed
        rw [hgrows.tokens] at hwithin
        rw [hgrows.patterns] at hrun
        have haccepted : l.acceptedRules (.rules rs :: calls) = rs ++ m.acceptedRules calls := by
          simp only [acceptedRules, add, hadd, if_true, Addition.ruleList]
        have hleft : (l.add (.rules rs)).2 = m := by rw [add, hadd]
        rw [haccepted, addAll_cons, hleft]
        refine ⟨by rw [appendRules_append l rs _ hm, hrun], ?_⟩
        intro r hr
        rcases List.mem_append.mp hr with hr | hr
        · exact hrs r hr
        · exact hwithin r hr
      · simpa [acceptedRules, add, hadd] using ih hl

theorem Closed.addAll_grows {l : Lexer} (hl : l.Closed) (calls : List Addition) :
    l.Grows (l.acceptedRules calls) { l.addAll calls with patterns := l.patterns } := by
  obtain ⟨hrun, hwithin⟩ := hl.addAll_ok calls
  obtain ⟨m, hm, hgrows⟩ := hl.appendRules_ok hwithin
  rw [hrun] at hm
  cases hm
  exact hgrows

theorem Closed.addAll {l : Lexer} (hl : l.Closed) (calls : List Addition) :
    (l.addAll calls).Closed :=
  (hl.addAll_grows calls).closed.withPatterns (l.addAll calls).patterns

theorem Closed.addAll_patterns {l : Lexer} (hl : l.Closed) (calls : List Addition)
    (hnames : (l.patterns.map (·.name)).Nodup) :
    ((l.addAll calls).patterns.map (·.name)).Nodup ∧
      ∃ added, added.Sublist (calls.flatMap Addition.patternList) ∧
        (l.addAll calls).patterns = l.patterns ++ added := by
  induction calls generalizing l with
  | nil => exact ⟨hnames, [], by simp⟩
  | cons call calls ih =>
    rw [addAll_cons, List.flatMap_cons]
    cases call with
    | patterns ps =>
      obtain ⟨first, hfirst, hleft⟩ := l.add_patterns ps
      have hnames' : ((l.add (.patterns ps)).2.patterns.map (·.name)).Nodup :=
        addPatterns_nodup hnames ps
      rw [hleft] at hnames' ⊢
      obtain ⟨hnodup, added, hadded, heq⟩ := ih (hl.withPatterns (l.patterns ++ first)) hnames'
      exact ⟨hnodup, first ++ added, hfirst.append hadded, by rw [heq, List.append_assoc]⟩
    | rules rs =>
      rcases hl.extend_cases rs with ⟨m, hadd, -, hgrows, -⟩ | ⟨e, hadd⟩
      · rw [← hgrows.patterns] at hnames ⊢
        simpa [add, hadd, Addition.patternList] using ih hgrows.closed hnames
      · simpa [add, hadd, Addition.patternList] using ih hl hnames

theorem ofDecls_grows {config : LexerConfig} {decls : List TokenDecl} {l : Lexer}
    (h : ofDecls config decls = .ok l) :
    ∃ tokens, register [] (ownDecls config.trackIndent ++ decls) = .ok tokens ∧
      Grows { config, tokens } (ownRules { config, tokens }) l := by
  unfold ofDecls at h
  cases hregister : register [] (ownDecls config.trackIndent ++ decls) with
  | error fault =>
    rw [hregister] at h
    cases h
  | ok tokens =>
    have hempty : Closed { config, tokens } := ⟨by simp, by simp⟩
    simp only [hregister, addRules] at h
    rcases hempty.extend_cases (ownRules { config, tokens }) with ⟨m, hm, -, hgrows, -⟩ | ⟨e, he⟩
    · rw [hm] at h
      cases h
      exact ⟨tokens, rfl, hgrows⟩
    · rw [he] at h
      cases h

theorem ofDecls_addAll {config : LexerConfig} {decls : List TokenDecl} {start : Lexer}
    (h : ofDecls config decls = .ok start) (calls : List Addition) :
    (start.addAll calls).config = config ∧
      (start.addAll calls).tokens = numbered 0 (ownDecls config.trackIndent ++ decls) ∧
      (start.addAll calls).Closed := by
  obtain ⟨tokens, hregister, hstart⟩ := ofDecls_grows h
  have hgrows := hstart.closed.addAll_grows calls
  refine ⟨hgrows.config.trans hstart.config, ?_, hstart.closed.addAll calls⟩
  rw [← List.nil_append (numbered _ _)]
  exact (hgrows.tokens.trans hstart.tokens).trans (register_eq hregister)

def ownTokens (trackIndent : Bool) : List (Nat × String) :=
  [(0, "Termination"), (1, "Lexing_Failure")] ++
    if trackIndent then [(2, "Indent"), (3, "Dedent"), (4, "Newline")] else []

theorem ownTokens_prefix (trackIndent : Bool) (decls : List TokenDecl) :
    ownTokens trackIndent <+:
      (numbered 0 (ownDecls trackIndent ++ decls)).map fun t => (t.kind, t.name.canonical) := by
  cases trackIndent with
  | false =>
    refine ⟨(numbered 2 decls).map fun t => (t.kind, t.name.canonical), ?_⟩
    simp only [ownDecls, List.map, List.cons_append, List.nil_append, numbered_cons]
    rfl
  | true =>
    refine ⟨(numbered 5 decls).map fun t => (t.kind, t.name.canonical), ?_⟩
    simp only [ownDecls, if_true, List.map, List.cons_append, List.nil_append, numbered_cons]
    rfl

theorem ownRules_eq (l : Lexer) :
    l.ownRules = [⟨.eof, .send 0⟩, ⟨.failure, .send 1⟩] ++
      if l.config.trackIndent then [⟨.literal "\\n", .send 4⟩] else [] := by
  unfold ownRules newline?
  split <;> rfl

/-- What a run of calls makes of the lexer `start` that has been made for the declarations. -/
structure Stored (config : LexerConfig) (decls : List TokenDecl) (start : Lexer)
    (calls : List Addition) (l : Lexer) : Prop where
  config_kept : l.config = config
  catalog_kept : l.tokens = start.tokens
  catalog : l.tokens.map Token.toTokenDecl = ownDecls config.trackIndent ++ decls
  numbered_by_place : ∀ i (hi : i < l.tokens.length), l.tokens[i].kind = i
  size : l.tokens.length ≤ maxKinds
  names_distinct : (l.tokens.map (·.name)).Nodup
  own_tokens : ownTokens config.trackIndent <+: l.tokens.map fun t => (t.kind, t.name.canonical)
  rules : l.rules = [⟨.eof, .send 0⟩, ⟨.failure, .send 1⟩] ++
    (if config.trackIndent then [⟨.literal "\\n", .send 4⟩] else []) ++ start.acceptedRules calls
  pattern_names_distinct : (l.patterns.map (·.name)).Nodup
  /-- The patterns are among those that the calls bring, in the order of the calls. -/
  patterns_in_order : l.patterns.Sublist (calls.flatMap Addition.patternList)
  /-- A further call registers all its patterns, or those before one whose name is taken. -/
  patterns_next : ∀ ps,
    l.add (.patterns ps) = (.ok (), { l with patterns := l.patterns ++ ps }) ∨
    ∃ before p after, ps = before ++ p :: after ∧ p.name ∈ (l.patterns ++ before).map (·.name) ∧
      l.add (.patterns ps) = (.error (LexerFault.patternTwice p.name).toError,
        { l with patterns := l.patterns ++ before })
  /-- A further call whose rules are refused changes nothing. -/
  refused_next : ∀ rs e, (l.add (.rules rs)).1 = .error e → (l.add (.rules rs)).2 = l
  /-- All accepted rules could as well be added by one call. -/
  one_call : ∃ m, start.addRules (start.acceptedRules calls) = .ok m ∧ l.rules = m.rules ∧
    l.literals = m.literals ∧ l.warnings = m.warnings

/-- Whatever calls are made on a new lexer, and whether or not they are refused, its catalog stays,
its patterns and rules follow the calls, and its rules, literals and warnings are those of one call
with all accepted rules. -/
theorem addAll_stored {config : LexerConfig} {decls : List TokenDecl} {start : Lexer}
    (h : ofDecls config decls = .ok start) (calls : List Addition) :
    Stored config decls start calls (start.addAll calls) := by
  obtain ⟨hconfig, htokens, hclosed⟩ := ofDecls_addAll h calls
  obtain ⟨catalog, hregister, hstart⟩ := ofDecls_grows h
  have hgrows := hstart.closed.addAll_grows calls
  have hcatalog : (start.addAll calls).tokens = catalog := hgrows.tokens.trans hstart.tokens
  obtain ⟨hnames, hsize⟩ := register_bounded hregister (by simp) (by simp)
  obtain ⟨hpatterns, added, hadded, heq⟩ :=
    hstart.closed.addAll_patterns calls (by simp [hstart.patterns])
  obtain ⟨hrun, hwithin⟩ := hstart.closed.addAll_ok calls
  -- What one run does to catalog, patterns and rules is known; the fields put it together.
  constructor
  case config_kept => exact hconfig
  case catalog_kept => exact hgrows.tokens
  case catalog => rw [htokens, numbered_decls]
  case numbered_by_place => simp [htokens, numbered]
  case size => rwa [hcatalog]
  case names_distinct => rwa [hcatalog]
  case own_tokens =>
    rw [htokens]
    exact ownTokens_prefix _ _
  case rules =>
    rw [hgrows.rules, hstart.rules, ownRules_eq]
    rfl
  case pattern_names_distinct => exact hpatterns
  case patterns_in_order => rwa [heq, hstart.patterns, List.nil_append]
  case patterns_next =>
    intro ps
    rcases (start.addAll calls).addPatterns_cases ps with hps | ⟨before, p, after, hps, hp, hadd⟩
    · exact .inl (by rw [add, hps]; rfl)
    · exact .inr ⟨before, p, after, hps, hp, by rw [add, hadd]; rfl⟩
  case refused_next =>
    intro rs e he
    rcases hclosed.extend_cases rs with ⟨m, hm, -⟩ | ⟨e', hm⟩
    · simp [add, hm] at he
    · simp [add, hm]
  case one_call =>
    have hforeign : start.foreignRule? (start.acceptedRules calls) = none :=
      foreignRule_eq_none_iff.mpr hwithin
    refine ⟨{ start.addAll calls with patterns := start.patterns }, ?_, rfl, rfl, rfl⟩
    rw [addRules, extend, hforeign, hrun]
    rfl

end Lexer

namespace Sample

def layoutConfig : LexerConfig := .ofLanguage "Tiny" true none

def wordDecls : List TokenDecl := [{ name := .ofCamel "OpenWord" }, { name := .ofCamel "Word" }]

/-- Additions of which the second and the third are refused; the last one has a literal stand for
another token, and chooses by the token before. -/
def additions : List Addition :=
  [.rules [⟨.literal "do", .send 5⟩],
    .patterns [⟨"letter", "[a-z]"⟩, ⟨"letter", "[A-Z]"⟩, ⟨"digit", "[0-9]"⟩],
    .rules [⟨.pattern "x", .ignore⟩, ⟨.pattern "y", .send 7⟩],
    .rules [⟨.literal "do", .send 6⟩, ⟨.pattern "if", .case ⟨2, [⟨some [5, 0], 6, 1⟩], ⟨none, 5, 2⟩⟩⟩]]

theorem additions_stored :
    ∃ start, Lexer.ofDecls layoutConfig wordDecls = .ok start ∧
      Lexer.Stored layoutConfig wordDecls start additions (start.addAll additions) := by
  obtain ⟨start, hok⟩ : ∃ start, Lexer.ofDecls layoutConfig wordDecls = .ok start := ⟨_, rfl⟩
  exact ⟨start, hok, Lexer.addAll_stored hok additions⟩

example : (Lexer.ofDecls layoutConfig wordDecls).toOption.map (fun start =>
    ((start.addAll additions).patterns.map (·.name), (start.acceptedRules additions).length,
      (start.addAll additions).warnings.length)) = some (["letter"], 3, 1) := by rfl

end Sample

end FrontEnd
