import FrontEnd.Proofs.LiteralIndex

namespace FrontEnd

namespace Lexer

section

variable {l : Lexer} {r : TokenRef} {kind : Nat}

theorem resolve_ne_unknownToken (l : Lexer) (r : TokenRef) (name : String) :
    l.resolve r ≠ .error (.unknownToken name) := by
  have hknown : ∀ kind, l.known kind ≠ .error (.unknownToken name) := by
    intro kind
    unfold known
    split <;> simp
  unfold resolve
  split
  case h_1 | h_2 => exact hknown _
  case h_3 => split <;> simp
  case h_4 =>
    split
    · simp
    · split
      · exact hknown _
      · simp

theorem Numbered.kind_eq_iff (hl : l.Numbered) {t : Token} (ht : t ∈ l.tokens) :
    t.kind = kind ↔ l.tokens[kind]? = some t := by
  constructor
  · rintro rfl
    obtain ⟨i, hi, rfl⟩ := List.getElem_of_mem ht
    rw [hl i hi, List.getElem?_eq_getElem hi]
  · intro hplace
    obtain ⟨hkind, rfl⟩ := List.getElem?_eq_some_iff.mp hplace
    exact hl kind hkind

theorem kindOf_eq_ok_iff (hl : l.Numbered) (hnames : l.DistinctNames) :
    l.kindOf r = .ok kind ↔ ∃ t, l.tokens[kind]? = some t ∧ l.tokenName r = .ok t.name := by
  rw [hnames.kindOf_eq, tokenName]
  cases hr : l.resolve r with
  | error fault => simp [Except.map]
  | ok t =>
    have ht := resolve_mem hr
    simp only [Except.map, Except.ok.injEq, hl.kind_eq_iff ht]
    constructor
    · intro hplace
      exact ⟨t, hplace, rfl⟩
    · rintro ⟨u, hplace, hname⟩
      rwa [List.inj_on_of_nodup_map hnames ht (List.mem_of_getElem? hplace) hname]

theorem kindOf_eq_error_iff (hnames : l.DistinctNames) {fault : LexerFault} :
    l.kindOf r = .error fault ↔ l.tokenName r = .error fault := by
  rw [hnames.kindOf_eq, tokenName]
  cases l.resolve r <;> simp [Except.map]

theorem kindOf_kind (hl : l.Numbered) (hnames : l.DistinctNames) (hkind : kind < l.tokens.length) :
    l.kindOf (.kind kind) = .ok kind := by
  rw [hnames.kindOf_eq, resolve, known_of_lt hkind]
  exact congrArg Except.ok (hl kind hkind)

end

/-- The kinds and the names that references have in a lexer agree. -/
structure Agrees (l : Lexer) : Prop where
  ok_iff : ∀ r kind, l.kindOf r = .ok kind ↔
    ∃ t, l.tokens[kind]? = some t ∧ l.tokenName r = .ok t.name
  error_iff : ∀ r fault, l.kindOf r = .error fault ↔ l.tokenName r = .error fault
  /-- The name that a reference gives is always found again. -/
  found : ∀ r name, l.kindOf r ≠ .error (.unknownToken name)
  kind_ok : ∀ kind < l.tokens.length, l.kindOf (.kind kind) = .ok kind
  /-- A text that no token answers to stands for what its last rule sends. -/
  literal_ok : ∀ text sent, (∀ t ∈ l.tokens, ¬ t.name.matchesLoosely text) →
    Rule.sends text sent ∈ l.rules →
    ∃ kind, LastSends l.rules text kind ∧ l.kindOf (.text text) = .ok kind

/-- Whatever calls are made on a new lexer, the kind and the name of what is referred to agree. -/
theorem addAll_agrees {config : LexerConfig} {decls : List TokenDecl} {start : Lexer}
    (h : ofDecls config decls = .ok start) (calls : List Addition) :
    (start.addAll calls).Agrees := by
  have hl := ofDecls_numbered h calls
  have hnames := ofDecls_distinctNames h calls
  obtain ⟨-, -, hclosed⟩ := ofDecls_addAll h calls
  constructor
  case ok_iff => exact fun r kind => kindOf_eq_ok_iff hl hnames
  case error_iff => exact fun r fault => kindOf_eq_error_iff hnames
  case found =>
    intro r name hfault
    have hresolve := (kindOf_eq_error_iff hnames).mp hfault
    rw [tokenName] at hresolve
    -- A token that is found has a name, and where none is found there is another reason.
    cases hr : (start.addAll calls).resolve r with
    | ok t => simp [hr, Except.map] at hresolve
    | error fault =>
      simp only [hr, Except.map, Except.error.injEq] at hresolve
      exact resolve_ne_unknownToken _ r name (hr.trans (congrArg _ hresolve))
  case kind_ok => exact fun kind hkind => kindOf_kind hl hnames hkind
  case literal_ok =>
    intro text sent hnone hmem
    obtain ⟨kind, hlast⟩ := exists_lastSends_iff.mpr ⟨sent, hmem⟩
    refine ⟨kind, hlast, (kindOf_text_iff hl hnames hclosed).mpr (.inr ⟨hnone, ?_⟩)⟩
    exact ((ofDecls_indexed h calls).literal_iff text kind).mpr hlast

end Lexer

namespace Sample

theorem additions_agree : ∃ start, Lexer.ofDecls layoutConfig wordDecls = .ok start ∧
    (start.addAll additions).Agrees := by
  obtain ⟨start, hok⟩ : ∃ start, Lexer.ofDecls layoutConfig wordDecls = .ok start := ⟨_, rfl⟩
  exact ⟨start, hok, Lexer.addAll_agrees hok additions⟩

end Sample

end FrontEnd
