import Mathlib.Data.List.Forall2
import FrontEnd.Lexer.Spec
import FrontEnd.Lexer.Text
import FrontEnd.Proofs.LexerRuns

namespace FrontEnd

theorem mapM_ok_forall₂ {α β ε : Type} {f : α → Except ε β} {Fits : α → β → Prop} {as : List α}
    (h : ∀ a ∈ as, ∃ b, f a = .ok b ∧ Fits a b) :
    ∃ bs, as.mapM f = .ok bs ∧ List.Forall₂ Fits as bs := by
  induction as with
  | nil => exact ⟨[], rfl, .nil⟩
  | cons a as ih =>
    obtain ⟨b, hb, hfits⟩ := h a (by simp)
    obtain ⟨bs, hbs, hall⟩ := ih fun a' ha' => h a' (List.mem_cons_of_mem a ha')
    refine ⟨b :: bs, ?_, .cons hfits hall⟩
    rw [List.mapM_cons, hb, hbs]
    rfl

theorem specText_declares (tokenPrefix : String) (tokens : List TokenEntry)
    (patterns : List NamedPattern) (rules : List RuleText) :
    ∃ rest, specText tokenPrefix tokens patterns rules =
      "token_prefix " ++ tokenPrefix ++ "\n\ntoken \x7b\n" ++
        String.join (tokens.map fun t => "    " ++ Text.upper t.name ++ ";\n") ++ "\x7d\n" ++
          rest := by
  have hopening : "\n\ntoken \x7b\n" = "\n\n" ++ ("token" ++ " \x7b\n") := by decide
  have hend : ";\n" = ";" ++ "\n" := by decide
  have htokens : blockText "token" (tokens.map fun t => Text.upper t.name ++ ";") =
      "token" ++ " \x7b\n" ++
        String.join (tokens.map fun t => "    " ++ Text.upper t.name ++ ";\n") ++ "\x7d\n" := by
    rw [blockText, indentedLines, List.map_map, hend]
    simp only [Function.comp_def, String.append_assoc]
  unfold specText
  rw [htokens, hopening]
  generalize blockText "define" _ = patternBlock
  generalize blockText "mode Default_Mode" _ = ruleBlock
  exact ⟨"\n" ++ patternBlock ++ "\n" ++ ruleBlock, by simp only [String.append_assoc]⟩

namespace LexerSpec

variable (tokens : List TokenEntry)

/-- The constant is that of the entry with the kind as its value. -/
def Stands (kind : Nat) (constant : String) : Prop :=
  ∃ t ∈ tokens, t.value = kind ∧ t.quexName = constant

structure FitsAlternative (a : Alternative) (entry : AltEntry) : Prop where
  guard : List.Forall₂ (Stands tokens) (a.guard.getD []) entry.prevTokens
  send : Stands tokens a.send entry.send
  size : entry.matchSize = a.size

inductive FitsAction : Action → ActionEntry → Prop where
  | send {t : TokenEntry} (ht : t ∈ tokens) :
    FitsAction (.send t.value) (.send t.quexName (t.retention ≠ .discard))
  | ignore : FitsAction .ignore .ignore
  | case {c : CaseAction} {alts : List AltEntry} {fallback : AltEntry}
    (halts : List.Forall₂ (FitsAlternative tokens) c.alternatives alts)
    (hfallback : FitsAlternative tokens c.fallback fallback) :
    FitsAction (.case c) (.case c.maxLength alts fallback)

structure FitsRule (r : Rule) (entry : RuleEntry) : Prop where
  matcher : entry.matcher = r.matcher.text
  action : FitsAction tokens r.action entry.action

end LexerSpec

namespace Lexer

/-- The specification `s` is one of the lexer `l`, and closed. -/
structure SpecifiedBy (l : Lexer) (s : LexerSpec) : Prop where
  langName : s.langName = l.config.langName.canonical
  tokenPrefix : s.tokenPrefix = l.config.tokenPrefix
  trackIndent : s.trackIndent = l.config.trackIndent
  patterns : s.patterns = l.patterns
  values : s.tokens.map (·.value) = List.range l.tokens.length
  names : s.tokens.map (·.name) = l.tokens.map (·.name.canonical)
  quexNames : ∀ t ∈ s.tokens, t.quexName = s.tokenPrefix ++ Text.upper t.name
  /-- The text of the specification declares these names under that prefix. -/
  declared : ∃ rest, s.text = "token_prefix " ++ s.tokenPrefix ++ "\n\ntoken \x7b\n" ++
    String.join (s.tokens.map fun t => "    " ++ Text.upper t.name ++ ";\n") ++ "\x7d\n" ++ rest
  rules : List.Forall₂ (LexerSpec.FitsRule s.tokens) l.rules s.rules

/-- The tokens have their places as numbers. -/
def Numbered (l : Lexer) : Prop := ∀ i (hi : i < l.tokens.length), l.tokens[i].kind = i

def entry (l : Lexer) (t : Token) : TokenEntry where
  value := t.kind
  name := t.name.canonical
  quexName := l.quexName t.name
  cName := l.cName t.name
  adaName := l.adaName t.name
  retention := t.retention
  startIgnoreLayout := t.startsLayoutIgnore
  endIgnoreLayout := t.endsLayoutIgnore

def entries (l : Lexer) : List TokenEntry := l.tokens.map l.entry

theorem entry_mem_entries {l : Lexer} {kind : Nat} (hkind : kind < l.tokens.length) :
    l.entry l.tokens[kind] ∈ l.entries :=
  List.mem_map_of_mem (List.getElem_mem hkind)

namespace Numbered

variable {l : Lexer} (hl : l.Numbered)

include hl

theorem sortedTokens_eq : l.sortedTokens = l.tokens := by
  -- The numbers are the places, so the tokens stand sorted already.
  apply List.mergeSort_of_pairwise
  rw [List.pairwise_iff_getElem]
  intro i j hi hj hij
  rw [hl i hi, hl j hj]
  exact decide_eq_true (Nat.le_of_lt hij)

theorem tokenEntry_eq {t : Token} (ht : t ∈ l.tokens) : l.tokenEntry t = .ok (l.entry t) := by
  obtain ⟨i, hi, rfl⟩ := List.getElem_of_mem ht
  have hname : l.tokenName (.token l.tokens[i]) = .ok l.tokens[i].name := by
    rw [tokenName, resolve, known_of_lt (by rwa [hl i hi])]
    simp only [hl i hi]
    rfl
  rw [tokenEntry, hname]
  rfl

theorem values_eq : l.entries.map (·.value) = List.range l.tokens.length := by
  apply List.ext_getElem
  · simp [entries]
  · intro i hi _
    simpa [entries, entry] using hl i (by simpa [entries] using hi)

theorem constant_ok {kind : Nat} (hkind : kind < l.tokens.length) :
    ∃ constant, l.constant kind = .ok constant ∧ LexerSpec.Stands l.entries kind constant := by
  refine ⟨_, ?_, l.entry l.tokens[kind], entry_mem_entries hkind, hl kind hkind, rfl⟩
  rw [constant, tokenName, resolve, known_of_lt hkind]
  rfl

theorem altEntry_ok {a : Alternative}
    (ha : ∀ kind ∈ a.send :: a.guard.getD [], kind < l.tokens.length) :
    ∃ entry, l.altEntry a = .ok entry ∧ LexerSpec.FitsAlternative l.entries a entry := by
  obtain ⟨prevTokens, hprev, hguard⟩ := mapM_ok_forall₂ fun kind hkind =>
    hl.constant_ok (ha kind (List.mem_cons_of_mem _ hkind))
  obtain ⟨send, hsend, hstands⟩ := hl.constant_ok (ha a.send List.mem_cons_self)
  refine ⟨⟨prevTokens, send, a.size⟩, ?_, ⟨hguard, hstands, rfl⟩⟩
  rw [altEntry, hprev, hsend]
  rfl

theorem actionEntry_ok {action : Action} (ha : ∀ kind ∈ action.kinds, kind < l.tokens.length) :
    ∃ entry, l.actionEntry action = .ok entry ∧ LexerSpec.FitsAction l.entries action entry := by
  cases action with
  | send kind =>
    have hkind : kind < l.tokens.length := ha kind (by simp [Action.kinds])
    have hfits := LexerSpec.FitsAction.send (entry_mem_entries hkind)
    simp only [entry, hl kind hkind] at hfits
    refine ⟨_, ?_, hfits⟩
    rw [actionEntry, known_of_lt hkind]
    rfl
  | ignore => exact ⟨.ignore, rfl, .ignore⟩
  | case c =>
    -- The kinds of a case action are those of all its alternatives, sends and guards alike.
    have hwithin : ∀ a ∈ c.all, ∀ kind ∈ a.send :: a.guard.getD [], kind < l.tokens.length :=
      fun a hmem kind hkind => ha kind (List.mem_flatMap.mpr ⟨a, hmem, hkind⟩)
    obtain ⟨alts, halts, hfits⟩ := mapM_ok_forall₂ fun a hmem =>
      hl.altEntry_ok (hwithin a (List.mem_append_left _ hmem))
    obtain ⟨fallback, hfallback, hfits'⟩ :=
      hl.altEntry_ok (hwithin c.fallback (by simp [CaseAction.all]))
    refine ⟨_, ?_, .case hfits hfits'⟩
    rw [actionEntry, halts, hfallback]
    rfl

theorem ruleEntry_ok {r : Rule} (hr : r.Within l.tokens.length) :
    ∃ entry, l.ruleEntry r = .ok entry ∧ LexerSpec.FitsRule l.entries r entry := by
  obtain ⟨entry, hentry, hfits⟩ := hl.actionEntry_ok hr
  refine ⟨⟨r.matcher.text, entry⟩, ?_, ⟨rfl, hfits⟩⟩
  rw [ruleEntry, hentry]
  rfl

theorem tokenEntries_eq : l.sortedTokens.mapM l.tokenEntry = .ok l.entries := by
  rw [hl.sortedTokens_eq]
  obtain ⟨tokens, hok, hfits⟩ := mapM_ok_forall₂ fun t ht => ⟨l.entry t, hl.tokenEntry_eq ht, rfl⟩
  have heq : List.Forall₂ (· = ·) l.entries tokens := List.forall₂_map_left_iff.mpr hfits
  rw [List.forall₂_eq_eq_eq] at heq
  rw [hok, heq]

theorem tokens_of_emit {s : LexerSpec} (h : l.emit = .ok s) : s.tokens = l.entries := by
  rw [emit, hl.tokenEntries_eq] at h
  cases hrules : l.rules.mapM l.ruleEntry with
  | error fault =>
    rw [hrules] at h
    cases h
  | ok rules =>
    rw [hrules] at h
    cases h
    rfl

/-- A closed lexer with a numbered catalog has a specification. -/
theorem emit_ok (hclosed : l.Closed) : ∃ s, l.emit = .ok s ∧ l.SpecifiedBy s := by
  obtain ⟨rules, hrules, hfits⟩ := mapM_ok_forall₂ fun r hr => hl.ruleEntry_ok (hclosed.rules r hr)
  refine ⟨_, by rw [emit, hl.tokenEntries_eq, hrules]; rfl, ?_⟩
  constructor
  case langName => rfl
  case tokenPrefix => rfl
  case trackIndent => rfl
  case patterns => rfl
  case values => exact hl.values_eq
  case names => simp [entries, entry]
  case quexNames =>
    intro t ht
    obtain ⟨token, -, rfl⟩ := List.mem_map.mp ht
    rfl
  case declared => exact specText_declares _ _ _ _
  case rules => exact hfits

end Numbered

theorem ofDecls_numbered {config : LexerConfig} {decls : List TokenDecl} {start : Lexer}
    (h : ofDecls config decls = .ok start) (calls : List Addition) :
    (start.addAll calls).Numbered := by
  obtain ⟨-, htokens, -⟩ := ofDecls_addAll h calls
  simp [Numbered, htokens, numbered]

/-- Whatever calls are made on a new lexer, it has a specification, and nothing but a kind that the
catalog lacks keeps further rules from being added. -/
theorem addAll_specified {config : LexerConfig} {decls : List TokenDecl} {start : Lexer}
    (h : ofDecls config decls = .ok start) (calls : List Addition) :
    (∃ s, (start.addAll calls).emit = .ok s ∧ (start.addAll calls).SpecifiedBy s) ∧
      ∀ rs, ((start.addAll calls).foreignRule? rs).isSome ∨
        ∃ l, (start.addAll calls).appendRules rs = (.ok (), l) := by
  obtain ⟨-, htokens, hclosed⟩ := ofDecls_addAll h calls
  have hnumbered : (start.addAll calls).Numbered := by simp [Numbered, htokens, numbered]
  refine ⟨hnumbered.emit_ok hclosed, ?_⟩
  intro rs
  cases hforeign : (start.addAll calls).foreignRule? rs with
  | some e => exact .inl rfl
  | none =>
    obtain ⟨l, hl, -⟩ := hclosed.appendRules_ok (foreignRule_eq_none_iff.mp hforeign)
    exact .inr ⟨l, hl⟩

end Lexer

namespace Sample

theorem additions_specified :
    ∃ start, Lexer.ofDecls layoutConfig wordDecls = .ok start ∧
      (∃ s, (start.addAll additions).emit = .ok s ∧ (start.addAll additions).SpecifiedBy s) ∧
      ∀ rs, ((start.addAll additions).foreignRule? rs).isSome ∨
        ∃ l, (start.addAll additions).appendRules rs = (.ok (), l) := by
  obtain ⟨start, hok⟩ : ∃ start, Lexer.ofDecls layoutConfig wordDecls = .ok start := ⟨_, rfl⟩
  exact ⟨start, hok, Lexer.addAll_specified hok additions⟩

end Sample

end FrontEnd
