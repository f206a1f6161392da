import FrontEnd.Proofs.References

namespace FrontEnd

theorem nodup_map_iff_of_eq_iff {α β γ : Type} {f : α → β} {g : α → γ} {items : List α}
    (h : ∀ a b, f a = f b ↔ g a = g b) : (items.map f).Nodup ↔ (items.map g).Nodup := by
  have hne : ∀ {a b}, f a ≠ f b ↔ g a ≠ g b := fun {a b} => not_congr (h a b)
  rw [List.Nodup, List.Nodup, List.pairwise_map, List.pairwise_map]
  exact List.Pairwise.iff fun a b => hne

namespace Lexer

variable {l : Lexer} {n m : Name}

theorem quexName_eq_iff : l.quexName n = l.quexName m ↔ n.lower = m.lower := by
  rw [quexName, quexName, String.append_right_inj, Name.upper_eq_upper_iff]

theorem cName_eq_iff : l.cName n = l.cName m ↔ n.lower = m.lower := by
  -- The language's name stands in front of all of them, in capital letters too.
  have hsplit (k : Name) : l.cName k = Text.upper (l.config.langName.canonical ++ "_") ++ k.upper :=
    Text.upper_append _ _
  rw [hsplit, hsplit, String.append_right_inj, Name.upper_eq_upper_iff]

/-- The constants tell the entries of tokens apart just as far as their names differ in more than
letter case. -/
structure TellsApart (constant : TokenEntry → String) (declared : List Name)
    (entries : List TokenEntry) : Prop where
  eq_iff : ∀ t ∈ entries, ∀ u ∈ entries,
    constant t = constant u ↔ Text.lower t.name = Text.lower u.name
  /-- No two tokens share a constant exactly if the names are distinct in small letters. -/
  nodup_iff : (entries.map constant).Nodup ↔ (declared.map (·.lower)).Nodup

structure Constants (declared : List Name) (entries : List TokenEntry) : Prop where
  names : entries.map (·.name) = declared.map (·.canonical)
  quexNames : TellsApart (·.quexName) declared entries
  cNames : TellsApart (·.cName) declared entries

theorem tellsApart_entries (l : Lexer) {constant : TokenEntry → String} {spell : Name → String}
    (hspell : ∀ n m, spell n = spell m ↔ n.lower = m.lower)
    (hentry : ∀ t, constant (l.entry t) = spell t.name) :
    TellsApart constant (l.tokens.map (·.name)) l.entries := by
  have hsame : ∀ t u : Token, constant (l.entry t) = constant (l.entry u) ↔
      t.name.lower = u.name.lower := by
    intro t u
    rw [hentry, hentry]
    exact hspell _ _
  constructor
  case eq_iff =>
    intro t ht u hu
    obtain ⟨t, -, rfl⟩ := List.mem_map.mp ht
    obtain ⟨u, -, rfl⟩ := List.mem_map.mp hu
    exact hsame t u
  case nodup_iff =>
    rw [entries, List.map_map, List.map_map]
    exact nodup_map_iff_of_eq_iff hsame

theorem constants_entries (l : Lexer) : Constants (l.tokens.map (·.name)) l.entries where
  names := by simp [entries, entry]
  quexNames := l.tellsApart_entries (fun _ _ => quexName_eq_iff) fun _ => rfl
  cNames := l.tellsApart_entries (fun _ _ => cName_eq_iff) fun _ => rfl

/-- Whatever calls are made on a new lexer, two tokens of its specification share a constant exactly
if their names differ in letter case only. -/
theorem addAll_constants {config : LexerConfig} {decls : List TokenDecl} {start : Lexer}
    (h : ofDecls config decls = .ok start) (calls : List Addition) :
    ∃ s, (start.addAll calls).emit = .ok s ∧
      Constants ((ownDecls config.trackIndent ++ decls).map (·.name)) s.tokens := by
  obtain ⟨-, htokens, hclosed⟩ := ofDecls_addAll h calls
  have hnumbered := ofDecls_numbered h calls
  obtain ⟨s, hs, -⟩ := hnumbered.emit_ok hclosed
  have hnames : (start.addAll calls).tokens.map (·.name) =
      (ownDecls config.trackIndent ++ decls).map (·.name) := by
    calc (start.addAll calls).tokens.map (·.name)
        = ((start.addAll calls).tokens.map Token.toTokenDecl).map (·.name) := List.map_map.symm
      _ = (ownDecls config.trackIndent ++ decls).map (·.name) := by rw [htokens, numbered_decls]
  refine ⟨s, hs, ?_⟩
  rw [hnumbered.tokens_of_emit hs, ← hnames]
  exact constants_entries _

end Lexer

namespace Sample

theorem additions_constants : ∃ start s, Lexer.ofDecls layoutConfig wordDecls = .ok start ∧
    (start.addAll additions).emit = .ok s ∧
    Lexer.Constants ((Lexer.ownDecls true ++ wordDecls).map (·.name)) s.tokens := by
  obtain ⟨start, hok⟩ : ∃ start, Lexer.ofDecls layoutConfig wordDecls = .ok start := ⟨_, rfl⟩
  obtain ⟨s, hs, hconstants⟩ := Lexer.addAll_constants hok additions
  exact ⟨start, s, hok, hs, hconstants⟩

def twinConstants : List String :=
  ["TINY_TERMINATION", "TINY_LEXING_FAILURE", "TINY_WORD", "TINY_WORD"]

end Sample

/-- Tokens may share a constant. Declarations whose names differ in letter case only are accepted,
and their tokens get one constant, in the generated lexer as in C. -/
theorem Lexer.constants_shared : ∃ start s,
    ofDecls Sample.plainConfig Sample.twinDecls = .ok start ∧ start.emit = .ok s ∧
    s.tokens.map (·.value) = [0, 1, 2, 3] ∧
    s.tokens.map (·.quexName) = Sample.twinConstants ∧
    s.tokens.map (·.cName) = Sample.twinConstants ∧ ¬ Sample.twinConstants.Nodup := by
  obtain ⟨start, hok, hvalues, hquex, hc⟩ : ∃ start,
      ofDecls Sample.plainConfig Sample.twinDecls = .ok start ∧
      start.entries.map (·.value) = [0, 1, 2, 3] ∧
      start.entries.map (·.quexName) = Sample.twinConstants ∧
      start.entries.map (·.cName) = Sample.twinConstants := by
    refine ⟨_, rfl, rfl, ?_, ?_⟩
    · cbv
    · cbv
  obtain ⟨-, -, hclosed⟩ := ofDecls_addAll hok []
  have hnumbered := ofDecls_numbered hok []
  obtain ⟨s, hs, -⟩ := hnumbered.emit_ok hclosed
  refine ⟨start, s, hok, hs, ?_⟩
  rw [hnumbered.tokens_of_emit hs]
  exact ⟨hvalues, hquex, hc, by decide⟩

end FrontEnd
