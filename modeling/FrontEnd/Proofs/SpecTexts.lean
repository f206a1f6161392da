import FrontEnd.Proofs.JsonTexts
import FrontEnd.Proofs.Rendering

namespace FrontEnd

open Json (Fits)

attribute [simp] Json.Fits.bool Json.Fits.int Json.Fits.text

namespace Json.Fits

variable {α : Type} {room : Nat}

theorem list_map {write : α → Value} {as : List α} (h : ∀ a ∈ as, Fits room (write a)) :
    Fits (room + 1) (.list (as.map write)) := list (List.forall_mem_map.mpr h)

@[simp]
theorem texts (ss : List String) : Fits (room + 1) (.texts ss) := list_map fun s _ => .text s

end Json.Fits

theorem TokenEntry.fits (t : TokenEntry) (room : Nat) : Fits (room + 1) t.toValue := by
  have hkeys : ["value", "name", "quex_name", "c_name", "ada_name", "retention",
    "start_ignore_layout", "end_ignore_layout"].Nodup := by decide
  exact .record hkeys (by simp [Value.nat, Retention.toValue])

theorem NamedPattern.fits (p : NamedPattern) (room : Nat) : Fits (room + 1) p.toValue := by
  have hkeys : ["name", "pattern"].Nodup := by decide
  exact .record hkeys (by simp)

theorem AltEntry.fits (a : AltEntry) (room : Nat) : Fits (room + 2) a.toValue := by
  have hkeys : ["prev_tokens", "send", "match_size"].Nodup := by decide
  exact .record hkeys (by simp [Value.nat])

theorem ActionEntry.fits (a : ActionEntry) (room : Nat) : Fits (room + 4) a.toValue := by
  cases a with
  | send token withLexeme =>
    have hkeys : ["kind", "token", "with_lexeme"].Nodup := by decide
    exact .record hkeys (by simp)
  | ignore => exact .record (List.nodup_singleton "kind") (by simp)
  | case maxMatchLen alts fallback =>
    have hkeys : ["kind", "max_match_len", "alts", "default"].Nodup := by decide
    have halts : Fits (room + 3) (.list (alts.map AltEntry.toValue)) :=
      .list_map fun a _ => a.fits room
    exact .record hkeys (by simp [Value.nat, halts, fallback.fits (room + 1)])

theorem RuleEntry.fits (r : RuleEntry) (room : Nat) : Fits (room + 5) r.toValue := by
  have hkeys : ["matcher", "action"].Nodup := by decide
  exact .record hkeys (by simp [r.action.fits room])

theorem LexerSpec.fits (s : LexerSpec) (room : Nat) : Fits (room + 7) s.toValue := by
  have hkeys : ["lang_name", "token_prefix", "track_indent", "tokens", "patterns", "rules"].Nodup :=
    by decide
  have htokens : Fits (room + 6) (.list (s.tokens.map TokenEntry.toValue)) :=
    .list_map fun t _ => t.fits (room + 4)
  have hpatterns : Fits (room + 6) (.list (s.patterns.map NamedPattern.toValue)) :=
    .list_map fun p _ => p.fits (room + 4)
  have hrules : Fits (room + 6) (.list (s.rules.map RuleEntry.toValue)) :=
    .list_map fun r _ => r.fits room
  exact .record hkeys (by simp [htokens, hpatterns, hrules])

theorem ActionEntry.ofValue_toValue {a : ActionEntry} (h : a.Sized) :
    ofValue? a.toValue = some a := by
  cases a with
  | send token withLexeme => rfl
  | ignore => rfl
  | case maxMatchLen alts fallback =>
    obtain ⟨hmax, hfallback, halts⟩ := h
    have hread : ofValue? (case maxMatchLen alts fallback).toValue = (do
        let maxMatchLen ← Value.size? (.nat maxMatchLen)
        let alts ← Value.list? AltEntry.ofValue? (.list (alts.map AltEntry.toValue))
        let fallback ← AltEntry.ofValue? fallback.toValue
        pure (case maxMatchLen alts fallback)) := rfl
    rw [hread, Value.size?, Value.natBelow_nat hmax,
      Value.list_map fun a ha => AltEntry.ofValue_toValue (halts a ha),
      AltEntry.ofValue_toValue hfallback]
    rfl

theorem RuleEntry.ofValue_toValue {r : RuleEntry} (h : r.action.Sized) :
    ofValue? r.toValue = some r := by
  have hread : ofValue? r.toValue = (do
      let action ← ActionEntry.ofValue? r.action.toValue
      pure { r with action }) := rfl
  rw [hread, ActionEntry.ofValue_toValue h]
  rfl

theorem LexerSpec.ofValue_toValue {s : LexerSpec} (h : s.Sized) : ofValue? s.toValue = some s := by
  have hread : ofValue? s.toValue = (do
      let tokens ← Value.list? TokenEntry.ofValue? (.list (s.tokens.map TokenEntry.toValue))
      let patterns ← Value.list? (NamedPattern.ofValue? .context)
        (.list (s.patterns.map NamedPattern.toValue))
      let rules ← Value.list? RuleEntry.ofValue? (.list (s.rules.map RuleEntry.toValue))
      pure { s with tokens, patterns, rules }) := rfl
  rw [hread, Value.list_map fun t ht => TokenEntry.ofValue_toValue (h.tokens t ht),
    Value.list_map fun p _ => p.ofValue_toValue,
    Value.list_map fun r hr => RuleEntry.ofValue_toValue (h.rules r hr)]
  rfl

namespace ActionEntry

def json (a : ActionEntry) : String := Json.text a.toValue

def ofJson? (text : String) : Option ActionEntry := Json.parse? text >>= ofValue?

theorem Sized.ofJson_json {a : ActionEntry} (h : a.Sized) : ofJson? a.json = some a := by
  have hparse : Json.parse? a.json = some a.toValue := (a.fits 123).parse_text
  rw [ofJson?, hparse]
  exact ofValue_toValue h

end ActionEntry

namespace LexerSpec

def json (s : LexerSpec) : String := Json.text s.toValue

def ofJson? (text : String) : Option LexerSpec := Json.parse? text >>= ofValue?

/-- A specification is read back from its fields and from its JSON text, and so is each action. So no
two actions have one text, whether they are of different kinds or two case rules of which one has for
its fallback what is an alternative of the other. -/
theorem json_determines :
    (∀ s : LexerSpec, s.Sized → ofValue? s.toValue = some s ∧ ofJson? s.json = some s) ∧
      (∀ a : ActionEntry, a.Sized → ActionEntry.ofJson? a.json = some a) ∧
      ∀ a b : ActionEntry, a.Sized → b.Sized → a.json = b.json → a = b := by
  refine ⟨?_, fun a ha => ha.ofJson_json, ?_⟩
  · intro s hs
    have hparse : Json.parse? s.json = some s.toValue := (s.fits 120).parse_text
    refine ⟨ofValue_toValue hs, ?_⟩
    rw [ofJson?, hparse]
    exact ofValue_toValue hs
  · intro a b ha hb hjson
    have hread : some a = some b := by rw [← ha.ofJson_json, hjson, hb.ofJson_json]
    exact Option.some.inj hread

end LexerSpec

namespace Sample

def choiceOr (guarded fallback : AltEntry) : ActionEntry := .case 65535 [guarded] fallback

def escapedSpec : LexerSpec where
  langName := "Tab\tand\x01"
  tokenPrefix := "\"\\"
  trackIndent := true
  tokens := [⟨65535, "Word", "é", "", "\n", .symbol, true, false⟩]
  patterns := [⟨"blank", "[ ]"⟩]
  rules := [⟨"a", .send "\"A\"" true⟩, ⟨"b", .ignore⟩,
    ⟨"c", choiceOr ⟨["\"A\""], "\r", 1⟩ ⟨[], "/", 18446744073709551615⟩⟩]

theorem escapedSpec_determined :
    escapedSpec.Sized ∧ LexerSpec.ofValue? escapedSpec.toValue = some escapedSpec ∧
      LexerSpec.ofJson? escapedSpec.json = some escapedSpec ∧
      ActionEntry.ofJson? (ActionEntry.send "A" false).json = some (.send "A" false) ∧
      (choiceOr ⟨[], "A", 1⟩ ⟨[], "B", 2⟩).json ≠ (choiceOr ⟨[], "B", 2⟩ ⟨[], "A", 1⟩).json := by
  have hsized : escapedSpec.Sized := by
    have hsize : 65535 < UInt64.size ∧ 1 < UInt64.size ∧ 18446744073709551615 < UInt64.size := by
      decide
    constructor
    · decide
    · simp [escapedSpec, choiceOr, ActionEntry.Sized, hsize]
  have hchoice (n m : Nat) (hn : n < UInt64.size) (hm : m < UInt64.size) (x y : String) :
      (choiceOr ⟨[], x, n⟩ ⟨[], y, m⟩).Sized := by
    have hmax : 65535 < UInt64.size := by decide
    simp [choiceOr, ActionEntry.Sized, hn, hm, hmax]
  obtain ⟨hspecs, hactions, hapart⟩ := LexerSpec.json_determines
  obtain ⟨hvalue, htext⟩ := hspecs escapedSpec hsized
  refine ⟨hsized, hvalue, htext, hactions (.send "A" false) trivial, ?_⟩
  intro hjson
  have heq := hapart _ _ (hchoice 1 2 (by decide) (by decide) "A" "B")
    (hchoice 2 1 (by decide) (by decide) "B" "A") hjson
  revert heq
  decide

end Sample

end FrontEnd
