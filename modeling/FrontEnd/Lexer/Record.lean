import FrontEnd.Data.Decode
import FrontEnd.Lexer.Spec

namespace FrontEnd

namespace Retention

def toValue (r : Retention) : Value := .text r.word

def ofValue? (r : Reading) : Value → Option Retention := Value.choice? r ofWord?

end Retention

namespace TokenEntry

def toValue (t : TokenEntry) : Value :=
  .record [("value", .nat t.value), ("name", .text t.name), ("quex_name", .text t.quexName),
    ("c_name", .text t.cName), ("ada_name", .text t.adaName),
    ("retention", t.retention.toValue), ("start_ignore_layout", .bool t.startIgnoreLayout),
    ("end_ignore_layout", .bool t.endIgnoreLayout)]

def ofValue? (v : Value) : Option TokenEntry := do
  let f ← Fields.ofValue? .context ["value", "name", "quex_name", "c_name", "ada_name", "retention",
    "start_ignore_layout", "end_ignore_layout"] v
  let value ← f.required "value" (Value.natBelow? Lexer.maxKinds)
  let name ← f.required "name" Value.text?
  let quexName ← f.required "quex_name" Value.text?
  let cName ← f.required "c_name" Value.text?
  let adaName ← f.required "ada_name" Value.text?
  let retention ← f.required "retention" (Retention.ofValue? .context)
  let startIgnoreLayout ← f.required "start_ignore_layout" Value.bool?
  let endIgnoreLayout ← f.required "end_ignore_layout" Value.bool?
  pure { value, name, quexName, cName, adaName, retention, startIgnoreLayout, endIgnoreLayout }

end TokenEntry

namespace NamedPattern

def toValue (p : NamedPattern) : Value :=
  .record [("name", .text p.name), ("pattern", .text p.pattern)]

def ofValue? (r : Reading) (v : Value) : Option NamedPattern := do
  let f ← Fields.ofValue? r ["name", "pattern"] v
  let name ← f.required "name" Value.text?
  let pattern ← f.required "pattern" Value.text?
  pure ⟨name, pattern⟩

end NamedPattern

namespace AltEntry

def toValue (a : AltEntry) : Value :=
  .record [("prev_tokens", .texts a.prevTokens), ("send", .text a.send),
    ("match_size", .nat a.matchSize)]

def ofValue? (v : Value) : Option AltEntry := do
  let f ← Fields.ofValue? .context ["prev_tokens", "send", "match_size"] v
  let prevTokens ← f.required "prev_tokens" (Value.list? Value.text?)
  let send ← f.required "send" Value.text?
  let matchSize ← f.required "match_size" Value.size?
  pure ⟨prevTokens, send, matchSize⟩

end AltEntry

namespace ActionEntry

/-- The action as a value, which tells its kind first. -/
def toValue : ActionEntry → Value
  | send token withLexeme =>
    .record [("kind", .text "send"), ("token", .text token), ("with_lexeme", .bool withLexeme)]
  | ignore => .record [("kind", .text "ignore")]
  | case maxMatchLen alts fallback =>
    .record [("kind", .text "case"), ("max_match_len", .nat maxMatchLen),
      ("alts", .list (alts.map AltEntry.toValue)), ("default", fallback.toValue)]

def ofKind? (kind : String) (v : Value) : Option ActionEntry :=
  match kind with
  | "send" => do
    let f ← Fields.ofValue? .context ["token", "with_lexeme"] v
    let token ← f.required "token" Value.text?
    let withLexeme ← f.required "with_lexeme" Value.bool?
    pure (send token withLexeme)
  | "ignore" => (Fields.ofValue? .context [] v).map fun _ => ignore
  | "case" => do
    let f ← Fields.ofValue? .context ["max_match_len", "alts", "default"] v
    let maxMatchLen ← f.required "max_match_len" Value.size?
    let alts ← f.required "alts" (Value.list? AltEntry.ofValue?)
    let fallback ← f.required "default" AltEntry.ofValue?
    pure (case maxMatchLen alts fallback)
  | _ => none

/-- Reads an action; in the form of a list its kind is the first item. -/
def ofValue? : Value → Option ActionEntry
  | .record entries =>
    match entries.lookup "kind" with
    | some (.text kind) => ofKind? kind (.record entries)
    | _ => none
  | .list (.text kind :: items) => ofKind? kind (.list items)
  | _ => none

end ActionEntry

namespace RuleEntry

def toValue (r : RuleEntry) : Value :=
  .record [("matcher", .text r.matcher), ("action", r.action.toValue)]

def ofValue? (v : Value) : Option RuleEntry := do
  let f ← Fields.ofValue? .context ["matcher", "action"] v
  let matcher ← f.required "matcher" Value.text?
  let action ← f.required "action" ActionEntry.ofValue?
  pure ⟨matcher, action⟩

end RuleEntry

namespace LexerSpec

def toValue (s : LexerSpec) : Value :=
  .record [("lang_name", .text s.langName), ("token_prefix", .text s.tokenPrefix),
    ("track_indent", .bool s.trackIndent), ("tokens", .list (s.tokens.map TokenEntry.toValue)),
    ("patterns", .list (s.patterns.map NamedPattern.toValue)),
    ("rules", .list (s.rules.map RuleEntry.toValue))]

def ofValue? (v : Value) : Option LexerSpec := do
  let f ← Fields.ofValue? .context ["lang_name", "token_prefix", "track_indent", "tokens",
    "patterns", "rules"] v
  let langName ← f.required "lang_name" Value.text?
  let tokenPrefix ← f.required "token_prefix" Value.text?
  let trackIndent ← f.required "track_indent" Value.bool?
  let tokens ← f.required "tokens" (Value.list? TokenEntry.ofValue?)
  let patterns ← f.required "patterns" (Value.list? (NamedPattern.ofValue? .context))
  let rules ← f.required "rules" (Value.list? RuleEntry.ofValue?)
  pure { langName, tokenPrefix, trackIndent, tokens, patterns, rules }

end LexerSpec

end FrontEnd
