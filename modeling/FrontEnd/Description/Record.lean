import FrontEnd.Description
import FrontEnd.Lexer.Record

namespace FrontEnd.Description

namespace LexerSection

def ofValue? (r : Reading) (v : Value) : Option LexerSection := do
  let f ← Fields.ofValue? r ["track_indent", "token_prefix"] v
  let trackIndent ← f.orDefault "track_indent" false Value.bool?
  let tokenPrefix ← f.optional "token_prefix" Value.text?
  pure { trackIndent, tokenPrefix }

def toValue (s : LexerSection) : Value :=
  .record [("track_indent", .bool s.trackIndent),
    ("token_prefix", .optional .text s.tokenPrefix)]

end LexerSection

namespace TokenSection

def ofValue? (r : Reading) (v : Value) : Option TokenSection := do
  let f ← Fields.ofValue? r ["name", "retention", "starts_layout_ignore", "ends_layout_ignore"] v
  let name ← f.required "name" Value.text?
  let retention ← f.orDefault "retention" .text (Retention.ofValue? r)
  let startsLayoutIgnore ← f.orDefault "starts_layout_ignore" false Value.bool?
  let endsLayoutIgnore ← f.orDefault "ends_layout_ignore" false Value.bool?
  pure { name, retention, startsLayoutIgnore, endsLayoutIgnore }

def toValue (t : TokenSection) : Value :=
  .record [("name", .text t.name), ("retention", t.retention.toValue),
    ("starts_layout_ignore", .bool t.startsLayoutIgnore),
    ("ends_layout_ignore", .bool t.endsLayoutIgnore)]

end TokenSection

namespace AltSection

def ofValue? (r : Reading) (v : Value) : Option AltSection := do
  let f ← Fields.ofValue? r ["prev", "send", "match_size"] v
  let prev ← f.optional "prev" (Value.list? Value.text?)
  let send ← f.required "send" Value.text?
  let matchSize ← f.required "match_size" Value.size?
  pure { prev, send, matchSize }

def toValue (a : AltSection) : Value :=
  .record [("prev", .optional .texts a.prev), ("send", .text a.send),
    ("match_size", .nat a.matchSize)]

end AltSection

namespace RuleSection

def ofValue? (r : Reading) (v : Value) : Option RuleSection := do
  let f ← Fields.ofValue? r
    ["literal", "pattern", "no_case", "named", "token", "ignore", "case"] v
  let literal ← f.optional "literal" Value.text?
  let pattern ← f.optional "pattern" Value.text?
  let noCase ← f.optional "no_case" Value.text?
  let named ← f.optional "named" Value.text?
  let token ← f.optional "token" Value.text?
  let ignore ← f.orDefault "ignore" false Value.bool?
  let case ← f.optional "case" (Value.list? (AltSection.ofValue? r))
  pure { literal, pattern, noCase, named, token, ignore, case }

def toValue (s : RuleSection) : Value :=
  .record [("literal", .optional .text s.literal), ("pattern", .optional .text s.pattern),
    ("no_case", .optional .text s.noCase), ("named", .optional .text s.named),
    ("token", .optional .text s.token), ("ignore", .bool s.ignore),
    ("case", .optional (fun alts => .list (alts.map AltSection.toValue)) s.case)]

end RuleSection

namespace FieldSection

def ofValue? (r : Reading) (v : Value) : Option FieldSection := do
  let f ← Fields.ofValue? r ["name", "type"] v
  let name ← f.required "name" Value.text?
  let ty ← f.required "type" Value.text?
  pure { name, ty }

def toValue (s : FieldSection) : Value :=
  .record [("name", .text s.name), ("type", .text s.ty)]

end FieldSection

namespace NodeSection

def ofValue? (r : Reading) (v : Value) : Option NodeSection := do
  let f ← Fields.ofValue? r ["name", "base", "fields"] v
  let name ← f.required "name" Value.text?
  let base ← f.optional "base" Value.text?
  let fields ← f.orDefault "fields" [] (Value.list? (FieldSection.ofValue? r))
  pure { name, base, fields }

def toValue (n : NodeSection) : Value :=
  .record [("name", .text n.name), ("base", .optional .text n.base),
    ("fields", .list (n.fields.map FieldSection.toValue))]

end NodeSection

namespace PropertySection

def ofValue? (r : Reading) (v : Value) : Option PropertySection := do
  let f ← Fields.ofValue? r ["owner", "name", "implicit_env", "type", "expr"] v
  let owner ← f.required "owner" Value.text?
  let name ← f.required "name" Value.text?
  let implicitEnv ← f.orDefault "implicit_env" false Value.bool?
  let ty ← f.optional "type" Value.text?
  let expr ← f.required "expr" Value.text?
  pure { owner, name, implicitEnv, ty, expr }

def toValue (p : PropertySection) : Value :=
  .record [("owner", .text p.owner), ("name", .text p.name), ("implicit_env", .bool p.implicitEnv),
    ("type", .optional .text p.ty), ("expr", .text p.expr)]

end PropertySection

def ofValue? (r : Reading) (source : String) (v : Value) : Option Description := do
  let f ← Fields.ofValue? r
    ["name", "lexer", "tokens", "patterns", "rules", "nodes", "properties"] v
  let name ← f.required "name" Value.text?
  let lexer ← f.orDefault "lexer" {} (LexerSection.ofValue? r)
  let tokens ← f.orDefault "tokens" [] (Value.list? (TokenSection.ofValue? r))
  let patterns ← f.orDefault "patterns" [] (Value.list? (NamedPattern.ofValue? r))
  let rules ← f.orDefault "rules" [] (Value.list? (RuleSection.ofValue? r))
  let nodes ← f.orDefault "nodes" [] (Value.list? (NodeSection.ofValue? r))
  let properties ← f.orDefault "properties" [] (Value.list? (PropertySection.ofValue? r))
  pure { name, lexer, tokens, patterns, rules, nodes, properties, source }

/-- The description as a value, with nothing left out but where it was read. -/
def toValue (d : Description) : Value :=
  .record [("name", .text d.name), ("lexer", d.lexer.toValue),
    ("tokens", .list (d.tokens.map TokenSection.toValue)),
    ("patterns", .list (d.patterns.map NamedPattern.toValue)),
    ("rules", .list (d.rules.map RuleSection.toValue)),
    ("nodes", .list (d.nodes.map NodeSection.toValue)),
    ("properties", .list (d.properties.map PropertySection.toValue))]

end FrontEnd.Description
