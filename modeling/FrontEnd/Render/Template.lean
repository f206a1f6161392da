import FrontEnd.Lexer.Record
import FrontEnd.Lexer.Text
import FrontEnd.Property.Record

/-!
Templates. What is to be written is handed over as the name of a template and a value for it, so
that the texts can be made by another program; `Renderer.builtin` makes them itself.
-/
namespace FrontEnd

namespace Template

def lexerSpec : String := "lexer/quex_lexer_spec"

def caseAction : String := "lexer/case_action"

def property : String := "properties/property"

inductive Fault where
  | missing (key : String)
  | invalid (key : String)
  /-- The value as a whole is not what the template takes. -/
  | misfit (template : String)
  | unknown (template : String)
  deriving DecidableEq

def Fault.message : Fault → String
  | missing key => "missing template value " ++ key
  | invalid key => "invalid template value " ++ key
  | misfit template => template
  | unknown template => "unknown template " ++ template

def part {α : Type} (context : Value) (key : String) (read : Value → Option α) : Except Fault α :=
  match context.get? key with
  | none => .error (.missing key)
  | some v =>
    match read v with
    | none => .error (.invalid key)
    | some a => .ok a

def ruleText? (v : Value) : Option RuleText := do
  let f ← Fields.ofValue? .context ["matcher", "action"] v
  let matcher ← f.required "matcher" Value.text?
  let action ← f.required "action" Value.text?
  pure ⟨matcher, action⟩

def fillLexerSpec (context : Value) : Except Fault String := do
  let tokenPrefix ← part context "token_prefix" Value.text?
  let tokens ← part context "tokens" (Value.list? TokenEntry.ofValue?)
  let patterns ← part context "patterns" (Value.list? (NamedPattern.ofValue? .context))
  let rules ← part context "rules" (Value.list? ruleText?)
  pure (specText tokenPrefix tokens patterns rules)

def fillCaseAction (context : Value) : Except Fault String := do
  let maxMatchLen ← part context "max_match_len" Value.size?
  let alts ← part context "alts" (Value.list? AltEntry.ofValue?)
  let fallback ← part context "last_alt" AltEntry.ofValue?
  pure (caseText maxMatchLen alts fallback)

def fillProperty (context : Value) : Except Fault String :=
  match FunctionContext.ofValue? context with
  | none => .error (.misfit property)
  | some f => .ok f.text

def fill (template : String) (context : Value) : Except Fault String :=
  if template = lexerSpec then fillLexerSpec context
  else if template = caseAction then fillCaseAction context
  else if template = property then fillProperty context
  else .error (.unknown template)

end Template

/-- What makes texts from templates and values. -/
structure Renderer (m : Type → Type) where
  render : String → Value → m String

namespace Renderer

def builtin : Renderer (Except Error) where
  render template context := (Template.fill template context).mapError (.render ·.message)

variable {m : Type → Type} [Monad m]

def caseContext (maxMatchLen : Nat) (alts : List AltEntry) (fallback : AltEntry) : Value :=
  .record [("max_match_len", .nat maxMatchLen), ("alts", .list (alts.map AltEntry.toValue)),
    ("last_alt", fallback.toValue)]

def action (r : Renderer m) : ActionEntry → m String
  | .send token withLexeme => pure (sendText token withLexeme)
  | .ignore => pure "\x7b \x7d"
  | .case maxMatchLen alts fallback =>
    r.render Template.caseAction (caseContext maxMatchLen alts fallback)

def rule (r : Renderer m) (entry : RuleEntry) : m Value := do
  let action ← r.action entry.action
  pure (.record [("matcher", .text entry.matcher), ("action", .text action)])

def specContext (s : LexerSpec) (rules : List Value) : Value :=
  .record [("lang_name", .text s.langName), ("token_prefix", .text s.tokenPrefix),
    ("tokens", .list (s.tokens.map TokenEntry.toValue)),
    ("patterns", .list (s.patterns.map NamedPattern.toValue)), ("rules", .list rules)]

/-- The text of a lexer specification; the actions of case rules are rendered first. -/
def lexer (r : Renderer m) (s : LexerSpec) : m String := do
  let rules ← s.rules.mapM r.rule
  r.render Template.lexerSpec (specContext s rules)

def property (r : Renderer m) (p : Property) : m String :=
  r.render Template.property p.function.toValue

end Renderer

end FrontEnd
