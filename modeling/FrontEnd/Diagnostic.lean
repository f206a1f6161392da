namespace FrontEnd

/-- Bytes `start` to `stop` (exclusive) of the text numbered `fileId`. -/
structure Span where
  fileId : Nat
  start : Nat
  stop : Nat
  deriving DecidableEq

inductive Severity where
  | error
  | warning
  deriving DecidableEq

def Severity.word : Severity → String
  | .error => "error"
  | .warning => "warning"

structure Diagnostic where
  severity : Severity
  message : String
  code : Option String
  span : Option Span
  /-- What was being compiled when the finding was made. -/
  context : Option String
  deriving DecidableEq

namespace Diagnostic

def error (code message : String) : Diagnostic := ⟨.error, message, some code, none, none⟩

def warning (code message : String) : Diagnostic := ⟨.warning, message, some code, none, none⟩

/-- Says what was being compiled, unless that is known already. -/
def inContext (d : Diagnostic) (context : String) : Diagnostic :=
  { d with context := d.context <|> some context }

def isError (d : Diagnostic) : Bool := d.severity = .error

/-- One line: severity, code, context and place as far as known, then the message. -/
def display (d : Diagnostic) : String :=
  let code := d.code.elim "" fun code => "[" ++ code ++ "]"
  let context := d.context.elim "" fun context => " in " ++ context
  let place := d.span.elim "" fun span => s!" at {span.start}..{span.stop}"
  d.severity.word ++ code ++ context ++ place ++ ": " ++ d.message

end Diagnostic

end FrontEnd
