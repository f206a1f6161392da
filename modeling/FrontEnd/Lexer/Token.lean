import FrontEnd.Name

namespace FrontEnd

inductive Retention where
  | discard
  | text
  /-- A text of its own, for tokens that the parser skips. -/
  | trivia
  /-- A text shared with all tokens that have the same. -/
  | symbol
  deriving DecidableEq

namespace Retention

def word : Retention → String
  | discard => "discard"
  | text => "text"
  | trivia => "trivia"
  | symbol => "symbol"

def ofWord? (w : String) : Option Retention := [discard, text, trivia, symbol].find? (·.word == w)

end Retention

structure TokenDecl where
  name : Name
  retention : Retention := .text
  /-- From this token on, layout makes no tokens. -/
  startsLayoutIgnore : Bool := false
  /-- From this token on, layout makes tokens again. -/
  endsLayoutIgnore : Bool := false
  deriving DecidableEq

/-- A token kind of a catalog: its number and its declaration. -/
structure Token extends TokenDecl where
  kind : Nat
  deriving DecidableEq

end FrontEnd
