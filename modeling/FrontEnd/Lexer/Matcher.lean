namespace FrontEnd

inductive Matcher where
  | literal (text : String)
  | pattern (text : String)
  /-- A pattern that does not tell small letters from capitals. -/
  | noCase (text : String)
  /-- A pattern that was given a name. -/
  | named (name text : String)
  | eof
  /-- Input that nothing else matches. -/
  | failure
  deriving DecidableEq

namespace Matcher

/-- The matcher as the generated lexer writes it. -/
def text : Matcher → String
  | literal s => "\"" ++ s ++ "\""
  | pattern s => s
  | noCase s => "\\C\x7b" ++ s ++ "\x7d"
  | named name _ => "\x7b" ++ name ++ "\x7d"
  | eof => "<<EOF>>"
  | failure => "on_failure"

def isUnit (c : Char) : Bool := c.isAlphanum || c == '_' || c == '.' || c == '\''

/-- How many characters a pattern matches, if each of its characters matches exactly one; else the
pattern. -/
def fixedWidth (pattern : String) : Except String Nat :=
  if pattern.toList.all isUnit then .ok pattern.toList.length else .error pattern

/-- The most characters that the matcher takes; else what stands in the way. -/
def maxLength : Matcher → Except String Nat
  | literal s => .ok s.toList.length
  | pattern s | noCase s | named _ s => fixedWidth s
  | eof => .ok 0
  | failure => .error failure.text

end Matcher

end FrontEnd
