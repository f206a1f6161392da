import FrontEnd.Lexer.Spec
import FrontEnd.Text.Ascii

namespace FrontEnd

namespace AltEntry

/-- The lines that take an alternative: characters beyond its size go back, then its token is
sent. -/
def lines (maxMatchLen : Nat) (a : AltEntry) : List String :=
  (if 0 < maxMatchLen - a.matchSize then [s!"self_seek_backward({maxMatchLen - a.matchSize});"]
    else []) ++ ["self_send(" ++ a.send ++ ");", "RETURN;"]

def condition (a : AltEntry) : String :=
  " || ".intercalate (a.prevTokens.map ("last_token_id == " ++ ·))

end AltEntry

def indentedLines (indent : String) (lines : List String) : String :=
  String.join (lines.map fun line => indent ++ line ++ "\n")

def caseText (maxMatchLen : Nat) (alts : List AltEntry) (fallback : AltEntry) : String :=
  "\x7b\n" ++
  String.join (alts.map fun a => "    if (" ++ a.condition ++ ") \x7b\n" ++
    indentedLines "        " (a.lines maxMatchLen) ++ "    \x7d\n") ++
  indentedLines "    " (fallback.lines maxMatchLen) ++ "\x7d"

def sendText (token : String) (withLexeme : Bool) : String :=
  if withLexeme then "=> " ++ token ++ "(Lexeme);" else "=> " ++ token ++ ";"

structure RuleText where
  matcher : String
  action : String
  deriving DecidableEq

/-- A text whose lines but the first are indented as entries of a block are. -/
def continued (s : String) : String :=
  String.ofList (s.toList.flatMap fun c => if c = '\n' then '\n' :: "    ".toList else [c])

def blockText (head : String) (entries : List String) : String :=
  head ++ " \x7b\n" ++ indentedLines "    " entries ++ "\x7d\n"

/-- The text of a specification, from the texts of its actions. -/
def specText (tokenPrefix : String) (tokens : List TokenEntry) (patterns : List NamedPattern)
    (rules : List RuleText) : String :=
  "token_prefix " ++ tokenPrefix ++ "\n\n" ++
  blockText "token" (tokens.map fun t => Text.upper t.name ++ ";") ++ "\n" ++
  blockText "define" (patterns.map fun p => p.name ++ " " ++ p.pattern) ++ "\n" ++
  blockText "mode Default_Mode" (rules.map fun r => r.matcher ++ " " ++ continued r.action)

namespace LexerSpec

def actionText : ActionEntry → String
  | .send token withLexeme => sendText token withLexeme
  | .ignore => "\x7b \x7d"
  | .case maxMatchLen alts fallback => caseText maxMatchLen alts fallback

def text (s : LexerSpec) : String :=
  specText s.tokenPrefix s.tokens s.patterns (s.rules.map fun r => ⟨r.matcher, actionText r.action⟩)

end LexerSpec

end FrontEnd
