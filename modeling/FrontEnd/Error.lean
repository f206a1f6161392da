import FrontEnd.Diagnostic
import FrontEnd.Text.Quoted

namespace FrontEnd

inductive Error where
  | unreadable (reason : String)
  | description (path message : String)
  /-- A property's text has a character or a literal that belongs to no token. -/
  | lexical (position : Nat) (message : String)
  /-- The tokens of a property's text make no expression. -/
  | parse (message : String)
  | specification (finding : Diagnostic)
  | typing (finding : Diagnostic)
  /-- A case rule stands on a pattern whose longest match is not known. -/
  | unknownExtent (pattern : String)
  /-- A template cannot be filled. -/
  | render (message : String)
  deriving DecidableEq

namespace Error

def display : Error → String
  | unreadable reason => "failed to read source: " ++ reason
  | description path message => "invalid language description " ++ path ++ ": " ++ message
  | lexical position message => s!"lex error at byte {position}: " ++ message
  | parse message => "parse error: " ++ message
  | specification finding => "specification error: " ++ finding.display
  | typing finding => "type error: " ++ finding.display
  | unknownExtent pattern =>
    "cannot compute the maximum number of characters this pattern will accept: " ++
      Text.quote pattern
  | render message => "render error: " ++ message

def diagnostic? : Error → Option Diagnostic
  | specification finding | typing finding => some finding
  | _ => none

/-- Says what was being compiled, if the error carries a diagnostic that does not know it yet. -/
def inContext (e : Error) (context : String) : Error :=
  match e with
  | specification finding => specification (finding.inContext context)
  | typing finding => typing (finding.inContext context)
  | other => other

def require (condition : Bool) (e : Error) : Except Error Unit :=
  if condition then .ok () else .error e

end Error

end FrontEnd
