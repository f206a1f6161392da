import FrontEnd.Text.Ascii

/-!
Names of several words. A name is kept in its canonical spelling, capitalised words joined by
underscores, and shown in the spelling that its use asks for.
-/
namespace FrontEnd

/-- A name, held in its canonical spelling such as `Lexing_Failure`. -/
structure Name where
  canonical : String
  deriving DecidableEq

namespace Name

/-- The name spelled `LexingFailure`. -/
def ofCamel (s : String) : Name := ⟨String.ofList (Text.separateCapitals none s.toList)⟩

/-- The name spelled `lexing_failure`. -/
def ofLower (s : String) : Name := ⟨String.ofList (Text.capitalizeWords true s.toList)⟩

/-- The name spelled `LEXING_FAILURE`. -/
def ofUpper (s : String) : Name := ofLower (Text.lower s)

def camel (n : Name) : String := String.ofList (n.canonical.toList.filter (· != '_'))

def lower (n : Name) : String := Text.lower n.canonical

def upper (n : Name) : String := Text.upper n.canonical

def join (n m : Name) : Name := ⟨n.canonical ++ "_" ++ m.canonical⟩

/-- A spelling designates the name if it is the name's lower or camel spelling up to letter case. -/
def matchesLoosely (n : Name) (spelling : String) : Bool :=
  Text.lower spelling == n.lower || Text.lower spelling == Text.lower n.camel

end Name

end FrontEnd
