namespace FrontEnd.Text

def lower (s : String) : String := s.map Char.toLower

def upper (s : String) : String := s.map Char.toUpper

/-- Puts an underscore before each capital that follows a character other than an underscore;
`before` is the character just passed. -/
def separateCapitals : Option Char → List Char → List Char
  | _, [] => []
  | none, c :: cs => c :: separateCapitals (some c) cs
  | some p, c :: cs =>
    if c.isUpper && p != '_' then '_' :: c :: separateCapitals (some c) cs
    else c :: separateCapitals (some c) cs

/-- Makes the first letter of each word capital; words are separated by underscores and `start` says
that a word begins here. -/
def capitalizeWords : Bool → List Char → List Char
  | _, [] => []
  | start, c :: cs => (if start then c.toUpper else c) :: capitalizeWords (c == '_') cs

end FrontEnd.Text
