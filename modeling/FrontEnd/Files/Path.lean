namespace FrontEnd.Path

def parts (path : String) : List String := path.splitOn "/"

/-- The parts that say something: a part that is empty or stays where it is does not. -/
def components (path : String) : List String := (parts path).filter fun p => p ≠ "" ∧ p ≠ "."

/-- The path of `name` inside the folder at `dir`; a name that begins at the root stays as it is. -/
def join (dir name : String) : String :=
  if name.startsWith "/" || dir = "" then name
  else if dir.endsWith "/" then dir ++ name
  else dir ++ "/" ++ name

/-- A path read backwards without what its end does not need. -/
def trimBackwards : List Char → List Char
  | ['/'] => ['/']
  | '/' :: cs => trimBackwards cs
  | '.' :: '/' :: cs => trimBackwards ('/' :: cs)
  | cs => cs
termination_by cs => cs.length

def parent (path : String) : String :=
  String.ofList (trimBackwards (path.toList.reverse.dropWhile (· ≠ '/'))).reverse

/-- A path and the paths of all folders it leads through, the path itself first; at most `limit` of
them. -/
def ancestors : Nat → String → List String
  | 0, _ => []
  | limit + 1, path =>
    if path = "" || path = "/" then [] else path :: ancestors limit (parent path)

/-- The last part of a path is a name with the given ending behind a point, and more before it. -/
def hasExtension (path ending : String) : Bool :=
  match (components path).getLast? with
  | none => false
  | some name =>
    (name.toList.reverse.takeWhile (· ≠ '.')).reverse == ending.toList &&
      ending.length + 1 < name.length

/-- A part stands before another by the first code point in which they differ. -/
def partBefore (a b : String) : Bool := a.toList.lex b.toList fun c d => c.toNat < d.toNat

def le (a b : String) : Bool := !(components b).lex (components a) partBefore

end FrontEnd.Path
