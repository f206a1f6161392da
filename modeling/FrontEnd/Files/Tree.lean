import FrontEnd.Files.System

namespace FrontEnd

inductive Tree where
  | file (bytes : List UInt8)
  | folder (entries : List (String × Tree))

namespace Tree

def at? (t : Tree) : List String → Option Tree
  | [] => some t
  | name :: names =>
    match t with
    | file _ => none
    | folder entries => (entries.lookup name).bind fun t => t.at? names

def entries : Tree → List (String × Tree)
  | file _ => []
  | folder entries => entries

/-- Puts `new` where the names lead, with the folders on the way. -/
def put (t : Tree) (new : Tree) : List String → Tree
  | [] => new
  | name :: names =>
    let entries := t.entries
    let inner := ((entries.lookup name).getD (folder [])).put new names
    if (entries.lookup name).isSome then
      folder (entries.map fun e => if e.1 == name then (name, inner) else e)
    else folder (entries ++ [(name, inner)])

def maxNameSize : Nat := 255

/-- Goes the parts of a path from the names gone so far, which are kept backwards. Each part is
looked up in a folder. -/
def follow (t : Tree) : (gone : List String) → List String → Except FileFault (List String)
  | gone, [] => .ok gone
  | gone, part :: parts =>
    match t.at? gone.reverse with
    | some (folder entries) =>
      if part = "" || part = "." then t.follow gone parts
      else if part = ".." then t.follow gone.tail parts
      else if maxNameSize < part.utf8ByteSize then .error .nameTooLong
      else if (entries.lookup part).isSome then t.follow (part :: gone) parts
      else .error .missing
    | some (file _) => .error .notFolder
    | none => .error .missing

def pathSizeLimit : Nat := 4096

/-- The names gone before the first part of a path: none if the path begins at the root, else those
of the folder `home`. -/
def start (home : List String) (path : String) : List String :=
  if path.startsWith "/" then [] else home.reverse

def pathFault? (path : String) : Option FileFault :=
  if path.contains '\x00' then some .nulInName
  else if path = "" then some .missing
  else if pathSizeLimit ≤ path.utf8ByteSize then some .nameTooLong
  else none

def find (t : Tree) (home : List String) (path : String) : Except FileFault Tree :=
  match pathFault? path with
  | some fault => .error fault
  | none =>
    match t.follow (start home path) (Path.parts path) with
    | .error fault => .error fault
    | .ok gone => (t.at? gone.reverse).elim (.error .missing) .ok

def read (t : Tree) (home : List String) (path : String) : Except FileFault (List UInt8) :=
  match t.find home path with
  | .ok (file bytes) => .ok bytes
  | .ok (folder _) => .error .isFolder
  | .error fault => .error fault

def isFolder (t : Tree) (home : List String) (path : String) : Bool :=
  match t.find home path with
  | .ok (folder _) => true
  | _ => false

def place (t : Tree) (home : List String) (path : String) :
    Except FileFault (List String × String) :=
  match pathFault? path with
  | some fault => .error fault
  | none =>
    let parts := (Path.parts path).reverse.dropWhile (· = "")
    match t.follow (start home path) parts.tail.reverse with
    | .error fault => .error fault
    | .ok gone =>
      let name := parts.head?.getD "."
      match t.at? gone.reverse with
      | some (folder _) =>
        if maxNameSize < name.utf8ByteSize then .error .nameTooLong else .ok (gone.reverse, name)
      | some (file _) => .error .notFolder
      | none => .error .missing

def makeFolder (t : Tree) (home : List String) (path : String) : Except FileFault Tree :=
  match t.place home path with
  | .error fault => .error fault
  | .ok (names, name) =>
    if name = "." || name = ".." || (t.at? (names ++ [name])).isSome then .error .alreadyThere
    else .ok (t.put (folder []) (names ++ [name]))

def write (t : Tree) (home : List String) (path : String) (bytes : List UInt8) :
    Except FileFault Tree :=
  match t.place home path with
  | .error fault => .error fault
  | .ok (names, name) =>
    if name = "." || name = ".." || path.endsWith "/" then .error .isFolder
    else
      match t.at? (names ++ [name]) with
      | some (folder _) => .error .isFolder
      | _ => .ok (t.put (file bytes) (names ++ [name]))

mutual

/-- All files, each with the path that leads to it when the tree itself is at `path`. -/
def files (path : String) : Tree → List (String × List UInt8)
  | file bytes => [(path, bytes)]
  | folder entries => entryFiles path entries

def entryFiles (path : String) : List (String × Tree) → List (String × List UInt8)
  | [] => []
  | (name, t) :: entries => files (Path.join path name) t ++ entryFiles path entries

end

def update (f : Tree → Except FileFault Tree) : StateM Tree (Except FileFault Unit) := do
  match f (← get) with
  | .error fault => pure (.error fault)
  | .ok t =>
    set t
    pure (.ok ())

/-- The tree as a file system, in which paths that do not begin at the root begin at `home`. -/
def fileSystem (home : List String) : FileSystem (StateM Tree) where
  isFolder path := return (← get).isFolder home path
  read path := return (← get).read home path
  write path bytes := update (·.write home path bytes)
  makeFolder path := update (·.makeFolder home path)
  filesIn path := return ((← get).find home path).map fun t => (t.files path).map (·.1)

end Tree

end FrontEnd
