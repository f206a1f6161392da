import FrontEnd.Data.Toml.Moment
import FrontEnd.Data.Toml.Number

namespace FrontEnd.Toml

/-! Characters and lines -/

def isSpace (c : Char) : Bool := c == ' ' || c == '\t'

/-- A character that may stand in a text: no control but the tab. -/
def isText (c : Char) : Bool := c == '\t' || (0x20 ≤ c.toNat && c.toNat ≠ 0x7f)

def isBare (c : Char) : Bool := c.isAlphanum || c == '_' || c == '-'

def skipSpace (cs : List Char) : List Char := cs.dropWhile isSpace

def newline? : List Char → Option (List Char)
  | '\n' :: cs | '\r' :: '\n' :: cs => some cs
  | _ => none

def skipLines : List Char → List Char
  | '\r' :: '\n' :: cs => skipLines cs
  | c :: cs => if isSpace c || c == '\n' then skipLines cs else c :: cs
  | [] => []

def skipComment : List Char → List Char
  | '#' :: cs => cs.dropWhile isText
  | cs => cs

/-- Passes over what may stand between a line's last part and the next line. -/
def lineEnd? (cs : List Char) : Option (List Char) :=
  match skipComment (skipSpace cs) with
  | [] => some []
  | cs => newline? cs

/-- Passes over space, comments and line ends; `limit` bounds their number. -/
def skipBlank : Nat → List Char → List Char
  | 0, cs => cs
  | limit + 1, cs =>
    match skipComment (skipSpace cs) with
    | [] => []
    | cs =>
      match newline? cs with
      | none => cs
      | some rest => skipBlank limit rest

/-! Strings -/

def codePoint? (n : Nat) (cs : List Char) : Option (Char × List Char) :=
  if cs.length < n then none
  else do
    let k ← hexNumber? (cs.take n)
    if h : k.isValidChar then some (Char.ofNatAux k h, cs.drop n) else none

def escape? : List Char → Option (Char × List Char)
  | 'b' :: cs => some ('\x08', cs)
  | 't' :: cs => some ('\t', cs)
  | 'n' :: cs => some ('\n', cs)
  | 'f' :: cs => some ('\x0c', cs)
  | 'r' :: cs => some ('\r', cs)
  | '"' :: cs => some ('"', cs)
  | '\\' :: cs => some ('\\', cs)
  | 'u' :: cs => codePoint? 4 cs
  | 'U' :: cs => codePoint? 8 cs
  | _ => none

def basic : Nat → List Char → CharsRead
  | limit + 1, c :: cs =>
    if c = '"' then some ([], cs)
    else if c = '\\' then (escape? cs).bind fun p => prepend p.1 (basic limit p.2)
    else if isText c then prepend c (basic limit cs)
    else none
  | _, _ => none

def verbatim : List Char → CharsRead
  | [] => none
  | c :: cs =>
    if c = '\'' then some ([], cs) else if isText c then prepend c (verbatim cs) else none

/-- Passes over a line end behind a backslash and all space and line ends after it. -/
def continuation? (cs : List Char) : Option (List Char) := (newline? (skipSpace cs)).map skipLines

/-- Reads a string of several lines; its three opening quotes have been passed. Up to two quotes
stand for themselves, also before the three that close the string. -/
def multiline (quote : Char) (escapes : Bool) : Nat → List Char → CharsRead
  | limit + 1, c :: cs =>
    if c = quote then
      let run := ((c :: cs).takeWhile (· == quote)).length
      let rest := (c :: cs).drop run
      if 5 < run then none
      else if 3 ≤ run then some (List.replicate (run - 3) quote, rest)
      else (multiline quote escapes limit rest).map fun p => (List.replicate run quote ++ p.1, p.2)
    else if escapes && c == '\\' then
      match continuation? cs with
      | some rest => multiline quote escapes limit rest
      | none => (escape? cs).bind fun p => prepend p.1 (multiline quote escapes limit p.2)
    else
      match newline? (c :: cs) with
      | some rest => prepend '\n' (multiline quote escapes limit rest)
      | none => if isText c then prepend c (multiline quote escapes limit cs) else none
  | _, _ => none

/-- The text of a string of several lines, whose first line end does not count. -/
def multilineText (quote : Char) (escapes : Bool) (cs : List Char) : CharsRead :=
  multiline quote escapes cs.length ((newline? cs).getD cs)

def string? : List Char → CharsRead
  | '"' :: '"' :: '"' :: cs => multilineText '"' true cs
  | '\'' :: '\'' :: '\'' :: cs => multilineText '\'' false cs
  | '"' :: cs => basic cs.length cs
  | '\'' :: cs => verbatim cs
  | _ => none

/-! Tables -/

/-- How a table came to be. -/
inductive Origin where
  /-- By a header of its own, or as the whole file. -/
  | header
  /-- By the header of a table inside. -/
  | implied
  /-- By a key of several parts. -/
  | dotted
  deriving DecidableEq

inductive Node where
  | value (v : Value)
  | table (origin : Origin) (entries : List (String × Node))
  /-- Tables of one name, each with a header of its own. -/
  | tables (items : List Node)

mutual

def Node.toValue : Node → Value
  | .value v => v
  | .table _ entries => .record (entryValues entries)
  | .tables items => .list (nodeValues items)

def entryValues : List (String × Node) → List (String × Value)
  | [] => []
  | (key, n) :: entries => (key, n.toValue) :: entryValues entries

def nodeValues : List Node → List Value
  | [] => []
  | n :: ns => n.toValue :: nodeValues ns

end

abbrev Entries := List (String × Node)

def replace (key : String) (n : Node) (entries : Entries) : Entries :=
  entries.map fun e => if e.1 == key then (key, n) else e

/-- Changes the table that a path leads to, making the tables on the way that are not there. A key
of several parts must not lead through a table that has a header. -/
def change (isDotted : Bool) (f : Origin → Entries → Option Entries) :
    List String → Origin → Entries → Option Entries
  | [], origin, entries => f origin entries
  | key :: path, _, entries =>
    match entries.lookup key with
    | none => do
      let origin := if isDotted then .dotted else .implied
      let inner ← change isDotted f path origin []
      some (entries ++ [(key, .table origin inner)])
    | some (.value _) => none
    | some (.table origin inner) =>
      if isDotted && origin == .header then none
      else do
        let inner ← change isDotted f path origin inner
        some (replace key (.table origin inner) entries)
    | some (.tables items) =>
      match items.getLast? with
      | some (.table origin inner) => do
        let inner ← change isDotted f path origin inner
        some (replace key (.tables (items.dropLast ++ [.table origin inner])) entries)
      | _ => none

/-- Adds an entry to a table, by a key of one or more parts; a key of several parts must not end in
a table that was made otherwise. -/
def insert (path : List String) (key : String) (v : Value) (origin : Origin) (entries : Entries) :
    Option Entries :=
  change true (fun last entries =>
    if (last == .dotted) == path.isEmpty then none
    else if (entries.lookup key).isSome then none
    else some (entries ++ [(key, .value v)])) path origin entries

def openTable (path : List String) (key : String) (root : Entries) : Option Entries :=
  change false (fun _ entries =>
    match entries.lookup key with
    | none => some (entries ++ [(key, .table .header [])])
    | some (.table .implied inner) => some (replace key (.table .header inner) entries)
    | some _ => none) path .header root

/-- Opens a further table of a name that several tables have. -/
def openItem (path : List String) (key : String) (root : Entries) : Option Entries :=
  change false (fun _ entries =>
    match entries.lookup key with
    | none => some (entries ++ [(key, .tables [.table .header []])])
    | some (.tables items) => some (replace key (.tables (items ++ [.table .header []])) entries)
    | some _ => none) path .header root

/-! Keys and values -/

def keyPart? : List Char → Option (String × List Char)
  | '"' :: cs => (basic cs.length cs).map fun p => (String.ofList p.1, p.2)
  | '\'' :: cs => (verbatim cs).map fun p => (String.ofList p.1, p.2)
  | cs =>
    if (cs.takeWhile isBare).isEmpty then none
    else some (String.ofList (cs.takeWhile isBare), cs.dropWhile isBare)

/-- Reads a key of at most `limit` parts: those before the last, the last, and what follows. -/
def key? : Nat → List Char → Option (List String × String × List Char)
  | 0, _ => none
  | limit + 1, cs => do
    let (part, cs) ← keyPart? (skipSpace cs)
    match skipSpace cs with
    | '.' :: cs => do
      let (path, last, cs) ← key? limit cs
      some (part :: path, last, cs)
    | cs => some ([], part, cs)

/-- How many parts a key may have, and how many lists and tables may lie in each other. -/
def maxDepth : Nat := 79

mutual

/-- Reads a value, in which no more than `limit` steps are made and no more than `room` lists and
tables lie in each other. -/
def value? : Nat → Nat → List Char → Option (Value × List Char)
  | 0, _, _ => none
  | limit + 1, room, cs =>
    match cs with
    | '"' :: _ | '\'' :: _ => (string? cs).map fun p => (.text (String.ofList p.1), p.2)
    | '[' :: cs =>
      if room = 0 then none
      else (items? limit (room - 1) (skipBlank limit cs)).map fun p => (.list p.1, p.2)
    | '\x7b' :: cs =>
      if room = 0 then none
      else
        match skipSpace cs with
        | '\x7d' :: cs => some (.record [], cs)
        | cs => (entries? limit (room - 1) [] cs).map fun p => (.record (entryValues p.1), p.2)
    | 't' :: 'r' :: 'u' :: 'e' :: cs => some (.bool true, cs)
    | 'f' :: 'a' :: 'l' :: 's' :: 'e' :: cs => some (.bool false, cs)
    | cs =>
      match moment? cs with
      | some cs => some (.moment, cs)
      | none => number? cs

def items? : Nat → Nat → List Char → Option (List Value × List Char)
  | 0, _, _ => none
  | limit + 1, room, cs =>
    match cs with
    | ']' :: cs => some ([], cs)
    | cs => do
      let (v, cs) ← value? limit room cs
      match skipBlank limit cs with
      | ']' :: cs => some ([v], cs)
      | ',' :: cs => do
        let (vs, cs) ← items? limit room (skipBlank limit cs)
        some (v :: vs, cs)
      | _ => none

def entries? : Nat → Nat → Entries → List Char → Option (Entries × List Char)
  | 0, _, _, _ => none
  | limit + 1, room, entries, cs => do
    let (path, key, cs) ← key? maxDepth cs
    match cs with
    | '=' :: cs => do
      let (v, cs) ← value? limit room (skipSpace cs)
      let entries ← insert path key v .header entries
      match skipSpace cs with
      | '\x7d' :: cs => some (entries, cs)
      | ',' :: cs => entries? limit room entries cs
      | _ => none
    | _ => none

end

/-! Files -/

/-- What has been read of a file: its tables, and the path to the one that entries go to. -/
structure Reader where
  root : Entries := []
  current : List String := []

def header? (brackets : List Char) (cs : List Char) :
    Option (List String × String × List Char) := do
  let (path, key, cs) ← key? maxDepth cs
  if brackets.isPrefixOf cs then some (path, key, ← lineEnd? (cs.drop brackets.length)) else none

def statement? (limit : Nat) (r : Reader) : List Char → Option (Reader × List Char)
  | '[' :: '[' :: cs => do
    let (path, key, cs) ← header? [']', ']'] cs
    some (⟨← openItem path key r.root, path ++ [key]⟩, cs)
  | '[' :: cs => do
    let (path, key, cs) ← header? [']'] cs
    some (⟨← openTable path key r.root, path ++ [key]⟩, cs)
  | cs => do
    let (path, key, cs) ← key? maxDepth cs
    match cs with
    | '=' :: cs => do
      let (v, cs) ← value? limit maxDepth (skipSpace cs)
      let root ← change false (insert path key v) r.current .header r.root
      some ({ r with root }, ← lineEnd? cs)
    | _ => none

def statements? (limit : Nat) : Nat → Reader → List Char → Option Reader
  | 0, _, _ => none
  | count + 1, r, cs =>
    match skipBlank limit cs with
    | [] => some r
    | cs => do
      let (r, cs) ← statement? limit r cs
      statements? limit count r cs

/-- Reads a file; a byte order mark at its start does not count. -/
def parse? (text : String) : Option Value :=
  let cs := match text.toList with
    | '\ufeff' :: cs => cs
    | cs => cs
  let limit := 2 * cs.length + 2
  (statements? limit limit {} cs).map fun r => .record (entryValues r.root)

end FrontEnd.Toml
