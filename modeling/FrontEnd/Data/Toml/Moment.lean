import FrontEnd.Data.Toml.Digits

namespace FrontEnd.Toml

/-- Reads a number from `low` to `high` that is written in `n` digits. -/
def part? (n low high : Nat) (cs : List Char) : Option (Nat × List Char) :=
  let ds := cs.take n
  let k := number 10 ds
  if ds.length = n ∧ ds.all Char.isDigit ∧ low ≤ k ∧ k ≤ high then some (k, cs.drop n) else none

def mark? (mark : Char) : List Char → Option (List Char)
  | c :: cs => if c = mark then some cs else none
  | [] => none

def isLeap (year : Nat) : Bool := year % 4 == 0 && (year % 100 != 0 || year % 400 == 0)

def days (year month : Nat) : Nat :=
  if month = 2 then if isLeap year then 29 else 28
  else if month = 4 ∨ month = 6 ∨ month = 9 ∨ month = 11 then 30
  else 31

def date? (cs : List Char) : Option (List Char) := do
  let (year, cs) ← part? 4 0 9999 cs
  let cs ← mark? '-' cs
  let (month, cs) ← part? 2 1 12 cs
  let cs ← mark? '-' cs
  let (_, cs) ← part? 2 1 (days year month) cs
  some cs

def skipSecondPart : List Char → List Char
  | '.' :: d :: cs => if d.isDigit then cs.dropWhile Char.isDigit else '.' :: d :: cs
  | cs => cs

def clock? (cs : List Char) : Option (List Char) := do
  let (_, cs) ← part? 2 0 23 cs
  let cs ← mark? ':' cs
  let (_, cs) ← part? 2 0 59 cs
  some cs

/-- Passes over a time of day, which may lie in a leap second. -/
def time? (cs : List Char) : Option (List Char) := do
  let cs ← clock? cs
  let cs ← mark? ':' cs
  let (_, cs) ← part? 2 0 60 cs
  some (skipSecondPart cs)

/-- Passes over the distance of a time from that of the zero meridian. -/
def offset? : List Char → Option (List Char)
  | 'Z' :: cs | 'z' :: cs => some cs
  | '+' :: cs | '-' :: cs => clock? cs
  | _ => none

def timeOfDate? : List Char → Option (List Char)
  | 'T' :: cs | 't' :: cs | ' ' :: cs => (time? cs).map fun cs => (offset? cs).getD cs
  | _ => none

/-- Passes over a date, a date with a time, or a time. -/
def moment? (cs : List Char) : Option (List Char) :=
  match date? cs with
  | some cs => some ((timeOfDate? cs).getD cs)
  | none => time? cs

end FrontEnd.Toml
