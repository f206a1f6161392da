namespace FrontEnd.Toml

abbrev CharsRead := Option (List Char × List Char)

def prepend (c : Char) (r : CharsRead) : CharsRead := r.map fun p => (c :: p.1, p.2)

def hexValue? (c : Char) : Option Nat :=
  if c.isDigit then some (c.toNat - '0'.toNat)
  else if 'a' ≤ c ∧ c ≤ 'f' then some (c.toNat - 'a'.toNat + 10)
  else if 'A' ≤ c ∧ c ≤ 'F' then some (c.toNat - 'A'.toNat + 10)
  else none

def hexNumber? (cs : List Char) : Option Nat :=
  cs.foldlM (fun n c => (hexValue? c).map (16 * n + ·)) 0

def number (base : Nat) (ds : List Char) : Nat :=
  ds.foldl (fun n c => base * n + (hexValue? c).getD 0) 0

/-- Reads digits, each of which may stand behind an underscore. -/
def moreDigits? (isDigit : Char → Bool) : List Char → CharsRead
  | '_' :: d :: cs => if isDigit d then prepend d (moreDigits? isDigit cs) else none
  | c :: cs =>
    if isDigit c then prepend c (moreDigits? isDigit cs)
    else if c = '_' then none
    else some ([], c :: cs)
  | [] => some ([], [])

def digits? (isDigit : Char → Bool) : List Char → CharsRead
  | c :: cs => if isDigit c then prepend c (moreDigits? isDigit cs) else none
  | [] => none

end FrontEnd.Toml
