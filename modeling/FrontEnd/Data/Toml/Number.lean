import FrontEnd.Data.Toml.Digits
import FrontEnd.Data.Value

namespace FrontEnd.Toml

/-! Decimal numbers -/

def isNegative : List Char → Bool
  | '-' :: _ => true
  | _ => false

def skipSign : List Char → List Char
  | '+' :: cs | '-' :: cs => cs
  | cs => cs

/-- Reads the digits before the point; a number but zero does not begin with a zero. -/
def whole? : List Char → CharsRead
  | '0' :: cs => some (['0'], cs)
  | cs => digits? Char.isDigit cs

/-- Reads the digits behind the point, of which there are none without a point. -/
def places? : List Char → CharsRead
  | '.' :: cs => digits? Char.isDigit cs
  | cs => some ([], cs)

/-- The size of an exponent; digits behind one that is past 65535 already do not count. -/
def exponentSize (ds : List Char) : Nat :=
  ds.foldl (fun n c => if n < 65536 then 10 * n + (hexValue? c).getD 0 else n) 0

def exponent? : List Char → Option (Int × List Char)
  | 'e' :: cs | 'E' :: cs =>
    (digits? Char.isDigit (skipSign cs)).map fun p =>
      (if isNegative cs then -(exponentSize p.1 : Int) else exponentSize p.1, p.2)
  | cs => some (0, cs)

/-- What follows the digits of a number makes it one with a fraction or an exponent. -/
def isContinued : List Char → Bool
  | c :: _ => c == '.' || c == 'e' || c == 'E'
  | [] => false

/-- The least size that rounds to infinity: half a step above the greatest double. -/
def overflow : Nat := Nat.pow 2 1024 - Nat.pow 2 970

def isFinite (m : Nat) : Int → Bool
  | .ofNat e => m * Nat.pow 10 e < overflow
  | .negSucc e => m < overflow * Nat.pow 10 (e + 1)

/-- Reads the rest of a number with a fraction or an exponent; negative infinity passes. -/
def fraction? (negative : Bool) (whole rest : List Char) : Option (Value × List Char) := do
  let (places, rest) ← places? rest
  let (exponent, rest) ← exponent? rest
  if negative || isFinite (number 10 (whole ++ places)) (exponent - places.length) then
    some (.fraction, rest)
  else none

def int? (n : Int) : Option Value :=
  if -9223372036854775808 ≤ n ∧ n ≤ 9223372036854775807 then some (.int n) else none

def decimal? (cs : List Char) : Option (Value × List Char) := do
  let (whole, rest) ← whole? (skipSign cs)
  if isContinued rest then fraction? (isNegative cs) whole rest
  else
    let n : Int := number 10 whole
    (int? (if isNegative cs then -n else n)).map (·, rest)

/-! Numbers of every form -/

def based? (base : Nat) (cs : List Char) : Option (Value × List Char) := do
  let (ds, rest) ← digits? (fun c => (hexValue? c).any (· < base)) cs
  (int? (number base ds)).map (·, rest)

/-- Passes over the name of what is infinite or not a number. -/
def special? (cs : List Char) : Option (List Char) :=
  match skipSign cs with
  | 'i' :: 'n' :: 'f' :: cs | 'n' :: 'a' :: 'n' :: cs => some cs
  | _ => none

def number? : List Char → Option (Value × List Char)
  | '0' :: 'x' :: cs => based? 16 cs
  | '0' :: 'o' :: cs => based? 8 cs
  | '0' :: 'b' :: cs => based? 2 cs
  | cs =>
    match special? cs with
    | some rest => some (.fraction, rest)
    | none => decimal? cs

end FrontEnd.Toml
