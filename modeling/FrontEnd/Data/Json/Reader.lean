import FrontEnd.Data.Toml.Number

namespace FrontEnd.Json

open Toml (CharsRead prepend hexNumber? isNegative isContinued skipSign)

def isBlank (c : Char) : Bool := c == ' ' || c == '\t' || c == '\n' || c == '\r'

def skipBlank (cs : List Char) : List Char := cs.dropWhile isBlank

/-! Strings -/

def codeUnit? (cs : List Char) : Option (Nat × List Char) :=
  if cs.length < 4 then none else (hexNumber? (cs.take 4)).map (·, cs.drop 4)

/-- The character of a code unit, or of two where one alone is no character. -/
def unicode? (cs : List Char) : Option (Char × List Char) := do
  let (first, cs) ← codeUnit? cs
  if h : first.isValidChar then some (Char.ofNatAux first h, cs)
  else
    match cs with
    | '\\' :: 'u' :: cs => do
      let (second, cs) ← codeUnit? cs
      if first < 0xDC00 ∧ 0xDC00 ≤ second ∧ second < 0xE000 then
        some (Char.ofNat (0x10000 + (first - 0xD800) * 0x400 + (second - 0xDC00)), cs)
      else none
    | _ => none

def escape? : List Char → Option (Char × List Char)
  | '"' :: cs => some ('"', cs)
  | '\\' :: cs => some ('\\', cs)
  | '/' :: cs => some ('/', cs)
  | 'b' :: cs => some ('\x08', cs)
  | 'f' :: cs => some ('\x0c', cs)
  | 'n' :: cs => some ('\n', cs)
  | 'r' :: cs => some ('\r', cs)
  | 't' :: cs => some ('\t', cs)
  | 'u' :: cs => unicode? cs
  | _ => none

/-- Reads a string of at most `limit` characters; its opening quote has been passed. -/
def characters? : Nat → List Char → CharsRead
  | limit + 1, c :: cs =>
    if c = '"' then some ([], cs)
    else if c = '\\' then (escape? cs).bind fun p => prepend p.1 (characters? limit p.2)
    else if c.toNat < 0x20 then none
    else prepend c (characters? limit cs)
  | _, _ => none

def string? : List Char → Option (String × List Char)
  | '"' :: cs => (characters? cs.length cs).map fun p => (String.ofList p.1, p.2)
  | _ => none

/-! Numbers -/

/-- Digits that may stand before the point: one, or several of which the first is not zero. -/
def isWhole : List Char → Bool
  | [] => false
  | [_] => true
  | c :: _ => c != '0'

def skipMinus : List Char → List Char
  | '-' :: cs => cs
  | cs => cs

def skipDigits? : List Char → Option (List Char)
  | c :: cs => if c.isDigit then some (cs.dropWhile Char.isDigit) else none
  | [] => none

def skipPlaces? : List Char → Option (List Char)
  | '.' :: cs => skipDigits? cs
  | cs => some cs

def skipExponent? : List Char → Option (List Char)
  | 'e' :: cs | 'E' :: cs => skipDigits? (skipSign cs)
  | cs => some cs

/-- A number without point and exponent; minus zero is no integer. -/
def integer (negative : Bool) (n : Nat) : Value :=
  if negative then if n = 0 then .fraction else .int (-n) else .int n

def number? (cs : List Char) : Option (Value × List Char) :=
  let whole := (skipMinus cs).takeWhile Char.isDigit
  let rest := (skipMinus cs).dropWhile Char.isDigit
  if !isWhole whole then none
  else if isContinued rest then
    (skipPlaces? rest >>= skipExponent?).map (.fraction, ·)
  else some (integer (isNegative cs) (Nat.ofDigitChars 10 whole 0), rest)

/-! Values -/

/-- How many lists and records may lie in each other. -/
def maxDepth : Nat := 127

variable {α : Type}

/-- Reads at most `limit` items, with a comma between two of them, up to behind the character that
closes them. -/
def moreItems? (close : Char) (item? : List Char → Option (α × List Char)) :
    Nat → List Char → Option (List α × List Char)
  | 0, _ => none
  | limit + 1, cs => do
    let (a, cs) ← item? cs
    match skipBlank cs with
    | [] => none
    | c :: cs =>
      if c = close then some ([a], cs)
      else if c = ',' then do
        let (as, cs) ← moreItems? close item? limit (skipBlank cs)
        some (a :: as, cs)
      else none

def items? (close : Char) (item? : List Char → Option (α × List Char)) (cs : List Char) :
    Option (List α × List Char) :=
  match skipBlank cs with
  | [] => none
  | c :: cs => if c = close then some ([], cs) else moreItems? close item? (cs.length + 1) (c :: cs)

def field? (value? : List Char → Option (Value × List Char)) (cs : List Char) :
    Option ((String × Value) × List Char) := do
  let (key, cs) ← string? cs
  match skipBlank cs with
  | ':' :: cs => do
    let (v, cs) ← value? (skipBlank cs)
    some ((key, v), cs)
  | _ => none

/-- The record of the fields, if each key stands once. -/
def record? (fields : List (String × Value)) : Option Value :=
  if (fields.map (·.1)).Nodup then some (.record fields) else none

def word? : List Char → Option (Value × List Char)
  | 'n' :: 'u' :: 'l' :: 'l' :: cs => some (.null, cs)
  | 't' :: 'r' :: 'u' :: 'e' :: cs => some (.bool true, cs)
  | 'f' :: 'a' :: 'l' :: 's' :: 'e' :: cs => some (.bool false, cs)
  | _ => none

/-- Reads a value in which no more than `room` lists and records lie in each other. -/
def value? : Nat → List Char → Option (Value × List Char)
  | _, [] => none
  | room, c :: cs =>
    if c = '"' then (string? (c :: cs)).map fun p => (.text p.1, p.2)
    else if c = '[' then
      match room with
      | 0 => none
      | room + 1 => (items? ']' (value? room) cs).map fun p => (.list p.1, p.2)
    else if c = '\x7b' then
      match room with
      | 0 => none
      | room + 1 => do
        let (fields, cs) ← items? '\x7d' (field? (value? room)) cs
        (record? fields).map (·, cs)
    else if c.isAlpha then word? (c :: cs)
    else number? (c :: cs)

def parse? (text : String) : Option Value :=
  match value? maxDepth (skipBlank text.toList) with
  | some (v, rest) => if (skipBlank rest).isEmpty then some v else none
  | none => none

end FrontEnd.Json
