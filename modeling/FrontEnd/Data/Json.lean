import FrontEnd.Data.Value

namespace FrontEnd.Json

def hexDigit (n : Nat) : Char := Char.ofNat (if n < 10 then 48 + n else 87 + n)

def escapeChar (c : Char) : List Char :=
  if c = '"' then ['\\', '"']
  else if c = '\\' then ['\\', '\\']
  else if c = '\n' then ['\\', 'n']
  else if c = '\r' then ['\\', 'r']
  else if c = '\t' then ['\\', 't']
  else if c = '\x08' then ['\\', 'b']
  else if c = '\x0c' then ['\\', 'f']
  else if c.toNat < 0x20 then
    ['\\', 'u', '0', '0', hexDigit (c.toNat / 16), hexDigit (c.toNat % 16)]
  else [c]

def quote (s : String) : String := String.ofList ('"' :: s.toList.flatMap escapeChar ++ ['"'])

def newLine (level : Nat) : String := "\n" ++ String.ofList (List.replicate (2 * level) ' ')

def block (opening closing : String) (level : Nat) (items : List String) : String :=
  if items.isEmpty then opening ++ closing
  else
    opening ++ newLine (level + 1) ++ ("," ++ newLine (level + 1)).intercalate items ++
      newLine level ++ closing

mutual

/-- The JSON text of a value that begins at a level. -/
def textAt (level : Nat) : Value → String
  | .null | .fraction | .moment => "null"
  | .bool b => if b then "true" else "false"
  | .int n => toString n
  | .text s => quote s
  | .list items => block "[" "]" level (itemTexts (level + 1) items)
  | .record fields => block "\x7b" "\x7d" level (fieldTexts (level + 1) fields)

def itemTexts (level : Nat) : List Value → List String
  | [] => []
  | v :: vs => textAt level v :: itemTexts level vs

def fieldTexts (level : Nat) : List (String × Value) → List String
  | [] => []
  | (key, v) :: fields => (quote key ++ ": " ++ textAt level v) :: fieldTexts level fields

end

def text (v : Value) : String := textAt 0 v

end FrontEnd.Json
