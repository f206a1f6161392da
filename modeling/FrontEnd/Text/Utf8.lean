namespace FrontEnd.Text

/-- How many bytes have to follow a first byte, and the least and greatest the next may be. -/
def continuation? (b : Nat) : Option (Nat × Nat × Nat) :=
  if b < 0x80 then some (0, 0x80, 0xbf)
  else if 0xc2 ≤ b ∧ b ≤ 0xdf then some (1, 0x80, 0xbf)
  else if b = 0xe0 then some (2, 0xa0, 0xbf)
  else if b = 0xed then some (2, 0x80, 0x9f)
  else if 0xe1 ≤ b ∧ b ≤ 0xef then some (2, 0x80, 0xbf)
  else if b = 0xf0 then some (3, 0x90, 0xbf)
  else if 0xf1 ≤ b ∧ b ≤ 0xf3 then some (3, 0x80, 0xbf)
  else if b = 0xf4 then some (3, 0x80, 0x8f)
  else none

def continued : (n low high : Nat) → List UInt8 → Nat
  | n + 1, low, high, b :: bs =>
    if low ≤ b.toNat ∧ b.toNat ≤ high then continued n 0x80 0xbf bs + 1 else 0
  | _, _, _, _ => 0

/-- The bits that a first byte gives to the code point; the first argument is the number of bytes
behind it. -/
def leadBits : Nat → Nat → Nat
  | 0, b => b
  | 1, b => b % 32
  | 2, b => b % 16
  | _, b => b % 8

def codePoint (lead : Nat) (bs : List UInt8) : Nat :=
  bs.foldl (fun k b => 64 * k + b.toNat % 64) (leadBits bs.length lead)

/-- The character that begins with the byte, if there is one, and how many further bytes are used
up. -/
def firstChar (b : UInt8) (bs : List UInt8) : Option Char × Nat :=
  match continuation? b.toNat with
  | none => (none, 0)
  | some (n, low, high) =>
    let k := continued n low high bs
    if k = n then (some (Char.ofNat (codePoint b.toNat (bs.take n))), n) else (none, k)

/-- The characters of a byte sequence, with a gap for each part that is none. -/
def characters : List UInt8 → List (Option Char)
  | [] => []
  | b :: bs => (firstChar b bs).1 :: characters (bs.drop (firstChar b bs).2)
termination_by bs => bs.length
decreasing_by simp only [List.length_drop, List.length_cons]; omega

def ofUtf8? (bs : List UInt8) : Option String := ((characters bs).mapM id).map String.ofList

/-- The text of the bytes, with U+FFFD for each part that is no character. -/
def ofUtf8Lossy (bs : List UInt8) : String :=
  String.ofList ((characters bs).map (·.getD '\ufffd'))

end FrontEnd.Text
