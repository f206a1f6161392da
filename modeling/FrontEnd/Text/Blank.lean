namespace FrontEnd.Text

/-- The characters with the property White_Space. -/
def isBlank (c : Char) : Bool :=
  let n := c.toNat
  (0x9 ≤ n && n ≤ 0xd) || n == 0x20 || n == 0x85 || n == 0xa0 || n == 0x1680 ||
    (0x2000 ≤ n && n ≤ 0x200a) || n == 0x2028 || n == 0x2029 || n == 0x202f || n == 0x205f ||
    n == 0x3000

def trimEnd (cs : List Char) : List Char := (cs.reverse.dropWhile isBlank).reverse

def trim (cs : List Char) : List Char := trimEnd (cs.dropWhile isBlank)

theorem length_trim_le (cs : List Char) : (trim cs).length ≤ cs.length := by
  have h₁ := (List.dropWhile_sublist isBlank (l := cs)).length_le
  have h₂ := (List.dropWhile_sublist isBlank (l := (cs.dropWhile isBlank).reverse)).length_le
  simp only [trim, trimEnd, List.length_reverse] at *
  omega

end FrontEnd.Text
