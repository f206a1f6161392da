namespace FrontEnd.Text

def bytes (s : String) : List UInt8 := s.toByteArray.data.toList

/-- The part of a text between two offsets. There is none unless both are between characters. -/
def slice? (s : String) (start stop : Nat) : Option String :=
  if h : String.Pos.Raw.IsValid s ⟨start⟩ ∧ String.Pos.Raw.IsValid s ⟨stop⟩ ∧ start ≤ stop then
    some (s.extract ⟨⟨start⟩, h.1⟩ ⟨⟨stop⟩, h.2.1⟩)
  else none

end FrontEnd.Text
