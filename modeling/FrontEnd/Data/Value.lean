namespace FrontEnd

inductive Value where
  | null
  | bool (value : Bool)
  | int (value : Int)
  /-- A number with a fraction or an exponent, which nothing here is described by. -/
  | fraction
  /-- A date or a time of day, which nothing here is described by either. -/
  | moment
  | text (value : String)
  | list (items : List Value)
  /-- Values by key, each key once, in the order of writing. -/
  | record (fields : List (String × Value))
  deriving Inhabited

namespace Value

def nat (n : Nat) : Value := int n

def texts (ss : List String) : Value := list (ss.map text)

/-- A value that may be absent; absence is written as null. -/
def optional {α : Type} (write : α → Value) : Option α → Value
  | some a => write a
  | none => null

def get? : Value → String → Option Value
  | record fields, key => fields.lookup key
  | _, _ => none

end Value

end FrontEnd
