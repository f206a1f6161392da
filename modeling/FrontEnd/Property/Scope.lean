namespace FrontEnd

structure Signature where
  owner : String
  name : String
  /-- The property receives the ambient environment as a parameter. -/
  hasImplicitEnv : Bool
  deriving DecidableEq

namespace Signature

def qualifiedName (s : Signature) : String := s.owner ++ "." ++ s.name

end Signature

structure Scope where
  property : Option Signature := none
  /-- An environment was bound explicitly. -/
  isBound : Bool := false
  /-- The variable that the ambient environment is read from. -/
  envName : String := "Current_Env"
  deriving DecidableEq

namespace Scope

def parameterName : String := "Current_Env"

def emptyEnvName : String := "AST_Envs.Empty_Env"

def hasAmbientEnv (s : Scope) : Bool := (s.property.any (·.hasImplicitEnv)) || s.isBound

def bind (s : Scope) : Scope := { s with isBound := true }

/-- The ambient environment is the value of the variable `name`. -/
def bindName (s : Scope) (name : String) : Scope := { s with isBound := true, envName := name }

/-- The surroundings of a property's body: its parameter if it has one, else no environment. -/
def bindDefault (s : Scope) (p : Signature) : Scope :=
  if p.hasImplicitEnv then ⟨some p, true, parameterName⟩
  else { s with property := some p, isBound := false }

end Scope

inductive Opening where
  | bind
  | bindName (name : String)
  | bindDefault (property : Signature)

def Opening.apply : Opening → Scope → Scope
  | bind, s => s.bind
  | bindName name, s => s.bindName name
  | bindDefault property, s => s.bindDefault property

end FrontEnd
