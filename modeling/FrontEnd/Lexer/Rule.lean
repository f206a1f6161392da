import FrontEnd.Lexer.Fault
import FrontEnd.Lexer.Matcher

namespace FrontEnd

structure Alternative where
  /-- The tokens one of which has to come before; without a guard the alternative always applies. -/
  guard : Option (List Nat)
  send : Nat
  /-- How many characters are kept; the rest goes back to the input. -/
  size : Nat
  deriving DecidableEq

/-- A choice by the token that was made before. -/
structure CaseAction where
  maxLength : Nat
  alternatives : List Alternative
  /-- Taken when no alternative applies. -/
  fallback : Alternative
  deriving DecidableEq

namespace CaseAction

def alternativeFault? (max : Nat) (a : Alternative) : Option LexerFault :=
  if max < a.size then some (.sizeAboveMax a.size max)
  else if a.guard = some [] then some .emptyGuard
  else none

/-- The case action with the given alternatives; the last is taken when no other applies. -/
def ofAlternatives (max : Nat) (alternatives : List Alternative) :
    Except LexerFault CaseAction :=
  match alternatives.findSome? (alternativeFault? max) with
  | some fault => .error fault
  | none =>
    match alternatives.getLast? with
    | none => .error .noAlternative
    | some last =>
      if last.guard.isSome then .error .guardedLast
      else .ok ⟨max, alternatives.dropLast, last⟩

/-- All alternatives, the fallback last. -/
def all (c : CaseAction) : List Alternative := c.alternatives ++ [c.fallback]

end CaseAction

inductive Action where
  | send (kind : Nat)
  | ignore
  | case (action : CaseAction)
  deriving DecidableEq

def Action.kinds : Action → List Nat
  | send kind => [kind]
  | ignore => []
  | case c => c.all.flatMap fun a => a.send :: a.guard.getD []

structure Rule where
  matcher : Matcher
  action : Action
  deriving DecidableEq

namespace Rule

/-- The rule that chooses an alternative for what the matcher takes. -/
def ofCase (matcher : Matcher) (alternatives : List Alternative) : Except Error Rule :=
  match matcher.maxLength with
  | .error pattern => .error (.unknownExtent pattern)
  | .ok max =>
    match CaseAction.ofAlternatives max alternatives with
    | .error fault => .error (fault.toError.inContext ("case rule " ++ matcher.text))
    | .ok action => .ok ⟨matcher, .case action⟩

end Rule

end FrontEnd
