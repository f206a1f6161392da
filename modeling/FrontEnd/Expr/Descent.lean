import FrontEnd.Error
import FrontEnd.Expr.Operation
import FrontEnd.Expr.Token

/-!
Reading expressions by recursive descent. An operation stands before its operands, a field access
behind its receiver. A cursor moves over the tokens and counts the expressions that are being read,
one inside the other; no more than `Expr.maxNesting` are let in.
-/
namespace FrontEnd.Expr

inductive ParseFault where
  | tooDeep
  | noFieldName
  | noClosingParen
  | noClosingBracket
  | unknownOperation (name : String)
  | invalidOperands (name : String)
  | integerRange
  | endOfInput
  | noExpression
  | trailing

def ParseFault.message : ParseFault → String
  | tooDeep => "expression nested too deeply"
  | noFieldName => "expected a field name after '.'"
  | noClosingParen => "expected ')'"
  | noClosingBracket => "expected ']'"
  | unknownOperation name => "unknown operation '" ++ name ++ "'"
  | invalidOperands name => "invalid operands for '" ++ name ++ "'"
  | integerRange => "integer literal out of range"
  | endOfInput => "unexpected end of input"
  | noExpression => "expected an expression"
  | trailing => "unexpected trailing input"

/-- A fault and the byte offset of the token at which it is noticed. -/
structure ParseError where
  fault : ParseFault
  position : Nat

def ParseError.message (e : ParseError) : String :=
  e.fault.message ++ " at byte " ++ toString e.position

def unescape : List Char → List Char
  | [] => []
  | ['\\'] => ['\\']
  | '\\' :: 'n' :: cs => '\n' :: unescape cs
  | '\\' :: 't' :: cs => '\t' :: unescape cs
  | '\\' :: c :: cs => c :: unescape cs
  | c :: cs => c :: unescape cs

def withoutUnderscores (text : String) : String :=
  String.ofList (text.toList.filter (· != '_'))

def int64Value? (text : String) : Option Int64 :=
  (withoutUnderscores text).toInt?.bind fun n =>
    if -9223372036854775808 ≤ n ∧ n ≤ 9223372036854775807 then some (Int64.ofInt n) else none

/-- The tokens of a text before its end, and the offset at which the text ends. -/
structure Stream where
  tokens : Array Token
  stop : Nat

/-- Where the token begins; no token is the end. -/
def Stream.place (s : Stream) (t : Option Token) : Nat := t.elim s.stop (·.span.start)

/-- The reader of expressions is called, or returns. -/
inductive Event where
  | called
  | returned
  deriving DecidableEq

structure Cursor where
  /-- How many tokens are passed. -/
  position : Nat := 0
  /-- How many expressions are being read, one inside the other. -/
  depth : Nat := 0
  /-- The calls of the reader and their returns so far, the last event first. It is kept to tell how
  a reading went; reading never looks at it. -/
  history : List Event := []

namespace Cursor

def advance (c : Cursor) : Cursor := { c with position := c.position + 1 }

def noteCall (c : Cursor) : Cursor := { c with history := .called :: c.history }

def noteReturn (c : Cursor) : Cursor := { c with history := .returned :: c.history }

def enter (c : Cursor) : Cursor := { c with depth := c.depth + 1 }

def leave (c : Cursor) : Cursor := { c with depth := c.depth - 1 }

end Cursor

/-- A step of reading. One that fails leaves a cursor, too; one that never ends has no outcome. -/
abbrev Parser := ExceptT ParseError (StateT Cursor Option)

def Parser.outcome {α : Type} (m : Parser α) (c : Cursor) :
    Option (Except ParseError α × Cursor) :=
  m.run.run c

namespace Stream

def peek (s : Stream) : Parser (Option Token) := do
  return s.tokens[(← get).position]?

def ahead (s : Stream) : Parser (Option TokenKind) := do
  return (← s.peek).map (·.kind)

/-- Passes the token ahead. The end is never passed. -/
def next (s : Stream) : Parser (Option Token) := do
  match ← s.peek with
  | none => return none
  | some t =>
    modify Cursor.advance
    return some t

def fail {α : Type} (s : Stream) (t : Option Token) (fault : ParseFault) : Parser α :=
  throw ⟨fault, s.place t⟩

def expect (s : Stream) (kind : TokenKind) (fault : ParseFault) : Parser Token := do
  match ← s.next with
  | none => s.fail none fault
  | some t => if t.kind = kind then return t else s.fail t fault

def fields (s : Stream) (e : Expr) : Parser Expr := do
  match ← s.ahead with
  | some .dot =>
    let _ ← s.next
    let t ← s.expect .ident .noFieldName
    s |>.fields (.field e t.text)
  | _ => return e
partial_fixpoint

mutual

/-- Reads an expression. The call returns, whether one is read or not. -/
def expression (s : Stream) : Parser Expr :=
  (do
    modify Cursor.noteCall
    let r ← (s |>.admitted).run
    modify Cursor.noteReturn
    return r : StateT Cursor Option (Except ParseError Expr))
partial_fixpoint

/-- Reads an expression, if one more may be let in inside those that are being read. -/
def admitted (s : Stream) : Parser Expr := do
  if maxNesting ≤ (← get).depth then s.fail (← s.peek) .tooDeep
  else
    (do
      modify Cursor.enter
      let r ← (s |>.chain).run
      modify Cursor.leave
      return r : StateT Cursor Option (Except ParseError Expr))
partial_fixpoint

def chain (s : Stream) : Parser Expr := do
  let e ← s |>.primary
  s.fields e
partial_fixpoint

def primary (s : Stream) : Parser Expr := do
  match ← s.next with
  | none => s.fail none .endOfInput
  | some t =>
    match t.kind with
    | .int =>
      match int64Value? t.text with
      | some n => return .literal (.int n)
      | none => s.fail t .integerRange
    | .string => return .literal (.text (String.ofList (unescape t.text.toList)))
    | .bool => return .ofBool (t.text == "true")
    | .lParen =>
      let e ← s |>.expression
      let _ ← s.expect .rParen .noClosingParen
      return e
    | .lBracket =>
      let es ← s |>.elements
      let _ ← s.expect .rBracket .noClosingBracket
      return .array es
    | .ident => s |>.named t
    | .rParen | .rBracket | .dot => s.fail t .noExpression
partial_fixpoint

/-- Reads expressions up to a closing bracket or the end. -/
def elements (s : Stream) : Parser (List Expr) := do
  match ← s.ahead with
  | none | some .rBracket => return []
  | _ =>
    let e ← s |>.expression
    let es ← s |>.elements
    return e :: es
partial_fixpoint

/-- Reads what the word begins: a word for a node or an environment stands alone, an operation takes
its operands. -/
def named (s : Stream) (t : Token) : Parser Expr :=
  match t.text with
  | "Self" => return .self
  | "Env" => return .env
  | "EmptyEnv" => return .emptyEnv
  | word =>
    match Operation.ofName? word with
    | none => s.fail t (.unknownOperation word)
    | some op => do
      let es ← s |>.operands op.arity
      match op.build? es with
      | none => s.fail t (.invalidOperands word)
      | some e => return e
partial_fixpoint

def operands (s : Stream) : Nat → Parser (List Expr)
  | 0 => return []
  | n + 1 => do
    let e ← s |>.expression
    let es ← s |>.operands n
    return e :: es
partial_fixpoint

end

def whole (s : Stream) : Parser Expr := do
  let e ← s.expression
  match ← s.peek with
  | none => return e
  | some t => s.fail t .trailing

end Stream

end FrontEnd.Expr
