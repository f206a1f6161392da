import FrontEnd.Diagnostic
import FrontEnd.Text.Slice

/-!
Tokens of the property language. A text is read byte by byte, and what is read is placed by its byte
offsets. All characters that the language knows take one byte; the bytes of another character are
passed over together.
-/
namespace FrontEnd.Expr

inductive TokenKind where
  | ident
  | int
  | string
  | bool
  | lParen
  | rParen
  | lBracket
  | rBracket
  | dot
  deriving DecidableEq

/-- What is cut off the front of a text. -/
inductive Cut where
  | blank
  /-- A token, whose text leaves out a margin on either side. -/
  | token (kind : TokenKind) (margin : Nat)
  | problem (code message : String)

namespace Cut

def isSpace (c : Char) : Bool := c == ' ' || c == '\t' || c == '\n' || c == '\r'

def isWordStart (c : Char) : Bool := c.isAlpha || c == '_'

def isWordRest (c : Char) : Bool := isWordStart c || c.isDigit

def isNumberRest (c : Char) : Bool := c.isDigit || c == '_'

def single? : Char → Option TokenKind
  | '(' => some .lParen
  | ')' => some .rParen
  | '[' => some .lBracket
  | ']' => some .rBracket
  | '.' => some .dot
  | _ => none

/-- The two words that are truth values; any other is an identifier. -/
def wordKind (cs : List Char) : TokenKind :=
  if cs = "true".toList || cs = "false".toList then .bool else .ident

/-- How many bytes stand before the first quote that is not behind a backslash. -/
def beforeQuote? : List UInt8 → Option Nat
  | [] => none
  | b :: bs =>
    if Char.ofUInt8 b = '"' then some 0
    else if Char.ofUInt8 b = '\\' then
      match bs with
      | [] => none
      | _ :: bs => (beforeQuote? bs).map (· + 2)
    else (beforeQuote? bs).map (· + 1)

/-- What is cut off, and how many bytes besides the first. A minus sign belongs to the number that
follows it at once, and the bytes that go on with a character to the byte that begins it. -/
def first (b : UInt8) (bs : List UInt8) : Cut × Nat :=
  let c := Char.ofUInt8 b
  if isSpace c then (blank, 0)
  else if let some kind := single? c then (token kind 0, 0)
  else if c = '"' then
    match beforeQuote? bs with
    | some n => (token .string 1, n + 1)
    | none => (problem "E0002" "unterminated string literal", bs.length)
  else if c.isDigit || (c == '-' && (bs.head?.map (Char.ofUInt8 · |>.isDigit)).getD false) then
    (token .int 0, (bs.takeWhile fun b => isNumberRest (.ofUInt8 b)).length)
  else if isWordStart c then
    let rest := bs.takeWhile fun b => isWordRest (.ofUInt8 b)
    (token (wordKind (c :: rest.map Char.ofUInt8)) 0, rest.length)
  else (problem "E0001" "unexpected character", (bs.takeWhile (!·.IsUTF8FirstByte)).length)

end Cut

structure Lexeme where
  /-- What the token is; the end is none. -/
  kind : Option TokenKind
  span : Span
  textStart : Nat
  textStop : Nat
  deriving DecidableEq

def Lexeme.text? (t : Lexeme) (source : String) : Option String :=
  Text.slice? source t.textStart t.textStop

structure Lexed where
  lexemes : List Lexeme
  problems : List Diagnostic

def Lexed.problem (code message : String) (span : Span) : Diagnostic :=
  { Diagnostic.error code message with span := some span }

/-- What is read where the cut takes the span before the rest. -/
def Cut.before (cut : Cut) (span : Span) (rest : Lexed) : Lexed :=
  match cut with
  | .blank => rest
  | .token kind margin =>
    { rest with lexemes :=
        ⟨some kind, span, span.start + margin, span.stop - margin⟩ :: rest.lexemes }
  | .problem code message =>
    { rest with problems := Lexed.problem code message span :: rest.problems }

/-- Reads the bytes of a text from the offset `start` on. -/
def lexFrom (fileId start : Nat) : List UInt8 → Lexed
  | [] => ⟨[⟨none, ⟨fileId, start, start⟩, start, start⟩], []⟩
  | b :: bs =>
    let stop := start + 1 + (Cut.first b bs).2
    (Cut.first b bs).1.before ⟨fileId, start, stop⟩
      (lexFrom fileId stop (bs.drop (Cut.first b bs).2))
termination_by bs => bs.length
decreasing_by simp only [List.length_drop, List.length_cons]; omega

def lex (fileId : Nat) (source : String) : Lexed := lexFrom fileId 0 (Text.bytes source)

/-- A token and where it stands; the span of a string literal includes its quotes, the text does
not. -/
structure Token where
  kind : TokenKind
  span : Span
  text : String
  deriving DecidableEq

structure Scan where
  tokens : List Token
  stop : Nat
  problems : List Diagnostic

namespace Scan

def ofLexemes (source : String) (problems : List Diagnostic) : List Lexeme → Scan
  | [] => ⟨[], source.utf8ByteSize, problems⟩
  | t :: ts =>
    match t.kind with
    | none => ⟨[], t.span.start, problems⟩
    | some kind =>
      let rest := ofLexemes source problems ts
      { rest with tokens := ⟨kind, t.span, (t.text? source).getD ""⟩ :: rest.tokens }

def ofText (fileId : Nat) (text : String) : Scan :=
  let lexed := lex fileId text
  ofLexemes text lexed.problems lexed.lexemes

end Scan

end FrontEnd.Expr
