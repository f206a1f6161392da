import FrontEnd.Lexer.Rule
import FrontEnd.Lexer.Token

/-!
The definition of a lexer: its token catalog, which is fixed from the start, and the patterns and
rules added to it. The first rule that matches wins, so rules keep the order in which they are
added.
-/
namespace FrontEnd

structure NamedPattern where
  name : String
  pattern : String
  deriving DecidableEq

structure LexerConfig where
  langName : Name
  /-- Layout makes tokens for indentation and line ends. -/
  trackIndent : Bool
  tokenPrefix : String
  deriving DecidableEq

/-- The configuration for a language; without a prefix of its own, the constants begin with the
language's name. -/
def LexerConfig.ofLanguage (language : String) (trackIndent : Bool) (tokenPrefix : Option String) :
    LexerConfig :=
  let name := Name.ofCamel language
  ⟨name, trackIndent, tokenPrefix.getD (name.upper ++ "_")⟩

structure Lexer where
  config : LexerConfig
  tokens : List Token
  patterns : List NamedPattern := []
  rules : List Rule := []
  /-- The token of each literal that a rule sends, latest first. -/
  literals : List (String × Nat) := []
  warnings : List Diagnostic := []

inductive TokenRef where
  /-- A token, perhaps of another lexer; its kind counts. -/
  | token (t : Token)
  | kind (kind : Nat)
  | name (name : Name)
  /-- A token's name in any spelling, or the text of a literal rule. -/
  | text (text : String)

namespace Lexer

def maxKinds : Nat := 65536

def terminationKind : Nat := 0

def failureKind : Nat := 1

def newlineKind : Nat := 4

/-- The token kinds that every lexer has; those for layout only where it is tracked. -/
def ownDecls (trackIndent : Bool) : List TokenDecl :=
  let names := ["Termination", "LexingFailure"] ++
    if trackIndent then ["Indent", "Dedent", "Newline"] else []
  names.map fun name => { name := .ofCamel name }

/-- Numbers the declarations behind the tokens of a catalog. -/
def register (catalog : List Token) : List TokenDecl → Except LexerFault (List Token)
  | [] => .ok catalog
  | d :: ds =>
    if catalog.any (·.name == d.name) then .error (.tokenTwice d.name.canonical)
    else if maxKinds ≤ catalog.length then .error .tooManyTokens
    else register (catalog ++ [{ d with kind := catalog.length }]) ds

def newline? (l : Lexer) : Option Nat := if l.config.trackIndent then some newlineKind else none

def token? (l : Lexer) (kind : Nat) : Option Token := l.tokens[kind]?

def literal? (l : Lexer) (text : String) : Option Nat := l.literals.lookup text

/-- The named pattern of that name in any letter case, as a matcher. -/
def pattern? (l : Lexer) (name : String) : Option Matcher :=
  (l.patterns.find? fun p => Text.lower p.name == Text.lower name).map fun p =>
    .named p.name p.pattern

/-- Adds patterns in order, up to the first whose name is taken. -/
def addPatterns (l : Lexer) : List NamedPattern → Except LexerFault Unit × Lexer
  | [] => (.ok (), l)
  | p :: ps =>
    if l.patterns.any (·.name == p.name) then (.error (.patternTwice p.name), l)
    else addPatterns { l with patterns := l.patterns ++ [p] } ps

def foreignKind? (l : Lexer) (r : Rule) : Option Nat :=
  r.action.kinds.find? fun kind => (l.token? kind).isNone

def known (l : Lexer) (kind : Nat) : Except LexerFault Token :=
  match l.token? kind with
  | some t => .ok t
  | none => .error (.foreignKind kind)

def rebound (l : Lexer) (text : String) (now before : Nat) : Except LexerFault Diagnostic := do
  let now ← l.known now
  let before ← l.known before
  pure (.warning "E0111" ("literal \"" ++ text ++ "\" is now mapped to " ++ now.name.canonical ++
    " instead of " ++ before.name.canonical))

/-- The warning due when a literal's rule sends a kind. -/
def reboundWarning? (l : Lexer) (text : String) (kind : Nat) :
    Except LexerFault (Option Diagnostic) :=
  match l.literal? text with
  | none => .ok none
  | some before => if before = kind then .ok none else (l.rebound text kind before).map some

def bindLiteral (l : Lexer) (text : String) (kind : Nat) : Except LexerFault Lexer := do
  let warning ← l.reboundWarning? text kind
  pure { l with literals := (text, kind) :: l.literals, warnings := l.warnings ++ warning.toList }

def addRule (l : Lexer) (r : Rule) : Except LexerFault Lexer := do
  let l ← match r.matcher, r.action with
    | .literal text, .send kind => l.bindLiteral text kind
    | _, _ => pure l
  pure { l with rules := l.rules ++ [r] }

/-- Adds rules in order, up to the first that cannot be added. -/
def appendRules (l : Lexer) : List Rule → Except LexerFault Unit × Lexer
  | [] => (.ok (), l)
  | r :: rs =>
    match l.addRule r with
    | .error fault => (.error fault, l)
    | .ok l => appendRules l rs

def foreignRule? (l : Lexer) (rs : List Rule) : Option Error :=
  rs.findSome? fun r => (l.foreignKind? r).map fun kind =>
    (LexerFault.foreignKind kind).toError.inContext ("rule " ++ r.matcher.text)

/-- Adds rules in order. All of them are checked before the first one is added. -/
def extend (l : Lexer) (rs : List Rule) : Except Error Unit × Lexer :=
  match l.foreignRule? rs with
  | some e => (.error e, l)
  | none => ((l.appendRules rs).1.mapError LexerFault.toError, (l.appendRules rs).2)

def addRules (l : Lexer) (rs : List Rule) : Except Error Lexer :=
  (l.extend rs).1.map fun _ => (l.extend rs).2

def ownRules (l : Lexer) : List Rule :=
  [⟨.eof, .send terminationKind⟩, ⟨.failure, .send failureKind⟩] ++
    l.newline?.toList.map fun kind => ⟨.literal "\\n", .send kind⟩

/-- The lexer with the declared tokens and no patterns or rules but its own. -/
def ofDecls (config : LexerConfig) (decls : List TokenDecl) : Except Error Lexer :=
  match register [] (ownDecls config.trackIndent ++ decls) with
  | .error fault => .error fault.toError
  | .ok tokens =>
    let l : Lexer := { config, tokens }
    l.addRules l.ownRules

/-- The token that is referred to. A text is first taken for a token's name. -/
def resolve (l : Lexer) : TokenRef → Except LexerFault Token
  | .token t => l.known t.kind
  | .kind kind => l.known kind
  | .name name =>
    match l.tokens.find? (·.name == name) with
    | some t => .ok t
    | none => .error (.unknownName name.canonical)
  | .text text =>
    match l.tokens.find? (·.name.matchesLoosely text) with
    | some t => .ok t
    | none =>
      match l.literal? text with
      | some kind => l.known kind
      | none => .error (.unknownSpelling text)

def tokenName (l : Lexer) (r : TokenRef) : Except LexerFault Name := (l.resolve r).map (·.name)

/-- The kind of the token that is referred to, looked up by the name that the reference gives. -/
def kindOf (l : Lexer) (r : TokenRef) : Except LexerFault Nat := do
  let name ← l.tokenName r
  match l.tokens.find? (·.name == name) with
  | some t => pure t.kind
  | none => throw (.unknownToken name.canonical)

/-- The constant of a token name in the generated lexer. -/
def quexName (l : Lexer) (name : Name) : String := l.config.tokenPrefix ++ name.upper

def cName (l : Lexer) (name : Name) : String := (l.config.langName.join name).upper

def adaName (l : Lexer) (name : Name) : String := (l.config.langName.join name).canonical

end Lexer

end FrontEnd
