import FrontEnd.Description

namespace FrontEnd.Description

def TokenSection.decl (t : TokenSection) : TokenDecl where
  name := .ofCamel t.name
  retention := t.retention
  startsLayoutIgnore := t.startsLayoutIgnore
  endsLayoutIgnore := t.endsLayoutIgnore

/-- The alternative with its tokens resolved, the one to send first. -/
def AltSection.alternative (l : FrontEnd.Lexer) (a : AltSection) :
    Except LexerFault Alternative := do
  let send ← l.kindOf (.text a.send)
  let guard ← match a.prev with
    | none => pure none
    | some prev => some <$> prev.mapM fun t => l.kindOf (.text t)
  pure ⟨guard, send, a.matchSize⟩

namespace RuleSection

def namedMatcher (l : FrontEnd.Lexer) (s : RuleSection) : Except LexerFault (Option Matcher) :=
  match s.named with
  | none => .ok none
  | some name =>
    match l.pattern? name with
    | none => .error (.unknownPattern name)
    | some m => .ok (some m)

/-- What the rule matches, which has to be said once. -/
def matcher (l : FrontEnd.Lexer) (s : RuleSection) : Except LexerFault Matcher := do
  let named ← s.namedMatcher l
  let written := [s.literal.map .literal, s.pattern.map .pattern, s.noCase.map .noCase]
  match (written ++ [named]).reduceOption with
  | [] => throw .noMatcher
  | [m] => pure m
  | _ => throw .manyMatchers

def actionCount (s : RuleSection) : Nat :=
  s.token.toList.length + (if s.ignore then 1 else 0) + s.case.toList.length

def ruleFor (l : FrontEnd.Lexer) (s : RuleSection) (m : Matcher) : Except Error Rule :=
  match s.token, s.case with
  | some token, _ =>
    ((l.kindOf (.text token)).mapError LexerFault.toError).map fun kind => ⟨m, .send kind⟩
  | none, some alts =>
    match (alts.mapM (AltSection.alternative l)).mapError LexerFault.toError with
    | .error e => .error e
    | .ok alternatives => Rule.ofCase m alternatives
  | none, none => .ok ⟨m, .ignore⟩

def rule (l : FrontEnd.Lexer) (s : RuleSection) : Except Error Rule :=
  match s.matcher l with
  | .error fault => .error fault.toError
  | .ok m =>
    if s.actionCount = 1 then s.ruleFor l m else .error LexerFault.actionCount.toError

end RuleSection

def lexerConfig (d : Description) : LexerConfig :=
  .ofLanguage d.name d.lexer.trackIndent d.lexer.tokenPrefix

/-- Adds rules in order; `number` is that of the first. -/
def addRules (language : String) (l : FrontEnd.Lexer) (number : Nat) :
    List RuleSection → Except Error FrontEnd.Lexer
  | [] => .ok l
  | s :: ss =>
    match s.rule l with
    | .error e => .error (e.inContext ("rule #" ++ toString number ++ " of " ++ language))
    | .ok r =>
      match l.addRules [r] with
      | .error e => .error e
      | .ok l => addRules language l (number + 1) ss

/-- The lexer with its tokens and patterns, before any rule of the description. -/
def bareLexer (d : Description) : Except Error FrontEnd.Lexer :=
  match Lexer.ofDecls d.lexerConfig (d.tokens.map TokenSection.decl) with
  | .error e => .error e
  | .ok l =>
    match l.addPatterns d.patterns with
    | (.error fault, _) => .error fault.toError
    | (.ok (), l) => .ok l

def toLexer (d : Description) : Except Error FrontEnd.Lexer := do
  let l ← d.bareLexer
  addRules d.name l 1 d.rules

end FrontEnd.Description
