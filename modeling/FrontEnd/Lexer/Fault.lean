import FrontEnd.Error

namespace FrontEnd

inductive LexerFault where
  | noMatcher
  | manyMatchers
  | actionCount
  | unknownPattern (name : String)
  /-- The exact name belongs to no token. -/
  | unknownName (name : String)
  /-- The text is neither a token's name nor that of a literal rule. -/
  | unknownSpelling (text : String)
  /-- No token has the name that was found for one. -/
  | unknownToken (name : String)
  | tokenTwice (name : String)
  | patternTwice (name : String)
  | sizeAboveMax (size max : Nat)
  | guardedLast
  | noAlternative
  | foreignKind (kind : Nat)
  | emptyGuard
  | tooManyTokens
  deriving DecidableEq

namespace LexerFault

def finding : LexerFault → Diagnostic
  | noMatcher =>
    .error "E0101" "malformed rule: no matcher (literal, pattern, no_case or named)"
  | manyMatchers => .error "E0101" "malformed rule: more than one matcher"
  | actionCount =>
    .error "E0101" "malformed rule: exactly one of token, ignore or case is required"
  | unknownPattern name => .error "E0101" ("unknown pattern " ++ name)
  | unknownName name =>
    .error "E0102" (name ++ " is not part of the valid tokens for this grammar")
  | unknownSpelling text =>
    .error "E0102" (text ++ " token literal is not part of the valid tokens for this grammar")
  | unknownToken name => .error "E0102" ("unknown token " ++ name)
  | tokenTwice name => .error "E0103" ("token " ++ name ++ " is declared twice")
  | patternTwice name => .error "E0104" ("pattern " ++ name ++ " is declared twice")
  | sizeAboveMax size max =>
    .error "E0105" (s!"match size for this case alternative ({size}) cannot be longer than " ++
      s!"the case matcher ({max} chars)")
  | guardedLast =>
    .error "E0106" "the last alternative to a case matcher must have no previous token condition"
  | noAlternative => .error "E0107" "a case rule needs at least one alternative"
  | foreignKind kind => .error "E0108" s!"token kind {kind} is not part of this lexer"
  | emptyGuard => .error "E0109" "case alternative has an empty previous token condition"
  | tooManyTokens => .error "E0110" "too many token kinds"

def toError (f : LexerFault) : Error := .specification f.finding

end LexerFault

end FrontEnd
