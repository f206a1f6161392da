import FrontEnd.Lexer.Store

namespace FrontEnd

structure TokenEntry where
  value : Nat
  name : String
  quexName : String
  cName : String
  adaName : String
  retention : Retention
  startIgnoreLayout : Bool
  endIgnoreLayout : Bool
  deriving DecidableEq

/-- An alternative of a case rule; the fallback has no tokens that have to come before. -/
structure AltEntry where
  prevTokens : List String
  send : String
  matchSize : Nat
  deriving DecidableEq

inductive ActionEntry where
  | send (token : String) (withLexeme : Bool)
  | ignore
  | case (maxMatchLen : Nat) (alts : List AltEntry) (fallback : AltEntry)
  deriving DecidableEq

structure RuleEntry where
  matcher : String
  action : ActionEntry
  deriving DecidableEq

structure LexerSpec where
  langName : String
  tokenPrefix : String
  trackIndent : Bool
  tokens : List TokenEntry
  patterns : List NamedPattern
  rules : List RuleEntry
  deriving DecidableEq

namespace Lexer

def sortedTokens (l : Lexer) : List Token := l.tokens.mergeSort fun t u => t.kind ≤ u.kind

def tokenEntry (l : Lexer) (t : Token) : Except LexerFault TokenEntry := do
  let name ← l.tokenName (.token t)
  pure {
    value := t.kind
    name := t.name.canonical
    quexName := l.quexName name
    cName := l.cName name
    adaName := l.adaName name
    retention := t.retention
    startIgnoreLayout := t.startsLayoutIgnore
    endIgnoreLayout := t.endsLayoutIgnore }

def constant (l : Lexer) (kind : Nat) : Except LexerFault String :=
  (l.tokenName (.kind kind)).map l.quexName

def altEntry (l : Lexer) (a : Alternative) : Except LexerFault AltEntry := do
  let prevTokens ← (a.guard.getD []).mapM l.constant
  let send ← l.constant a.send
  pure ⟨prevTokens, send, a.size⟩

/-- The entry of an action; a token that keeps no text is sent without one. -/
def actionEntry (l : Lexer) : Action → Except LexerFault ActionEntry
  | .send kind => do
    let t ← l.known kind
    pure (.send (l.quexName t.name) (t.retention ≠ .discard))
  | .ignore => pure .ignore
  | .case c => do
    let alts ← c.alternatives.mapM l.altEntry
    let fallback ← l.altEntry c.fallback
    pure (.case c.maxLength alts fallback)

def ruleEntry (l : Lexer) (r : Rule) : Except LexerFault RuleEntry := do
  pure ⟨r.matcher.text, ← l.actionEntry r.action⟩

def emit (l : Lexer) : Except LexerFault LexerSpec := do
  let tokens ← l.sortedTokens.mapM l.tokenEntry
  let rules ← l.rules.mapM l.ruleEntry
  pure {
    langName := l.config.langName.canonical
    tokenPrefix := l.config.tokenPrefix
    trackIndent := l.config.trackIndent
    tokens
    patterns := l.patterns
    rules }

end Lexer

end FrontEnd
