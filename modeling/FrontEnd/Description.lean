import FrontEnd.Lexer.Store

namespace FrontEnd

namespace Description

structure LexerSection where
  trackIndent : Bool := false
  /-- Takes the place of the prefix made from the language's name. -/
  tokenPrefix : Option String := none

structure TokenSection where
  name : String
  retention : Retention
  startsLayoutIgnore : Bool
  endsLayoutIgnore : Bool

structure AltSection where
  /-- The tokens that guard the alternative; the last one has none. -/
  prev : Option (List String)
  send : String
  matchSize : Nat

/-- A rule. One of the first four keys says what it matches, one of the others what it does. -/
structure RuleSection where
  literal : Option String
  pattern : Option String
  noCase : Option String
  named : Option String
  token : Option String
  ignore : Bool
  case : Option (List AltSection)

structure FieldSection where
  name : String
  ty : String

structure NodeSection where
  name : String
  base : Option String
  fields : List FieldSection

structure PropertySection where
  owner : String
  name : String
  implicitEnv : Bool
  ty : Option String
  expr : String

end Description

structure Description where
  name : String
  lexer : Description.LexerSection
  tokens : List Description.TokenSection
  patterns : List NamedPattern
  rules : List Description.RuleSection
  nodes : List Description.NodeSection
  properties : List Description.PropertySection
  source : String

end FrontEnd
