import FrontEnd.Name
import FrontEnd.Property.Resolved

/-!
Code generated for typed expressions: statements that run first, then a term that only reads what
they have stored. A node with a result variable is stored by a statement and read by name.
-/
namespace FrontEnd

/-- A term of generated code, which has no effect. -/
inductive Term where
  | bool (value : Bool)
  | int (value : Int64)
  | find (text : String)
  | var (name : String)
  | getSymbol (token : Term)
  | field (receiver : Term) (name : String)
  | lookup (env key : Term) (boundary : Option Term) (recursive : Term) (unique : Bool)
  | call (callee : String) (args : List Term)
  | envNode (env : Term)
  | array (elementTy : Ty) (elements : List Term)

/-- A statement that runs before the term is read. -/
inductive Statement where
  | assign (target : String) (value : Term)
  | retain (target : String)

namespace Term

/-- A text between quotes, each quote inside written twice. -/
def stringLiteral (s : String) : String :=
  "\"" ++ String.ofList (s.toList.flatMap fun c => if c = '"' then ['"', '"'] else [c]) ++ "\""

def arrayTypeName (element : Ty) : String := Ty.unqualified element.target ++ "_Array"

def aggregate : List String → String
  | [] => "(1 .. 0 => <>)"
  | [single] => "(1 => " ++ single ++ ")"
  | many => "(" ++ ", ".intercalate many ++ ")"

/-- The first entry of a lookup, or an array of all. -/
def lookupValue (unique : Bool) (entries : String) : String :=
  if unique then "Get (" ++ entries ++ ", 0)" else "Create (" ++ entries ++ ")"

mutual

def text : Term → String
  | bool true => "True"
  | bool false => "False"
  | int n => toString n.toInt
  | find s => "Find (Self.Unit.TDH.Symbols, " ++ stringLiteral s ++ ")"
  | var name => name
  | getSymbol token => "Get_Symbol (" ++ token.text ++ ")"
  | field receiver name => receiver.text ++ ".F_" ++ (Name.ofLower name).canonical
  | lookup env key boundary recursive unique =>
    lookupValue unique ("AST_Envs.Get (Self => " ++ env.text ++ ", Key => " ++ key.text ++
      boundaryText boundary ++ ", Recursive => " ++ recursive.text ++ ")")
  | call callee args => callee ++ " (" ++ ", ".intercalate (texts args) ++ ")"
  | envNode env => env.text ++ ".Node"
  | array element elements => arrayTypeName element ++ "'" ++ aggregate (texts elements)

def boundaryText : Option Term → String
  | none => ""
  | some t => ", From => " ++ t.text

def texts : List Term → List String
  | [] => []
  | t :: ts => t.text :: texts ts

end

end Term

def Statement.text : Statement → String
  | assign x value => x ++ " := " ++ value.text ++ ";"
  | retain x => "Inc_Ref (" ++ x ++ ");"

namespace Resolved

/-- The term for a node whose own value is `value`: the result variable, if there is one. -/
def held (info : NodeInfo) (value : Term) : Term :=
  match info.result with
  | some l => .var l.name
  | none => value

/-- The statement that stores a node's value, if it has a result variable. -/
def store (info : NodeInfo) (value : Term) : List Statement :=
  match info.result with
  | some l => [.assign l.name value]
  | none => []

def literalTerm : Literal → Term
  | .bool b => .bool b
  | .int n => .int n
  | .text s => .find s

mutual

/-- The term that computes the node's value from those of the nodes inside. -/
def value : Resolved → Term
  | literal _ v => literalTerm v
  | var _ name => .var name
  | getSymbol _ token => .getSymbol (held token.info token.value)
  | field _ receiver name => .field (held receiver.info receiver.value) name
  | lookup _ e key boundary recursive unique =>
    .lookup (held e.info e.value) (held key.info key.value) (boundaryTerm boundary)
      (held recursive.info recursive.value) unique
  | call _ callee args => .call callee (terms args)
  | envNode _ e => .envNode (held e.info e.value)
  | array _ elements elementTy => .array elementTy (terms elements)
  | bind _ _ _ body => held body.info body.value

def boundaryTerm : Option Resolved → Option Term
  | none => none
  | some r => some (held r.info r.value)

def terms : List Resolved → List Term
  | [] => []
  | r :: rs => held r.info r.value :: terms rs

end

/-- The term that stands for the node once its statements have run. -/
def term (r : Resolved) : Term := held r.info r.value

mutual

/-- The statements that run before the node's term is read. -/
def statements : Resolved → List Statement
  | literal i v => store i (literalTerm v)
  | var i name => store i (.var name)
  | getSymbol i token => statements token ++ store i (.getSymbol token.term)
  | field i receiver name => statements receiver ++ store i (.field receiver.term name)
  | lookup i e key boundary recursive unique =>
    statements e ++ statements key ++ boundaryStatements boundary ++ statements recursive ++
      store i (.lookup e.term key.term (boundaryTerm boundary) recursive.term unique)
  | call i callee args => statementsAll args ++ store i (.call callee (terms args))
  | envNode i e => statements e ++ store i (.envNode e.term)
  | array i elements elementTy =>
    statementsAll elements ++ store i (.array elementTy (terms elements))
  | bind i e x body =>
    statements e ++ [.assign x.name e.term, .retain x.name] ++ statements body ++
      store i body.term

def boundaryStatements : Option Resolved → List Statement
  | none => []
  | some r => statements r

def statementsAll : List Resolved → List Statement
  | [] => []
  | r :: rs => statements r ++ statementsAll rs

end

/-- The text of the statements, one after the other on lines of their own. -/
def preText (r : Resolved) : String := "\n".intercalate (r.statements.map Statement.text)

def termText (r : Resolved) : String := r.term.text

end Resolved

end FrontEnd
