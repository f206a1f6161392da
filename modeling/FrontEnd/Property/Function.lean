import FrontEnd.Property.Code

namespace FrontEnd

structure VarDecl where
  name : String
  typeName : String
  isRefCounted : Bool
  deriving DecidableEq

structure FunctionContext where
  functionName : String
  owner : String
  hasImplicitEnv : Bool
  returnType : String
  /-- The caller receives a reference of its own to the result. -/
  returnsRefCounted : Bool
  vars : List VarDecl
  /-- The statements that run before the result is read, one a line. -/
  pre : String
  result : String
  arrayTypes : List String
  deriving DecidableEq

def Local.decl (l : Local) : VarDecl := ⟨l.name, l.ty.target, l.isRefCounted⟩

/-- What the function of a property is made of. -/
def Property.function (p : Property) : FunctionContext where
  functionName := ((Name.ofCamel p.signature.owner).join (Name.ofLower p.signature.name)).canonical
  owner := p.signature.owner
  hasImplicitEnv := p.signature.hasImplicitEnv
  returnType := p.body.ty.target
  returnsRefCounted := p.body.ty.isRefCounted
  vars := p.locals.map Local.decl
  pre := p.body.preText
  result := p.body.termText
  arrayTypes := p.arrayTypes.map Ty.target

/-- A statement of a generated function that is not one of its property's own. -/
inductive Closing where
  | setResult (term : String)
  | retainResult
  | release (var : String)
  | returnResult
  | reraise
  deriving DecidableEq

def Closing.text : Closing → String
  | setResult term => "Property_Result := " ++ term ++ ";"
  | retainResult => "Inc_Ref (Property_Result);"
  | release var => "Dec_Ref (" ++ var ++ ");"
  | returnResult => "return Property_Result;"
  | reraise => "raise;"

namespace FunctionContext

/-- The statements that give up the function's references to shared values. -/
def releases (f : FunctionContext) : List Closing :=
  (f.vars.filter (·.isRefCounted)).map fun v => .release v.name

/-- The statements behind those of the property, on the way to the caller. -/
def closing (f : FunctionContext) : List Closing :=
  .setResult f.result :: (if f.returnsRefCounted then [.retainResult] else []) ++ f.releases ++
    [.returnResult]

/-- The statements that run when an exception leaves the function, if there is anything to do. -/
def handler (f : FunctionContext) : Option (List Closing) :=
  if f.vars.any (·.isRefCounted) then some (f.releases ++ [.reraise]) else none

/-- A line end may be a carriage return and a line feed. -/
def withoutReturn (cs : List Char) : List Char :=
  if cs.getLast? = some '\r' then cs.dropLast else cs

/-- The lines of a text; `line` is what the line has so far, backwards. What follows the last line
end is a line if it is not empty. -/
def linesFrom (line : List Char) : List Char → List (List Char)
  | [] => if line.isEmpty then [] else [line.reverse]
  | c :: cs =>
    if c = '\n' then withoutReturn line.reverse :: linesFrom [] cs else linesFrom (c :: line) cs

def filledLines (text : String) : List String :=
  ((linesFrom [] text.toList).filter (!·.isEmpty)).map String.ofList

def indented (indent line : String) : String := indent ++ line ++ "\n"

def parameters (f : FunctionContext) : String :=
  "(Node : access " ++ f.owner ++ "_Type'Class" ++
    (if f.hasImplicitEnv then "; Current_Env : AST_Envs.Lexical_Env" else "") ++ ")"

def handlerText (f : FunctionContext) : String :=
  match f.handler with
  | none => ""
  | some statements =>
    "exception\n   when Property_Error =>\n" ++
      String.join (statements.map fun s => indented "      " s.text)

def text (f : FunctionContext) : String :=
  "function " ++ f.functionName ++ "\n" ++
  "  " ++ f.parameters ++ "\n" ++
  "   return " ++ f.returnType ++ "\n" ++
  "is\n" ++
  indented "   " ("Self : " ++ f.owner ++ " := " ++ f.owner ++ " (Node);") ++
  String.join (f.vars.map fun v => indented "   " (v.name ++ " : " ++ v.typeName ++ ";")) ++
  indented "   " ("Property_Result : " ++ f.returnType ++ ";") ++
  "begin\n" ++
  String.join ((filledLines f.pre).map (indented "   ")) ++
  String.join (f.closing.map fun s => indented "   " s.text) ++
  f.handlerText ++
  "end " ++ f.functionName ++ ";\n"

end FunctionContext

end FrontEnd
