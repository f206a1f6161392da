import FrontEnd.Data.Decode
import FrontEnd.Property.Function

namespace FrontEnd

def Ty.toValue : Ty → Value
  | bool => .text "Bool"
  | int => .text "Int"
  | symbol => .text "Symbol"
  | token => .text "Token"
  | lexicalEnv => .text "LexicalEnv"
  | envElement => .text "EnvElement"
  | node name => .record [("Node", .text name)]
  | array element => .record [("Array", element.toValue)]

def Local.toValue (l : Local) : Value :=
  .record [("name", .text l.name), ("ty", l.ty.toValue), ("ref_counted", .bool l.isRefCounted)]

namespace Resolved

def literalValue : Literal → Value
  | .bool b => .record [("Bool", .bool b)]
  | .int n => .record [("Int", .int n.toInt)]
  | .text s => .record [("Symbol", .text s)]

def nodeValue (info : NodeInfo) (kind : String) (v : Value) : Value :=
  .record [("kind", .record [(kind, v)]), ("ty", info.ty.toValue),
    ("result_var", .optional Local.toValue info.result)]

mutual

def toValue : Resolved → Value
  | literal i v => nodeValue i "Literal" (literalValue v)
  | var i name => nodeValue i "Variable" (.record [("name", .text name)])
  | getSymbol i token => nodeValue i "GetSymbol" token.toValue
  | field i receiver name =>
    nodeValue i "FieldAccess" (.record [("receiver", receiver.toValue), ("field", .text name)])
  | lookup i e key boundary recursive unique =>
    nodeValue i "EnvGet" (.record [("env", e.toValue), ("key", key.toValue),
      ("from", boundaryValue boundary), ("recursive", recursive.toValue),
      ("resolve_unique", .bool unique)])
  | call i callee args =>
    nodeValue i "BuiltinCall" (.record [("name", .text callee), ("args", .list (values args))])
  | envNode i e => nodeValue i "EnvNode" e.toValue
  | array i elements elementTy =>
    nodeValue i "Array" (.record [("elements", .list (values elements)),
      ("element_type", elementTy.toValue)])
  | bind i e x body =>
    nodeValue i "EnvBind" (.record [("env", e.toValue), ("env_var", x.toValue),
      ("expr", body.toValue)])

def boundaryValue : Option Resolved → Value
  | none => .null
  | some r => r.toValue

def values : List Resolved → List Value
  | [] => []
  | r :: rs => r.toValue :: values rs

end

end Resolved

def Property.toValue (p : Property) : Value :=
  .record [("owner", .text p.signature.owner), ("name", .text p.signature.name),
    ("has_implicit_env", .bool p.signature.hasImplicitEnv), ("body", p.body.toValue),
    ("vars", .list (p.locals.map Local.toValue)),
    ("array_types", .list (p.arrayTypes.map Ty.toValue))]

namespace VarDecl

def toValue (v : VarDecl) : Value :=
  .record [("name", .text v.name), ("type_name", .text v.typeName),
    ("ref_counted", .bool v.isRefCounted)]

def ofValue? (v : Value) : Option VarDecl := do
  let f ← Fields.ofValue? .context ["name", "type_name", "ref_counted"] v
  let name ← f.required "name" Value.text?
  let typeName ← f.required "type_name" Value.text?
  let isRefCounted ← f.required "ref_counted" Value.bool?
  pure ⟨name, typeName, isRefCounted⟩

end VarDecl

namespace FunctionContext

def toValue (f : FunctionContext) : Value :=
  .record [("function_name", .text f.functionName), ("owner", .text f.owner),
    ("has_implicit_env", .bool f.hasImplicitEnv), ("return_type", .text f.returnType),
    ("returns_ref_counted", .bool f.returnsRefCounted),
    ("vars", .list (f.vars.map VarDecl.toValue)), ("pre", .text f.pre), ("expr", .text f.result),
    ("array_types", .texts f.arrayTypes)]

def ofValue? (v : Value) : Option FunctionContext := do
  let f ← Fields.ofValue? .context ["function_name", "owner", "has_implicit_env", "return_type",
    "returns_ref_counted", "vars", "pre", "expr", "array_types"] v
  let functionName ← f.required "function_name" Value.text?
  let owner ← f.required "owner" Value.text?
  let hasImplicitEnv ← f.required "has_implicit_env" Value.bool?
  let returnType ← f.required "return_type" Value.text?
  let returnsRefCounted ← f.required "returns_ref_counted" Value.bool?
  let vars ← f.required "vars" (Value.list? VarDecl.ofValue?)
  let pre ← f.required "pre" Value.text?
  let result ← f.required "expr" Value.text?
  let arrayTypes ← f.required "array_types" (Value.list? Value.text?)
  pure { functionName, owner, hasImplicitEnv, returnType, returnsRefCounted, vars, pre, result,
         arrayTypes }

end FunctionContext

end FrontEnd
