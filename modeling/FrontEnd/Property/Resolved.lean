import FrontEnd.Expr
import FrontEnd.Property.Local
import FrontEnd.Property.Scope

namespace FrontEnd

/-- What every node of a typed expression carries. -/
structure NodeInfo where
  ty : Ty
  /-- The variable that holds the node's value, if it has one. -/
  result : Option Local
  deriving DecidableEq

inductive Resolved where
  | literal (info : NodeInfo) (value : Literal)
  /-- A name of generated code. -/
  | var (info : NodeInfo) (name : String)
  | getSymbol (info : NodeInfo) (token : Resolved)
  | field (info : NodeInfo) (receiver : Resolved) (name : String)
  /-- The entries for a key, or the first one; they were made before the node `boundary`. -/
  | lookup (info : NodeInfo) (env key : Resolved) (boundary : Option Resolved)
    (recursive : Resolved) (unique : Bool)
  | call (info : NodeInfo) (callee : String) (args : List Resolved)
  | envNode (info : NodeInfo) (env : Resolved)
  | array (info : NodeInfo) (elements : List Resolved) (elementTy : Ty)
  /-- `body` evaluated while `var` holds the value of `env`. -/
  | bind (info : NodeInfo) (env : Resolved) (var : Local) (body : Resolved)

namespace Resolved

def info : Resolved → NodeInfo
  | literal i _ | var i _ | getSymbol i _ | field i _ _ | lookup i _ _ _ _ _ | call i _ _
  | envNode i _ | array i _ _ | bind i _ _ _ => i

def ty (r : Resolved) : Ty := r.info.ty

/-- The expressions directly inside, in evaluation order. -/
def children : Resolved → List Resolved
  | literal .. | var .. => []
  | getSymbol _ r | field _ r _ | envNode _ r => [r]
  | lookup _ e key boundary recursive _ => [e, key] ++ boundary.toList ++ [recursive]
  | call _ _ args => args
  | array _ elements _ => elements
  | bind _ e _ body => [e, body]

end Resolved

/-- A typed property: its signature, its body, the locals of the body and the array types that
generated code needs. -/
structure Property where
  signature : Signature
  body : Resolved
  locals : List Local
  arrayTypes : List Ty

end FrontEnd
