import FrontEnd.Expr
import FrontEnd.Text.Quoted

namespace FrontEnd.Expr

def literalText : Literal → String
  | .bool true => "true"
  | .bool false => "false"
  | .int n => toString n.toInt
  | .text s => Text.quote s

/-- Puts the written form `s` of `e` where an operand is expected. -/
def asOperand (e : Expr) (s : String) : String := if e.isAtomic then s else "(" ++ s ++ ")"

/-- The word for a lookup; asking for the first entry hides whether it is sequential. -/
def lookupWord (sequential unique : Bool) : String :=
  if unique then "resolve_unique" else if sequential then "get_sequential" else "get"

def isTrue : Expr → Bool
  | literal (.bool true) => true
  | _ => false

mutual

def display : Expr → String
  | literal value => literalText value
  | self => "Self"
  | env => "Env"
  | emptyEnv => "EmptyEnv"
  | field receiver name => asOperand receiver receiver.display ++ "." ++ name
  | array elements => "[" ++ " ".intercalate (displayAll elements) ++ "]"
  | lookup e key recursive sequential unique =>
    let call := lookupWord sequential unique ++ " " ++ asOperand e e.display ++ " " ++
      asOperand key key.display
    if recursive.isTrue then call
    else "recursive (" ++ call ++ ") " ++ asOperand recursive recursive.display
  | evalInEnv e body =>
    "eval_in_env " ++ asOperand e e.display ++ " " ++ asOperand body body.display
  | orphan e => "orphan " ++ asOperand e e.display
  | group envs => "group " ++ asOperand envs envs.display
  | groupAll envs => "group [" ++ " ".intercalate (displayAll envs) ++ "]"
  | isVisibleFrom referenced base =>
    "is_visible_from " ++ asOperand referenced referenced.display ++ " " ++
      asOperand base base.display
  | envNode e => "env_node " ++ asOperand e e.display

def displayAll : List Expr → List String
  | [] => []
  | e :: es => asOperand e e.display :: displayAll es

end

end FrontEnd.Expr
