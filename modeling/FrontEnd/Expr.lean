namespace FrontEnd

inductive Literal where
  | bool (value : Bool)
  | int (value : Int64)
  | text (value : String)
  deriving DecidableEq

inductive Expr where
  | literal (value : Literal)
  /-- The node that the property belongs to. -/
  | self
  | env
  | emptyEnv
  | field (receiver : Expr) (name : String)
  | array (elements : List Expr)
  /-- The entries for a key; `recursive` says whether parent environments are searched, `sequential`
  keeps only entries made before the property's node, `unique` asks for the first one alone. -/
  | lookup (env key recursive : Expr) (sequential unique : Bool)
  /-- `body` with `env` as the ambient environment. -/
  | evalInEnv (env body : Expr)
  /-- A copy of the environment without parent. -/
  | orphan (env : Expr)
  /-- The environments of an array taken together. -/
  | group (envs : Expr)
  | groupAll (envs : List Expr)
  | isVisibleFrom (referenced base : Expr)
  | envNode (env : Expr)
  deriving BEq

namespace Expr

/-- Expressions may be nested in one another this many levels deep. -/
def maxNesting : Nat := 256

def ofBool (b : Bool) : Expr := literal (.bool b)

/-- The expression keeps its meaning beside another one without parentheses. -/
def isAtomic : Expr → Bool
  | literal _ | self | env | emptyEnv | field .. | array _ => true
  | _ => false

mutual

/-- Levels of the tree: a leaf has one, any other expression one more than its highest part. -/
def height : Expr → Nat
  | literal _ | self | env | emptyEnv => 1
  | field receiver _ => receiver.height + 1
  | array elements => heightAll elements + 1
  | lookup e key recursive _ _ => max e.height (max key.height recursive.height) + 1
  | evalInEnv e body => max e.height body.height + 1
  | orphan e => e.height + 1
  | group envs => envs.height + 1
  | groupAll envs => heightAll envs + 1
  | isVisibleFrom referenced base => max referenced.height base.height + 1
  | envNode e => e.height + 1

def heightAll : List Expr → Nat
  | [] => 0
  | e :: es => max e.height (heightAll es)

end

end Expr

end FrontEnd
