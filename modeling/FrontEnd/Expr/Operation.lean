import FrontEnd.Expr

namespace FrontEnd.Expr

inductive Operation where
  | get
  | getSequential
  | resolveUnique
  | recursive
  | evalInEnv
  | orphan
  | group
  | isVisibleFrom
  | envNode
  deriving DecidableEq

namespace Operation

/-- All operations, in the order in which they are listed to users. -/
def all : List Operation :=
  [get, getSequential, resolveUnique, recursive, evalInEnv, orphan, group, isVisibleFrom, envNode]

def name : Operation → String
  | get => "get"
  | getSequential => "get_sequential"
  | resolveUnique => "resolve_unique"
  | recursive => "recursive"
  | evalInEnv => "eval_in_env"
  | orphan => "orphan"
  | group => "group"
  | isVisibleFrom => "is_visible_from"
  | envNode => "env_node"

def arity : Operation → Nat
  | orphan | group | envNode => 1
  | _ => 2

/-- A line of help. -/
def summary : Operation → String
  | get => "get ENV KEY: all entries for KEY in ENV"
  | getSequential => "get_sequential ENV KEY: entries for KEY established before Self"
  | resolveUnique => "resolve_unique ENV KEY: first entry for KEY in ENV"
  | recursive => "recursive LOOKUP FLAG: whether LOOKUP also searches parent environments"
  | evalInEnv => "eval_in_env ENV EXPR: evaluate EXPR with ENV as the ambient environment"
  | orphan => "orphan ENV: copy of ENV with no parent"
  | group => "group [ENV...]: environment grouping all ENVs (empty: the empty environment)"
  | isVisibleFrom =>
    "is_visible_from REFERENCED BASE: whether REFERENCED's unit is visible from BASE's"
  | envNode => "env_node ENV: node associated with ENV"

def ofName? (word : String) : Option Operation := all.find? (·.name == word)

/-- The expression made of the operands, if their number is right and `recursive` stands before a
lookup. A lookup searches parent environments unless told otherwise. -/
def build? : Operation → List Expr → Option Expr
  | get, [e, key] => some (.lookup e key (.ofBool true) false false)
  | getSequential, [e, key] => some (.lookup e key (.ofBool true) true false)
  | resolveUnique, [e, key] => some (.lookup e key (.ofBool true) false true)
  | recursive, [.lookup e key _ sequential unique, flag] =>
    some (.lookup e key flag sequential unique)
  | evalInEnv, [e, body] => some (.evalInEnv e body)
  | orphan, [e] => some (.orphan e)
  | group, [envs] => some (.group envs)
  | isVisibleFrom, [referenced, base] => some (.isVisibleFrom referenced base)
  | envNode, [e] => some (.envNode e)
  | _, _ => none

end Operation

end FrontEnd.Expr
