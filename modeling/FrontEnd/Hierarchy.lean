import FrontEnd.Error
import FrontEnd.Ty

namespace FrontEnd

structure NodeType where
  name : String
  base : Option String
  fields : List (String × Ty)
  deriving DecidableEq

def NodeType.field? (n : NodeType) (field : String) : Option Ty :=
  (n.fields.find? (·.1 == field)).map (·.2)

inductive HierarchyFault where
  | declaredTwice (node : String)
  | undeclaredBase (base node : String)
  | ownBase (node : String)
  | undeclaredInField (node field missing : String)
  | rootCount (found : Nat)
  deriving DecidableEq

def undeclaredNode (name : String) : Diagnostic := .error "E0214" ("unknown node type " ++ name)

def HierarchyFault.finding : HierarchyFault → Diagnostic
  | declaredTwice node => .error "E0210" ("node type " ++ node ++ " declared twice")
  | undeclaredBase base node =>
    .error "E0211" ("base type " ++ base ++ " of node type " ++ node ++ " is not declared")
  | ownBase node => .error "E0215" ("node type " ++ node ++ " inherits from itself")
  | undeclaredInField node field missing =>
    (undeclaredNode missing).inContext ("field " ++ node ++ "." ++ field)
  | rootCount found =>
    .error "E0212" s!"node hierarchy must have exactly one root, found {found}"

namespace NodeType

def find? (nodes : List NodeType) (name : String) : Option NodeType := nodes.find? (·.name == name)

/-- The node type of the given name and those above it, nearest first, at most `limit` of them. -/
def climb (nodes : List NodeType) : Nat → String → List NodeType
  | 0, _ => []
  | limit + 1, name =>
    match find? nodes name with
    | none => []
    | some n => n :: n.base.elim [] (climb nodes limit)

def undeclared? (nodes : List NodeType) : Ty → Option String
  | .node name => if (find? nodes name).isSome then none else some name
  | .array element => undeclared? nodes element
  | _ => none

/-- The bases of the node never end: there are more of them than node types. -/
def isEndless (nodes : List NodeType) (n : NodeType) : Bool :=
  nodes.length < (n.base.elim [] (climb nodes (nodes.length + 1))).length

def fieldFault? (nodes : List NodeType) (n : NodeType) : Option HierarchyFault :=
  n.fields.findSome? fun (field, ty) => (undeclared? nodes ty).map (.undeclaredInField n.name field)

def baseFault? (nodes : List NodeType) (n : NodeType) : Option HierarchyFault :=
  match n.base with
  | none => none
  | some base => if (find? nodes base).isSome then none else some (.undeclaredBase base n.name)

/-- The first fault of one node, which stands behind `earlier`. -/
def nodeFault? (nodes earlier : List NodeType) (n : NodeType) : Option HierarchyFault :=
  if earlier.any (·.name == n.name) then some (.declaredTwice n.name)
  else baseFault? nodes n <|>
    (if isEndless nodes n then some (.ownBase n.name) else none) <|> fieldFault? nodes n

def listFault? (nodes : List NodeType) : (earlier : List NodeType) → List NodeType →
    Option HierarchyFault
  | _, [] => none
  | earlier, n :: ns => nodeFault? nodes earlier n <|> listFault? nodes (earlier ++ [n]) ns

def rootCount (nodes : List NodeType) : Nat := nodes.countP (·.base.isNone)

def fault? (nodes : List NodeType) : Option HierarchyFault :=
  listFault? nodes [] nodes <|>
    if nodes.isEmpty || rootCount nodes == 1 then none else some (.rootCount (rootCount nodes))

end NodeType

structure Hierarchy where
  nodes : List NodeType
  faultless : NodeType.fault? nodes = none

inductive Subtyping where
  | strict
  | equal
  | unrelated
  deriving DecidableEq

namespace Hierarchy

def ofNodes (nodes : List NodeType) : Except HierarchyFault Hierarchy :=
  match h : NodeType.fault? nodes with
  | none => .ok ⟨nodes, h⟩
  | some fault => .error fault

def node? (h : Hierarchy) (name : String) : Option NodeType := NodeType.find? h.nodes name

/-- The node type of the given name and all those above it, nearest first. -/
def lineage (h : Hierarchy) (name : String) : List NodeType :=
  NodeType.climb h.nodes h.nodes.length name

def root? (h : Hierarchy) : Option Ty :=
  (h.nodes.find? (·.base.isNone)).map fun n => .node n.name

def undeclared? (h : Hierarchy) (ty : Ty) : Option String := NodeType.undeclared? h.nodes ty

/-- The type of a field of a node, which may come from a node above it. -/
def fieldType? (h : Hierarchy) (node field : String) : Option Ty :=
  (h.lineage node).findSome? (·.field? field)

def isAncestor (h : Hierarchy) (ancestor node : String) : Bool :=
  (h.lineage node).any (·.name == ancestor)

/-- How the left type relates to the right one; arrays are related to themselves alone. -/
def subtyping (h : Hierarchy) (left right : Ty) : Subtyping :=
  if left = right then .equal
  else
    match left, right with
    | .node l, .node r => if h.isAncestor r l then .strict else .unrelated
    | _, _ => .unrelated

/-- A value of the left type can stand where one of the right type is expected. -/
def isSubtype (h : Hierarchy) (left right : Ty) : Bool := h.subtyping left right ≠ .unrelated

def leastCommonSupertype? (h : Hierarchy) (a b : Ty) : Option Ty :=
  if h.isSubtype a b then some b
  else if h.isSubtype b a then some a
  else
    match a, b with
    | .node l, .node _ =>
      (((h.lineage l).filterMap (·.base)).map Ty.node).find? (h.isSubtype b)
    | _, _ => none

end Hierarchy

end FrontEnd
