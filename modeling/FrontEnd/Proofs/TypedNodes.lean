import FrontEnd.Hierarchy
import FrontEnd.Proofs.Nodes

namespace FrontEnd

namespace Resolved

/-- The calls of generated code with the types of their arguments and of their values. -/
def calls : List (String × List Ty × Ty) :=
  [("AST_Envs.Orphan", [.lexicalEnv], .lexicalEnv),
    ("Group", [.array .lexicalEnv], .lexicalEnv),
    ("Is_Visible_From", [.lexicalEnv, .lexicalEnv], .bool)]

/-- The rule that a node keeps in a property of the node type `owner`. -/
def NodeTyped (h : Hierarchy) (owner : String) : Resolved → Prop
  | literal i (.bool _) => i.ty = .bool
  | literal i (.int _) => i.ty = .int
  | literal i (.text _) => i.ty = .symbol
  | var i name => i.ty = if name = "Self" then .node owner else .lexicalEnv
  | getSymbol i token => token.ty = .token ∧ i.ty = .symbol
  | field i receiver name =>
    ∃ node, receiver.ty = .node node ∧ h.fieldType? node name = some i.ty
  | lookup i e key boundary recursive unique =>
    e.ty = .lexicalEnv ∧ key.ty = .symbol ∧ recursive.ty = .bool ∧
      (∀ b ∈ boundary, b.ty = .node owner ∧
        ∃ root, h.root? = some root ∧ h.isSubtype (.node owner) root = true) ∧
      i.ty = if unique then .envElement else .array .envElement
  | call i callee args => (callee, args.map ty, i.ty) ∈ calls
  | envNode i e => e.ty = .lexicalEnv ∧ h.root? = some i.ty
  | array i elements elementTy =>
    (∀ r ∈ elements, h.isSubtype r.ty elementTy = true) ∧ i.ty = .array elementTy
  | bind i e x body => e.ty = .lexicalEnv ∧ x.ty = .lexicalEnv ∧ i.ty = body.ty

/-- The types that are written down at a node. -/
def typesAt (r : Resolved) : List Ty :=
  r.ty :: r.info.result.toList.map Local.ty ++
    match r with
    | array _ _ elementTy => [elementTy]
    | bind _ _ x _ => [x.ty]
    | _ => []

end Resolved

def Property.types (p : Property) : List Ty :=
  p.body.nodes.flatMap Resolved.typesAt ++ p.locals.map Local.ty ++ p.arrayTypes

end FrontEnd
