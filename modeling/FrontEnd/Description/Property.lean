import FrontEnd.Description
import FrontEnd.Expr.Parser
import FrontEnd.Property.Construction

namespace FrontEnd.Description

def NodeSection.node (n : NodeSection) : NodeType :=
  ⟨n.name, n.base, n.fields.map fun f => (f.name, .parse f.ty)⟩

def hierarchy (d : Description) : Except Error Hierarchy :=
  (Hierarchy.ofNodes (d.nodes.map NodeSection.node)).mapError fun fault => .typing fault.finding

def PropertySection.signature (p : PropertySection) : Signature := ⟨p.owner, p.name, p.implicitEnv⟩

def PropertySection.decl (source : String) (p : PropertySection) : Except Error PropertyDecl :=
  match Expr.parse p.expr with
  | .ok body => .ok ⟨p.signature, p.ty.map .parse, body⟩
  | .error e =>
    .error (.description source
      ("property " ++ p.signature.qualifiedName ++ ": " ++ e.display))

def propertyDecls (d : Description) : Except Error (List PropertyDecl) :=
  d.properties.mapM (PropertySection.decl d.source)

end FrontEnd.Description
