import FrontEnd.Expr.Progress

namespace FrontEnd.Expr

def Stream.read (s : Stream) : Except ParseError Expr :=
  ((Parser.outcome s.whole {}).get (Parser.whole_ends s {})).1

def Scan.stream (s : Scan) : Stream := ⟨s.tokens.toArray, s.stop⟩

/-- Reads an expression. The first error of the scan goes before all errors of the parser. -/
def parse (text : String) : Except Error Expr :=
  let scan := Scan.ofText 0 text
  match scan.problems with
  | d :: _ => .error (.lexical ((d.span.map (·.start)).getD 0) d.message)
  | [] =>
    match scan.stream.read with
    | .ok e => .ok e
    | .error e => .error (.parse e.message)

end FrontEnd.Expr
