import FrontEnd.Property.Construction

namespace FrontEnd

inductive Step where
  | observe
  | construct (e : Expr) (expected : Option Ty)
  | within (opening : Opening) (steps : List Step)

/-- What a run does at a time; a scope is opened by one move and closed by another. -/
inductive Move where
  | observe
  | construct (e : Expr) (expected : Option Ty)
  | enter (opening : Opening)
  | leave

namespace Step

mutual

def moves : Step → List Move
  | observe => [.observe]
  | construct e expected => [.construct e expected]
  | within opening steps => .enter opening :: movesAll steps ++ [.leave]

def movesAll : List Step → List Move
  | [] => []
  | st :: sts => st.moves ++ movesAll sts

end

end Step

inductive Happening where
  | observed
  | constructed (result : Except TypingFault Resolved)
  | entered (opening : Opening)
  | left

namespace Session

/-- Makes a move: what happens, and where the run stands behind it. -/
def act (h : Hierarchy) (s : Session) : Move → Happening × Session
  | .observe => (.observed, s)
  | .construct e expected =>
    let r := (Construction.construct h e expected).run s
    (.constructed r.1, r.2)
  | .enter opening => (.entered opening, s.enter opening)
  | .leave => (.left, s.leave)

/-- What happens in a run, with where the run then stands. -/
def trace (h : Hierarchy) (s : Session) : List Move → List (Happening × Session)
  | [] => []
  | a :: as => s.act h a :: trace h (s.act h a).2 as

def after (h : Hierarchy) (s : Session) (as : List Move) : Session :=
  as.foldl (fun s a => (s.act h a).2) s

/-- Runs steps in order: what happens, and where the run stands at the end. -/
def run (h : Hierarchy) (s : Session) (steps : List Step) : List (Happening × Session) × Session :=
  (s.trace h (Step.movesAll steps), s.after h (Step.movesAll steps))

end Session

end FrontEnd
