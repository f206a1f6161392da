import FrontEnd.Error
import FrontEnd.Files.System

namespace FrontEnd.CommandLine

/-- A failure and what caused it, the nearest cause first. -/
structure Failure where
  message : String
  causes : List String := []

namespace Failure

/-- The failure that an error is; one about a source has the reason as its cause. -/
def ofError (e : Error) : Failure :=
  match e with
  | .unreadable reason => ⟨e.display, [reason]⟩
  | _ => ⟨e.display, []⟩

def ofFault (f : FileFault) : Failure := ⟨f.message, []⟩

def during (f : Failure) (activity : String) : Failure := ⟨activity, f.message :: f.causes⟩

/-- A text whose lines but the first begin with `indent`. -/
def hanging (indent : String) (s : String) : String :=
  String.ofList (s.toList.flatMap fun c => if c = '\n' then '\n' :: indent.toList else [c])

def numbered (n : Nat) : List String → String
  | [] => ""
  | cause :: causes =>
    let number := toString n
    "\n" ++ String.ofList (List.replicate (5 - number.length) ' ') ++ number ++ ": " ++
      hanging "       " cause ++ numbered (n + 1) causes

/-- The text of a failure; several causes are numbered. -/
def text (f : Failure) : String :=
  let causes := match f.causes with
    | [] => ""
    | [cause] => "\n\nCaused by:\n    " ++ hanging "    " cause
    | causes => "\n\nCaused by:" ++ numbered 0 causes
  "Error: " ++ f.message ++ causes ++ "\n"

end Failure

end FrontEnd.CommandLine
