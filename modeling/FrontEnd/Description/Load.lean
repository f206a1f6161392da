import FrontEnd.Description.Reading
import FrontEnd.Files.System

namespace FrontEnd.Description

variable {m : Type → Type} [Monad m]

def load (fs : FileSystem m) (path : String) : m (Except Error Description) := do
  match ← fs.readText path with
  | .error fault => pure (.error (.unreadable fault.message))
  | .ok text => pure (ofToml path text)

def loadEach (fs : FileSystem m) : List String → m (Except Error (List Description))
  | [] => pure (.ok [])
  | path :: paths => do
    match ← load fs path with
    | .error e => pure (.error e)
    | .ok d =>
      match ← loadEach fs paths with
      | .error e => pure (.error e)
      | .ok ds => pure (.ok (d :: ds))

/-- Reads all descriptions in a folder and the folders inside it, in the order of their paths. -/
def loadAll (fs : FileSystem m) (root : String) : m (Except Error (List Description)) := do
  match ← fs.filesIn root with
  | .error fault =>
    let reason := "IO error for operation on " ++ root ++ ": " ++ fault.message
    pure (.error (.description root reason))
  | .ok paths =>
    loadEach fs ((paths.filter (Path.hasExtension · "toml")).mergeSort Path.le)

end FrontEnd.Description
