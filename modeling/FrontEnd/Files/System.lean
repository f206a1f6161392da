import FrontEnd.Files.Path
import FrontEnd.Text.Utf8

namespace FrontEnd

inductive FileFault where
  | missing
  | alreadyThere
  | notFolder
  | isFolder
  | nameTooLong
  | nulInName
  | notText
  | other (reason : String)
  deriving DecidableEq

def FileFault.message : FileFault → String
  | missing => "No such file or directory (os error 2)"
  | alreadyThere => "File exists (os error 17)"
  | notFolder => "Not a directory (os error 20)"
  | isFolder => "Is a directory (os error 21)"
  | nameTooLong => "File name too long (os error 36)"
  | nulInName => "file name contained an unexpected NUL byte"
  | notText => "stream did not contain valid UTF-8"
  | other reason => reason

structure FileSystem (m : Type → Type) where
  isFolder : String → m Bool
  read : String → m (Except FileFault (List UInt8))
  write : String → List UInt8 → m (Except FileFault Unit)
  makeFolder : String → m (Except FileFault Unit)
  /-- The paths of all files in a folder and the folders inside it; a file is all there is in
  itself. -/
  filesIn : String → m (Except FileFault (List String))

namespace FileSystem

variable {m : Type → Type} [Monad m]

def readText (fs : FileSystem m) (path : String) : m (Except FileFault String) := do
  match ← fs.read path with
  | .error fault => pure (.error fault)
  | .ok bytes =>
    match Text.ofUtf8? bytes with
    | some text => pure (.ok text)
    | none => pure (.error .notText)

/-- Makes folders in order; those that are there already are left as they are. -/
def makeEach (fs : FileSystem m) : List String → m (Except FileFault Unit)
  | [] => pure (.ok ())
  | path :: paths => do
    match ← fs.makeFolder path with
    | .ok () => fs.makeEach paths
    | .error .alreadyThere =>
      if ← fs.isFolder path then fs.makeEach paths else pure (.error .alreadyThere)
    | .error fault => pure (.error fault)

/-- Goes up the paths to the first folder that is there or can be made, then makes the `pending`
ones below it. -/
def makeUpwards (fs : FileSystem m) (pending : List String) :
    List String → m (Except FileFault Unit)
  | [] => fs.makeEach pending
  | path :: paths => do
    match ← fs.makeFolder path with
    | .ok () => fs.makeEach pending
    | .error .missing => fs.makeUpwards (path :: pending) paths
    | .error .alreadyThere =>
      if ← fs.isFolder path then fs.makeEach pending else pure (.error .alreadyThere)
    | .error fault => pure (.error fault)

def makeFolders (fs : FileSystem m) (path : String) : m (Except FileFault Unit) :=
  fs.makeUpwards [] (Path.ancestors path.length path)

end FileSystem

end FrontEnd
