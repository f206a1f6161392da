import FrontEnd.CommandLine.Run

namespace FrontEnd

def faultOf : IO.Error → FileFault
  | .noFileOrDirectory .. => .missing
  | .alreadyExists .. => .alreadyThere
  | .inappropriateType .. => .notFolder
  | .invalidArgument _ 36 _ => .nameTooLong
  | .permissionDenied .. => .other "Permission denied (os error 13)"
  | e => .other (toString e)

/-- Does something that may fail on the machine. -/
def guarded {α : Type} (act : IO α) : IO (Except FileFault α) := do
  match ← act.toBaseIO with
  | .ok a => return .ok a
  | .error e => return .error (faultOf e)

def isFolderOnDisk (path : String) : IO Bool := do
  let found ← guarded (IO.FS.realPath path)
  match found with
  | .ok real => real.isDir
  | .error _ => return false

def readOnDisk (path : String) : IO (Except FileFault (List UInt8)) := do
  if ← isFolderOnDisk path then return .error .isFolder
  guarded (return (← IO.FS.readBinFile path).toList)

def writeOnDisk (path : String) (bytes : List UInt8) : IO (Except FileFault Unit) := do
  if ← isFolderOnDisk path then return .error .isFolder
  guarded (IO.FS.writeBinFile path ⟨bytes.toArray⟩)

/-- The files in a folder and the folders inside it. -/
partial def filesOnDisk (path : String) : IO (List String) := do
  if ← isFolderOnDisk path then
    let entries ← (← IO.FS.realPath path).readDir
    let inner ← entries.toList.mapM fun e => filesOnDisk (Path.join path e.fileName)
    return inner.flatten
  else return [path]

def disk : FileSystem IO where
  isFolder := isFolderOnDisk
  read := readOnDisk
  write := writeOnDisk
  makeFolder path := guarded (IO.FS.createDir path)
  filesIn path := guarded (filesOnDisk path)

def readStdin : IO (Except FileFault String) := do
  let bytes ← (← IO.getStdin).readBinToEnd
  match Text.ofUtf8? bytes.toList with
  | some text => return .ok text
  | none => return .error .notText

end FrontEnd

def main (arguments : List String) : IO UInt32 := do
  let outcome ← FrontEnd.CommandLine.main FrontEnd.disk FrontEnd.readStdin arguments
  IO.print outcome.stdout
  IO.eprint outcome.stderr
  return outcome.code.toUInt32
