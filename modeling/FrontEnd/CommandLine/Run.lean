import FrontEnd.Artifact
import FrontEnd.CommandLine.Failure
import FrontEnd.CommandLine.Options
import FrontEnd.Data.Json
import FrontEnd.Description.Load

namespace FrontEnd.CommandLine

structure Outcome where
  code : Nat
  stdout : String := ""
  stderr : String := ""

/-- A part of a run, which gathers what is told to the user. -/
abbrev Run (m : Type → Type) := ExceptT Failure (StateT String m)

variable {m : Type → Type} [Monad m]

def attempt {ε α : Type} (toFailure : ε → Failure) (act : m (Except ε α)) : Run m α := do
  let result : Except ε α ← (act : StateT String m (Except ε α))
  MonadExcept.ofExcept (result.mapError toFailure)

def tell (line : String) : Run m Unit := modify (· ++ line ++ "\n")

def descriptions (fs : FileSystem m) (stdin : m (Except FileFault String)) :
    Option String → Run m (List Description)
  | none => do
    let text ← attempt Failure.ofFault stdin
    let d ← attempt Failure.ofError (pure (Description.ofToml "<stdin>" text))
    pure [d]
  | some path => do
    if ← (fs.isFolder path : StateT String m Bool) then
      attempt (fun e => (Failure.ofError e).during ("failed to load descriptions from " ++ path))
        (Description.loadAll fs path)
    else
      let d ← attempt (fun e => (Failure.ofError e).during ("failed to read input file " ++ path))
        (Description.load fs path)
      pure [d]

/-- Writes a file, in folders that are made where they are missing. -/
def writeFile (fs : FileSystem m) (path text : String) : Run m Unit := do
  let folder := Path.parent path
  attempt (fun f => (Failure.ofFault f).during ("failed to create directory " ++ Text.quote folder))
    (fs.makeFolders folder)
  attempt (fun f => (Failure.ofFault f).during ("failed to write output file " ++ path))
    (fs.write path text.toUTF8.toList)

def outputs (emission : Emission) (a : Artifact) : List (String × String) :=
  let stem := Text.lower a.language
  let wanted (e : Emission) : Bool := emission = .all || emission = e
  (if wanted .lexer then [(stem ++ ".qx", a.lexerText)] else []) ++
  (if wanted .properties then
    [(stem ++ "_properties.adb", "\n".intercalate (a.properties.map (·.text)))] else []) ++
  (if wanted .ir then [(stem ++ ".json", Json.text a.toValue)] else [])

def progress (a : Artifact) : List String :=
  (s!"  lexer: {a.lexer.tokens.length} tokens, {a.lexer.patterns.length} patterns, " ++
    s!"{a.lexer.rules.length} rules") ::
  a.properties.map fun p =>
    "  property " ++ p.property.signature.qualifiedName ++ ": " ++ p.property.body.ty.display ++
      s!" ({p.property.locals.length} locals)"

def compileOne (fs : FileSystem m) (emission : Emission) (output : String) (verbose : Bool)
    (d : Description) : Run m Unit := do
  if verbose then tell ("compiling " ++ d.name ++ " (" ++ d.source ++ ")")
  let a ← attempt
    (fun e => (Failure.ofError e).during ("failed to compile language " ++ d.name))
    (pure (d.compile Renderer.builtin))
  a.warnings.forM fun w => tell w.display
  if verbose then (progress a).forM tell
  (outputs emission a).forM fun (name, text) => writeFile fs (Path.join output name) text

def execute (fs : FileSystem m) (stdin : m (Except FileFault String)) (o : Options) :
    Run m Unit := do
  let word := o.emit.getD "all"
  let some emission := Emission.ofWord? word
    | throw ⟨"unsupported emit format: " ++ word, []⟩
  let some output := o.output
    | throw ⟨"--output is required", []⟩
  let ds ← descriptions fs stdin o.input
  if ds.isEmpty then tell "no language description found"
  ds.forM (compileOne fs emission output o.verbose)

def padded (width : Nat) (s : String) : String :=
  s ++ String.ofList (List.replicate (width - s.length) ' ')

def builtinList : String :=
  String.join (Expr.Operation.all.map fun op => padded 16 op.name ++ " " ++ op.summary ++ "\n")

def version : String := "langgen-cli 0.1.0\n"

def usage : String :=
  "Usage: langgen [-i INPUT] [-o OUTPUT] [--emit all|lexer|properties|ir] [-v] " ++
    "[--list-builtins]\n"

def main (fs : FileSystem m) (stdin : m (Except FileFault String)) (arguments : List String) :
    m Outcome := do
  match Demand.ofArguments arguments with
  | .version => pure { code := 0, stdout := version }
  | .help => pure { code := 0, stdout := usage }
  | .misuse reason => pure { code := 2, stderr := "error: " ++ reason ++ "\n\n" ++ usage }
  | .run o =>
    if o.listBuiltins then pure { code := 0, stdout := builtinList }
    else
      let (result, told) ← (execute fs stdin o).run.run ""
      match result with
      | .ok () => pure { code := 0, stderr := told }
      | .error failure => pure { code := 1, stderr := told ++ failure.text }

end FrontEnd.CommandLine
