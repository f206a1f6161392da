import FrontEnd.Description.Lexer
import FrontEnd.Description.Property
import FrontEnd.Render.Template

namespace FrontEnd

def Span.toValue (s : Span) : Value :=
  .record [("file_id", .nat s.fileId), ("start", .nat s.start), ("end", .nat s.stop)]

def Diagnostic.toValue (d : Diagnostic) : Value :=
  .record [("severity", .text (if d.isError then "Error" else "Warning")),
    ("message", .text d.message), ("code", .optional .text d.code),
    ("span", .optional Span.toValue d.span),
    ("context", .optional .text d.context)]

structure CompiledProperty where
  property : Property
  text : String

/-- What a description is compiled to. -/
structure Artifact where
  language : String
  lexer : LexerSpec
  lexerText : String
  properties : List CompiledProperty
  /-- Findings that did not stop the compilation, in the order in which they were made. -/
  warnings : List Diagnostic

namespace Artifact

def toValue (a : Artifact) : Value :=
  .record [("language", .text a.language), ("lexer", a.lexer.toValue),
    ("lexer_text", .text a.lexerText),
    ("properties", .list (a.properties.map fun p =>
      .record [("ir", p.property.toValue), ("text", .text p.text)])),
    ("warnings", .list (a.warnings.map Diagnostic.toValue))]

end Artifact

namespace Description

variable {m : Type → Type} [Monad m] [MonadExceptOf Error m]

def compileProperty (r : Renderer m) (h : Hierarchy) (p : PropertyDecl) : m CompiledProperty := do
  let property ← MonadExcept.ofExcept (p.check h)
  let text ← r.property property
  pure ⟨property, text⟩

/-- Compiles a description. The lexer goes before the properties, and the bodies of all properties
are read before the first is typed; the first error ends it all. -/
def compile (r : Renderer m) (d : Description) : m Artifact := do
  let hierarchy ← MonadExcept.ofExcept d.hierarchy
  let lexer ← MonadExcept.ofExcept d.toLexer
  let spec ← MonadExcept.ofExcept (lexer.emit.mapError LexerFault.toError)
  let lexerText ← r.lexer spec
  let decls ← MonadExcept.ofExcept d.propertyDecls
  let properties ← decls.mapM (compileProperty r hierarchy)
  pure { language := d.name, lexer := spec, lexerText, properties, warnings := lexer.warnings }

end Description

end FrontEnd
