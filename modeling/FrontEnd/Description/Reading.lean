import FrontEnd.Data.Toml
import FrontEnd.Description.Record
import FrontEnd.Error

namespace FrontEnd.Description

def misread (source : String) : Error :=
  .description source "TOML parse error: the text is not a language description"

def ofToml (source text : String) : Except Error Description :=
  match (Toml.parse? text).bind (ofValue? .toml source) with
  | some d => .ok d
  | none => .error (misread source)

end FrontEnd.Description
