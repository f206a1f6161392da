import FrontEnd.Render.Template

namespace FrontEnd

structure Request where
  template : String
  context : Value

/-- A computation that keeps the requests made, also where it fails. -/
abbrev Recorded := ExceptT Error (StateM (List Request))

namespace Renderer

/-- The renderer that keeps requests and refuses one template, if told so. -/
def recording (refused : Option String) : Renderer Recorded where
  render template context := do
    modify (· ++ [⟨template, context⟩])
    if refused = some template then throw (.render ("refused " ++ template))
    let made ← get
    pure s!"<{template} #{made.length}>"

end Renderer

end FrontEnd
