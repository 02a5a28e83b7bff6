import ProgramArt.Yaml.Value

/-!
# The document of a YAML text

A text holds at most one document. One without any is taken for a document that holds nothing.
-/

namespace ProgramArt.Yaml

/-- The document of a text. -/
def read [Host] (text : String) : Except YamlError Document := do
  match ← document? text.toList with
  | none => return { root := .datum .null }
  | some graph => graph.document

end ProgramArt.Yaml
