import Disassembly.Operand
import Disassembly.Layout.Fields
import Disassembly.Template.Basic

/-!
# Rendering

A template is rendered by putting the value of a field in the place of each reference. A reference
to a field that has no value is shown as a marker.
-/

namespace Disassembly

/-- What is shown for a reference to a field without value. -/
def unresolved : Text := "****"

namespace Part

/-- The text of a part. -/
def render (fs : Fields) (formatters : Formatters) : Part → Text
  | text t => t
  | field name =>
    match fs.get? name with
    | some v => formatters.get name v
    | none => unresolved

end Part

namespace Template

/-- The text of a template for given field values. -/
def render (parts : Template) (fs : Fields) (formatters : Formatters) : Text :=
  parts.flatMap (Part.render fs formatters)

end Template

end Disassembly
