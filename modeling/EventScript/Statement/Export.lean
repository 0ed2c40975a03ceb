import EventScript.Data
import EventScript.Statement.Printer

/-!
Export of things that may be no statements.

Only a list of statements can be written as source text. Data from outside is refused with the name of
its type; of data, only the empty list has a text.
-/

namespace EventScript

set_option autoImplicit false

/-- Why something cannot be written as source text. -/
inductive ExportRefusal where
  | noStatements (type : String)
  | noStatement (type part : String)
deriving DecidableEq, Repr

namespace ExportRefusal

def message : ExportRefusal → String
  | noStatements type => s!"to_script_text() expects Script or list of statements, got {type}"
  | noStatement type part => s!"'{type}' object has no attribute '{part}'"

end ExportRefusal

/-- The source text of data. -/
def Data.export (canonical : Bool) : Data → Except ExportRefusal String
  | .list [] => .ok (Statement.render canonical [])
  | .list (item :: _) =>
    .error (.noStatement item.typeName (if canonical then "kind" else "source_line"))
  | data => .error (.noStatements data.typeName)

end EventScript
