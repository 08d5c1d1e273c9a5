import Chronicle.Command.Input
import Chronicle.Text.Column

/-!
# The command `validate`

Checks the schema in a file, and prints the numbers of its parts if it is sound. The patterns of the
handlers stand in a column of 30.
-/

namespace Chronicle

namespace Schema

/-- The lines that describe a sound schema. -/
def description (s : Schema) : List String :=
  ["✓ Valid state schema",
    "  Handlers:      " ++ toString s.handlers.length,
    "  Locations:     " ++ toString s.table.size,
    "  State changes: " ++ toString s.changeCount] ++
  s.handlers.map fun h =>
    "    " ++ Text.column 30 h.pattern.text ++ " " ++ toString h.changes.length ++ " state changes"

end Schema

namespace Command

variable {m : Type → Type} [Monad m] [Files.Volume m]

/-- Checks the schema in a file. -/
def validateSchema (path : String) : Session Error m Unit := do
  Session.print ["Validating schema: " ++ path]
  let schema ← Session.within .schemaInvalid (loadSchema path)
  Session.print schema.description

end Command
end Chronicle
