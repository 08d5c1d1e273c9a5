import Chronicle.Command.Error
import Chronicle.Command.Journal
import Chronicle.Command.Session
import Chronicle.Schema.Document

/-!
# Input files

A schema and a trace are read from files. A path without anything cannot be opened; a folder, and a
file whose bytes are no text of the wanted form, can be opened but not read.
-/

namespace Chronicle
namespace Command

open Files

variable {m : Type → Type} [Monad m] [Volume m]

/-- The wording of a note on a version. -/
def versionNote (version : String) : String :=
  "Schema version " ++ version ++ " differs from supported version " ++ Schema.version

/-- The schema document that a path holds. -/
def documentIn : Contents → Except SchemaError Document
  | .absent => .error .notOpened
  | found => (found.document?.bind Document.read?).elim (.error .notJson) .ok

/-- The trace that a path holds, as far as it can be read. -/
def traceIn : Contents → Except TraceError Trace.Reading
  | .absent => .error .notOpened
  | found => (found.document?.bind Trace.read?).elim (.error .notJson) .ok

/-- Reads a schema; a version other than the one of this library is a warning. -/
def loadSchema (path : String) : Session SchemaError m Schema := do
  Session.log [Log.debug .schema ("Loading schema from: " ++ path)]
  let d ← Session.expect do return documentIn (← Volume.contents path)
  Session.log (d.foreignVersion?.toList.map fun v => Log.warning .schema (versionNote v))
  let schema ← Session.expect (pure (d.toSchema.mapError .refused))
  Session.log [Log.info .schema ("Schema loaded: " ++ toString schema.handlers.length ++
    " handlers, " ++ toString schema.table.size ++ " locations")]
  return schema

/-- Reads a trace; what is left out is a warning. -/
def readTrace (path : String) : Session TraceError m (List Event) := do
  Session.log [Log.debug .events ("Reading events from: " ++ path)]
  let reading ← Session.expect do return traceIn (← Volume.contents path)
  Session.log (reading.omissions.map Omission.toRecord)
  let events ← Session.expect (pure (reading.result.mapError .format))
  Session.log [Log.debug .events ("Parsed " ++ toString events.length ++ " events")]
  return events

end Command
end Chronicle
