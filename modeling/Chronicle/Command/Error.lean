import Chronicle.Event.Reader
import Chronicle.Interpreter.Failure
import Chronicle.Schema.Fault

/-!
# Errors of the commands

A command ends with one error: a headline, and for an error about a file the cause under it.

| headline | when |
| --- | --- |
| `Failed to load state schema`, `Schema is invalid` | the schema cannot be had |
| `Failed to read trace events` | the trace cannot be had |
| `Failed to write state dump` | the dump cannot be written |
| `… cannot be empty`, `… not found`, `Output path would overwrite …` | the arguments do not fit |
| `N state changes failed (first: …)` | failures were to count as an error |
-/

namespace Chronicle
namespace Command

/-- Why a schema cannot be had from a file. -/
inductive SchemaError
  | notOpened
  | notJson
  | refused (r : Schema.Refusal)

/-- Why a trace cannot be had from a file. -/
inductive TraceError
  | notOpened
  | notJson
  | format (e : Trace.FormatError)

/-- Why a dump cannot be written to a file. -/
inductive OutputError
  | emptyPath
  | folder (path : String)
  | noFolder (path : String)
  | notWritten

/-- Why a dump cannot be read from a file. -/
inductive DumpError
  | notOpened
  | notRead

/-- Why a command ends without success. -/
inductive Error
  | emptySchemaPath
  | schemaNotFound (path : String)
  | emptyTracePath
  | traceNotFound (path : String)
  | overwritesInput
  | schemaNotLoaded (e : SchemaError)
  | schemaInvalid (e : SchemaError)
  | traceNotRead (e : TraceError)
  | dumpNotWritten (e : OutputError)
  | changesFailed (count : Nat) (first : ChangeError)

/-- The wording of the cause. -/
def SchemaError.message : SchemaError → String
  | .notOpened => "IO error: the file cannot be opened"
  | .notJson => "JSON deserialization failed"
  | .refused r => r.message

/-- The wording of the cause. -/
def TraceError.message : TraceError → String
  | .notOpened => "IO error: the file cannot be opened"
  | .notJson => "JSON deserialization failed"
  | .format e => e.message

/-- The wording of the cause. -/
def OutputError.message : OutputError → String
  | .emptyPath => "Invalid output path: Path is empty"
  | .folder path => "Invalid output path: Path is a directory: " ++ path
  | .noFolder path => "Invalid output path: Cannot create directory " ++ path
  | .notWritten => "Failed to write file"

namespace Error

/-- The wording of an error. -/
def headline : Error → String
  | .emptySchemaPath => "Schema path cannot be empty"
  | .schemaNotFound path => "Schema file not found: " ++ path
  | .emptyTracePath => "Events path cannot be empty"
  | .traceNotFound path => "Events file not found: " ++ path
  | .overwritesInput => "Output path would overwrite an input file"
  | .schemaNotLoaded _ => "Failed to load state schema"
  | .schemaInvalid _ => "Schema is invalid"
  | .traceNotRead _ => "Failed to read trace events"
  | .dumpNotWritten _ => "Failed to write state dump"
  | .changesFailed count first =>
    toString count ++ " state changes failed (first: " ++ first.message ++ ")"

/-- The wording of the cause under an error. -/
def cause? : Error → Option String
  | .schemaNotLoaded e => some e.message
  | .schemaInvalid e => some e.message
  | .traceNotRead e => some e.message
  | .dumpNotWritten e => some e.message
  | _ => none

end Error
end Command
end Chronicle
