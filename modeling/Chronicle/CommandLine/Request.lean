import Chronicle.Command.Run
import Chronicle.CommandLine.Reading

/-!
# Requests

A request is a command with all that it needs. The paths of the schema and of the trace may be left
out of the command line if the variables `TRACE_STATE_SCHEMA` and `TRACE_STATE_EVENTS` name them; a
variable that is used is not empty.
-/

namespace Chronicle
namespace CommandLine

open Command (RunOptions)

/-- A command with all that it needs. -/
inductive Request
  | run (o : RunOptions)
  | validate (schema : String)
  | schema (details : Bool)
  | version
deriving DecidableEq, Repr

/-- The variables around a command, by name. -/
abbrev Environment := String → Option String

/-- The variable that names the path of a schema. -/
def schemaVariable : String := "TRACE_STATE_SCHEMA"

/-- The variable that names the path of a trace. -/
def eventsVariable : String := "TRACE_STATE_EVENTS"

namespace Reading

/-- The path that a setting was given, or else the one to fall back on. -/
def required (r : Reading) (s : Setting) (fallback : Option String) : Except Ending String :=
  match r.value? s, fallback with
  | some path, _ => .ok path
  | none, some path => if path.isEmpty then .error .misuse else .ok path
  | none, none => .error .misuse

/-- The options of a run. -/
def runOptions (r : Reading) (env : Environment) : Except Ending RunOptions := do
  return {
    schema := ← r.required .schema (env schemaVariable)
    events := ← r.required .events (env eventsVariable)
    output := if r.has .noOutput then none else some ((r.value? .output).getD "state.json")
    summary := r.has .summary
    failOnError := r.has .failOnError }

/-- The request that was read, once there are no more words. -/
def request (r : Reading) (env : Environment) : Except Ending Request :=
  if r.awaiting.isSome then .error .misuse
  else
    match r.level with
    | .leading => .error .misuse
    | .manual _ => .error .help
    | .within .run => (r.runOptions env).map .run
    | .within .validate => (r.required .schema (env schemaVariable)).map .validate
    | .within .schema => .ok (.schema (r.has .details))
    | .within .version => .ok .version

end Reading

/-- A request, and whether its log is to be verbose. -/
structure Call where
  request : Request
  verbose : Bool
deriving DecidableEq, Repr

/-- The call that words make. -/
def Call.ofWords (env : Environment) (words : List String) : Except Ending Call := do
  let r ← Reading.ofWords words
  return { request := ← r.request env, verbose := r.isVerbose }

end CommandLine
end Chronicle
