import Chronicle.CommandLine.Request
import Chronicle.Log.Filter

/-!
# The log of a call

The log of a call holds the records up to the level `info`, and up to `debug` if it is to be
verbose. A variable may spell another filter in place of that.

The log is in colour if a variable says `always`, and not if it says `never`. If it says neither,
the log is in colour when colour is forced and not forbidden; a variable forces or forbids colour
with any text but the empty one.
-/

namespace Chronicle
namespace CommandLine

/-- The variable that spells a filter. -/
def filterVariable : String := "RUST_LOG"

/-- The variable that says when the log is in colour. -/
def styleVariable : String := filterVariable ++ "_STYLE"

/-- The variable that forces colour. -/
def colourVariable : String := "CLICOLOR_FORCE"

/-- The variable that forbids colour. -/
def plainVariable : String := "NO_COLOR"

/-- The variables that a call looks at. -/
def consulted : List String :=
  [schemaVariable, eventsVariable, filterVariable, styleVariable, colourVariable, plainVariable]

/-- The filter of a log, and the objections to its spelling. -/
def logFilter (env : Environment) (verbose : Bool) : Log.Filter × List String :=
  match env filterVariable with
  | some spelling => Log.Filter.read spelling
  | none => (.upTo (if verbose then .debug else .info), [])

/-- The log is in colour. -/
def inColour (env : Environment) : Bool :=
  let isSet (name : String) : Bool := (env name).any fun value => !value.isEmpty
  match env styleVariable with
  | some "always" => true
  | some "never" => false
  | _ => isSet colourVariable && !isSet plainVariable

/-- What is written of a log, after the objections to the spelling of its filter. -/
def writeLog (now : String) (env : Environment) (verbose : Bool) (records : List Log.Record) :
    String :=
  let (filter, objections) := logFilter env verbose
  Text.printLines (objections.map fun text => "warning: " ++ text ++ ", ignoring it") ++
    String.join ((records.filter filter.admits).map (Log.Record.render now (inColour env)))

end CommandLine
end Chronicle
