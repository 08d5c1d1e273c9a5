import Chronicle.Command.Input
import Chronicle.Command.Output
import Chronicle.Dump.Summary

/-!
# The command `run`

Runs the trace of one file through the schema of another, writes the dump of the store that comes of
it, and prints its summary, both only if asked for. Failed state changes are warnings. They make the
command fail only if asked for, and then after the dump and the summary.
-/

namespace Chronicle
namespace Command

open Files

/-- What to run, and what to do with the outcome. -/
structure RunOptions where
  schema : String := "schema.json"
  events : String := "events.json"
  output : Option String := some "state.json"
  summary : Bool := false
  failOnError : Bool := false
deriving DecidableEq, Repr

namespace RunOptions

/-- The output goes to a path that is spelled like that of an input. -/
def overwrites (o : RunOptions) : Bool :=
  o.output.any fun path => spelledAlike path o.schema || spelledAlike path o.events

/-- The options fit the files that the input paths hold. -/
def fits (o : RunOptions) (schema events : Contents) : Except Error Unit :=
  if o.schema.isEmpty then .error .emptySchemaPath
  else if !schema.isFile then .error (.schemaNotFound o.schema)
  else if o.events.isEmpty then .error .emptyTracePath
  else if !events.isFile then .error (.traceNotFound o.events)
  else if o.overwrites then .error .overwritesInput
  else .ok ()

variable {m : Type → Type} [Monad m] [Volume m]

/-- Checks options before they are used. -/
def check (o : RunOptions) : Session Error m Unit :=
  Session.expect do return o.fits (← Volume.contents o.schema) (← Volume.contents o.events)

/-- Writes a dump to the path of the output, if there is one. -/
def deliver (o : RunOptions) (d : Dump) : Session Error m Unit := do
  match o.output with
  | some path =>
    Session.log [Log.info .run "Step 4/4: Writing state dump..."]
    Session.within .dumpNotWritten (writeDump d path)
    Session.log [Log.info .run ("✓ State dump written to: " ++ path)]
  | none =>
    Session.log [Log.info .run "Step 4/4: Skipping state dump (no output requested)"]

/-- Runs a trace through a schema. -/
def execute (o : RunOptions) (now : String) : Session Error m Dump := do
  Session.log [Log.info .run ("Step 1/4: Loading schema from " ++ o.schema ++ "...")]
  let schema ← Session.within .schemaNotLoaded (loadSchema o.schema)
  Session.log [Log.info .run ("Step 2/4: Reading events from " ++ o.events ++ "...")]
  let events ← Session.within .traceNotRead (readTrace o.events)
  let count := toString events.length
  Session.log [Log.debug .run ("Read " ++ count ++ " events"),
    Log.info .run ("Step 3/4: Applying " ++ count ++ " events...")]
  let (report, store) := schema.run {} events
  Session.log (report.records ++ [Log.info .run report.summary])
  let dump := Dump.capture store report now
  o.deliver dump
  if o.summary then
    Session.print [dump.summary]
  Session.log [Log.info .run "Run completed"]
  match o.failOnError, report.failures with
  | true, first :: _ => throw (.changesFailed report.failures.length first.error)
  | _, _ => return dump

end RunOptions
end Command
end Chronicle
