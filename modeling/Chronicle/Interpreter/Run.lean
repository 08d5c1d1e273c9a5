import Chronicle.Interpreter.Application
import Chronicle.Schema.Basic

/-!
# Running a trace

An event is given to every handler whose pattern matches its name, in the order of the schema, and a
trace event by event. Every failed state change is reported, with the event, the handler and the
place of the change in it; no failure stops a run. A journal tells of the failures and of what was
remarked on, in order; the failures of a handler stand behind its remarks.
-/

namespace Chronicle

/-- A state change that failed. -/
structure Failure where
  event : String
  timestamp : Int64
  handler : String
  index : Nat
  error : ChangeError

namespace Failure

/-- The wording of a note on a failure. -/
def note (f : Failure) : String :=
  "Event '" ++ f.event ++ "' at " ++ toString f.timestamp.toInt ++ ": handler '" ++ f.handler ++
    "' state change " ++ toString f.index ++ " failed: " ++ f.error.message

end Failure

/-- Something that a journal tells of. -/
inductive Entry
  | remark (r : Remark)
  | failure (f : Failure)

/-- The failure that an entry tells of. -/
def Entry.failure? : Entry → Option Failure
  | .remark _ => none
  | .failure f => some f

/-- What is told of a run, in order. -/
abbrev Journal := List Entry

namespace Journal

/-- The failures that a journal tells of. -/
def failures (j : Journal) : List Failure :=
  j.filterMap Entry.failure?

@[simp] theorem failures_append (a b : Journal) :
    failures (a ++ b) = failures a ++ failures b :=
  List.filterMap_append ..

/-- Remarks tell of no failure. -/
@[simp] theorem failures_map_remark (rs : List Remark) : failures (rs.map .remark) = [] := by
  simp [failures, Entry.failure?]

@[simp] theorem failures_map_failure (fs : List Failure) : failures (fs.map .failure) = fs := by
  induction fs with
  | nil => rfl
  | cons f rest ih => simpa [failures, Entry.failure?] using ih

end Journal

/-- What came of a run: the number of events, the number of those with a handler, and the
journal. -/
structure Report where
  processed : Nat := 0
  handled : Nat := 0
  journal : Journal := []

namespace Report

/-- The failures in order. -/
def failures (r : Report) : List Failure :=
  r.journal.failures

/-- No state change failed. -/
def isClean (r : Report) : Bool :=
  r.failures.isEmpty

/-- The number of failures in a category. -/
def count (r : Report) (c : ChangeError.Category) : Nat :=
  r.failures.countP fun f => f.error.category = c

/-- The categories of the failures, in order, each with the number of its failures. -/
def counts (r : Report) : List (ChangeError.Category × Nat) :=
  (ChangeError.Category.all.map fun c => (c, r.count c)).filter fun entry => entry.2 != 0

/-- The report in one line. -/
def summary (r : Report) : String :=
  let kinds := ", ".intercalate (r.counts.map fun (c, n) => c.name ++ "=" ++ toString n)
  "Events: " ++ toString r.processed ++ " | Handled: " ++ toString r.handled ++ " | Failures: " ++
    toString r.failures.length ++ (if kinds.isEmpty then "" else " (" ++ kinds ++ ")")

end Report

namespace Schema

/-- Gives an event to handlers in order. -/
def processWith (scope : Scope) (s : Store) : List Handler → Journal × Store
  | [] => ([], s)
  | h :: rest =>
    let first := h.handle scope s
    let failures := first.failures.map fun (index, error) =>
      ⟨scope.event.name, scope.event.timestamp, h.pattern.text, index, error⟩
    let (later, after) := processWith scope first.store rest
    (first.remarks.map .remark ++ failures.map .failure ++ later, after)

/-- Gives an event to the handlers that match its name. -/
def process (schema : Schema) (s : Store) (e : Event) : Journal × Store :=
  processWith ⟨schema.table, e⟩ s (schema.handlersFor e.name)

/-- Gives the events of a trace to the schema, one after the other. -/
def run (schema : Schema) (s : Store) : List Event → Report × Store
  | [] => ({}, s)
  | e :: rest =>
    let (journal, next) := schema.process s e
    let (later, after) := schema.run next rest
    ({ processed := later.processed + 1
       handled := later.handled + (if (schema.handlersFor e.name).isEmpty then 0 else 1)
       journal := journal ++ later.journal }, after)

end Schema
end Chronicle
