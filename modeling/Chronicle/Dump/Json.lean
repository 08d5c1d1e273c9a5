import Chronicle.Dump.Basic
import Chronicle.Json.Parser
import Chronicle.Json.Printer
import Chronicle.Value.Json

/-!
# Dumps in JSON

A dump is written as a record, and its parts as records in it:

| record | fields in order |
| --- | --- |
| dump | `version`, `generated_at`, `events_processed`, `end_time`, `failure_counts`, `failures`, |
|  | `attributes` |
| failure | `event`, `timestamp`, `handler`, `index`, `kind`, `message` |
| attribute | `path`, `ongoing`, `ongoing_since`, `intervals` |
| interval | `start`, `end`, `value` |

`end_time` and `ongoing_since` are left out when there is no time, and may also be read as `null`.
The counts are an object; of those with one name the last is read.
-/

namespace Chronicle

/-- A time of a record: an integer. -/
def timeToJson (t : Int64) : Json :=
  .int t.toInt

/-- A time as a member, if there is one. -/
def timeMember (name : String) : Option Int64 → List (String × Json)
  | some t => [(name, timeToJson t)]
  | none => []

namespace Interval

/-- The interval as it is written. -/
def toJson (i : Interval) : Json :=
  .obj [("start", timeToJson i.start), ("end", timeToJson i.stop), ("value", i.value.toJson)]

/-- The interval that a record describes. -/
def ofJson? (j : Json) : Option Interval := do
  let [start, stop, value] ← j.record? [["start"], ["end"], ["value"]] | none
  return ⟨← (← start).int64?, ← (← stop).int64?, ← Value.ofJson? .outer (← value)⟩

end Interval

namespace FailureRecord

/-- The failure as it is written. -/
def toJson (f : FailureRecord) : Json :=
  .obj [("event", .str f.event), ("timestamp", timeToJson f.timestamp),
    ("handler", .str f.handler), ("index", .int f.index), ("kind", .str f.kind),
    ("message", .str f.message)]

/-- The failure that a record describes. -/
def ofJson? (j : Json) : Option FailureRecord := do
  let [event, timestamp, handler, index, kind, message] ← j.record?
    [["event"], ["timestamp"], ["handler"], ["index"], ["kind"], ["message"]] | none
  return ⟨← (← event).str?, ← (← timestamp).int64?, ← (← handler).str?, ← (← index).nat?,
    ← (← kind).str?, ← (← message).str?⟩

end FailureRecord

namespace AttributeRecord

/-- The attribute as it is written. -/
def toJson (a : AttributeRecord) : Json :=
  .obj ([("path", .str a.path), ("ongoing", a.ongoing.toJson)] ++
    timeMember "ongoing_since" a.since ++ [("intervals", .arr (a.intervals.map Interval.toJson))])

/-- The attribute that a record describes. -/
def ofJson? (j : Json) : Option AttributeRecord := do
  let [path, ongoing, since, intervals] ← j.record?
    [["path"], ["ongoing"], ["ongoing_since"], ["intervals"]] | none
  return ⟨← (← path).str?, ← Value.ofJson? .outer (← ongoing), ← Json.optional? Json.int64? since,
    ← (← (← intervals).arr?).mapM Interval.ofJson?⟩

end AttributeRecord

namespace Tally

/-- The tally as it is written. -/
def toJson (t : Tally) : Json :=
  .obj (t.entries.map fun (name, n) => (name, .int n))

/-- The tally that an object describes. -/
def ofJson? (j : Json) : Option Tally := do
  let entries ← (← j.obj?).mapM fun (name, j) => j.nat?.map fun n => (name, n)
  return Tally.ofList entries

end Tally

namespace Dump

/-- The members of a dump besides the time of its making. -/
def contentMembers (d : Dump) : List (String × Json) :=
  [("events_processed", .int d.processed)] ++ timeMember "end_time" d.endTime ++
    [("failure_counts", d.failureCounts.toJson),
      ("failures", .arr (d.failures.map FailureRecord.toJson)),
      ("attributes", .arr (d.attributes.map AttributeRecord.toJson))]

/-- The dump as it is written. -/
def toJson (d : Dump) : Json :=
  .obj ([("version", .str d.version), ("generated_at", .str d.generatedAt)] ++ d.contentMembers)

/-- The dump that a record describes. -/
def ofJson? (j : Json) : Option Dump := do
  let [version, generatedAt, processed, endTime, counts, failures, attributes] ← j.record?
    [["version"], ["generated_at"], ["events_processed"], ["end_time"], ["failure_counts"],
      ["failures"], ["attributes"]] | none
  return {
    version := ← (← version).str?
    generatedAt := ← (← generatedAt).str?
    processed := ← (← processed).nat?
    endTime := ← Json.optional? Json.int64? endTime
    failureCounts := ← Tally.ofJson? (← counts)
    failures := ← (← (← failures).arr?).mapM FailureRecord.ofJson?
    attributes := ← (← (← attributes).arr?).mapM AttributeRecord.ofJson? }

/-- The text of a dump. -/
def render (d : Dump) : String :=
  d.toJson.pretty

/-- The dump that a text holds. -/
def read? (text : String) : Option Dump :=
  (Json.parse text).bind ofJson?

end Dump
end Chronicle
