import Chronicle.Event.Record
import Chronicle.Json.Parser

/-!
# Reading a trace

A trace is an array of events, or an object with such an array under the first of `events`, `trace`
and `records` that holds one. An element that is no event is left out, and so is a field of an event
if it has none of the types of a field. What is left out is noted, in document order. A list in
which no element is an event is refused, unless it is empty.
-/

namespace Chronicle

/-- Something that was left out of a trace. -/
inductive Omission
  | field (name : String) (owner : String)
  | event (index : Nat) (fault : Event.Fault)
deriving DecidableEq, Repr

/-- What is said of an element that is no event, whose index is given in decimal, before the fault
is told. -/
def Omission.headline (index : String) : String :=
  "Failed to parse event " ++ index

/-- The wording of a note. -/
def Omission.message : Omission → String
  | .field name owner => "Skipping field '" ++ name ++ "' of event '" ++ owner ++
      "': unsupported type"
  | .event index fault => Omission.headline (toString index) ++ ": " ++ fault.message

namespace Trace

/-- The names under which an object may hold the list of events, by preference. -/
def listNames : List String := ["events", "trace", "records"]

/-- Why a document is no trace. -/
inductive FormatError
  | neitherArrayNorObject
  | noList
  | noEvent
deriving DecidableEq, Repr

/-- The wording of a refusal. -/
def FormatError.message : FormatError → String
  | .neitherArrayNorObject => "Invalid event format: Events must be a JSON array or object"
  | .noList => "Invalid event format: Expected an event array under one of: " ++
      ", ".intercalate listNames
  | .noEvent => "Invalid event format: All events failed to parse"

/-- A trace, or why there is none, and what was left out on the way. -/
structure Reading where
  result : Except FormatError (List Event)
  omissions : List Omission := []

/-- The list of events that a document holds. -/
def list? : Json → Except FormatError (List Json)
  | .arr items => .ok items
  | .obj members =>
    match listNames.findSome? fun name =>
        (Keyed.get? name (Keyed.settle members)).bind Json.arr? with
    | some items => .ok items
    | none => .error .noList
  | _ => .error .neitherArrayNorObject

/-- The events among the elements of a list that starts at `index`, and what was left out. -/
def readElements (index : Nat) : List Json → List Event × List Omission
  | [] => ([], [])
  | j :: rest =>
    let (events, omissions) := readElements (index + 1) rest
    match Event.ofJson j with
    | .error fault => (events, .event index fault :: omissions)
    | .ok (e, left) => (e :: events, left.map (fun name => .field name e.name) ++ omissions)

/-- The trace that a document holds. -/
def ofJson (j : Json) : Reading :=
  match list? j with
  | .error e => ⟨.error e, []⟩
  | .ok items =>
    let (events, omissions) := readElements 0 items
    if events.isEmpty && !items.isEmpty then ⟨.error .noEvent, omissions⟩
    else ⟨.ok events, omissions⟩

/-- The trace that a text holds; `none` if the text is no JSON document. -/
def read? (text : String) : Option Reading :=
  (Json.read? text).map ofJson

end Trace
end Chronicle
