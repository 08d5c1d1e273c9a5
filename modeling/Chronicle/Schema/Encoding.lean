import Chronicle.Schema.Basic
import Chronicle.Value.Json

/-!
# Writing schemas

How the parts of a schema are written in a document.

| part | written |
| --- | --- |
| locator | `{"type": "constant", "name": …}`, `event_field` and `location` alike; |
|  | `{"type": "query", "path": […]}` |
| source | `{"type": "literal", "value": …}`, `{"type": "query", "path": […]}`, |
|  | `{"type": "event_field", "name": …, "forced_type": …}`, `{"type": "event_name"}`, |
|  | `{"type": "delete"}` |
| term | `{"value": …, "increment": …, "stack": …}` |
| operand | `{"attribute": […]}` or `{"value": …}` |
| condition | `{"type": "leaf", "operand": …, "expected": …}`, `{"type": "not", "condition": …}`, |
|  | `{"type": "and", "conditions": […]}`, `or` alike |
| change | `{"type": "assign", "path": […], "value": …}`, |
|  | `{"type": "conditional", "condition": …, "then": …, "else": …}` |
| handler | `{"event": …, "state_changes": […]}` |
| location | `{"name": …, "path": […]}` |

A kind that is not forced and a branch that is absent are left out.
-/

namespace Chronicle

namespace Locator

mutual

/-- The locator as it is written. -/
def toJson : Locator → Json
  | .constant name => .obj [("type", .str "constant"), ("name", .str name)]
  | .eventField name => .obj [("type", .str "event_field"), ("name", .str name)]
  | .query path => .obj [("type", .str "query"), ("path", .arr (toJsonEach path))]
  | .location name => .obj [("type", .str "location"), ("name", .str name)]

/-- The locators of a path as they are written. -/
def toJsonEach : List Locator → List Json
  | [] => []
  | l :: rest => l.toJson :: toJsonEach rest

end

/-- The path as it is written. -/
def pathToJson (path : List Locator) : Json :=
  .arr (toJsonEach path)

end Locator

namespace Location

/-- The location as it is written. -/
def toJson (l : Location) : Json :=
  .obj [("name", .str l.name), ("path", Locator.pathToJson l.path)]

end Location

namespace Source

/-- The source as it is written. -/
def toJson : Source → Json
  | .literal v => .obj [("type", .str "literal"), ("value", v.toJson)]
  | .eventField name none => .obj [("type", .str "event_field"), ("name", .str name)]
  | .eventField name (some k) =>
    .obj [("type", .str "event_field"), ("name", .str name), ("forced_type", k.toJson)]
  | .query path => .obj [("type", .str "query"), ("path", Locator.pathToJson path)]
  | .eventName => .obj [("type", .str "event_name")]
  | .delete => .obj [("type", .str "delete")]

end Source

namespace Term

/-- The term as it is written. -/
def toJson (m : Term) : Json :=
  .obj [("value", m.source.toJson), ("increment", .bool m.increment),
    ("stack", .str m.stack.name)]

end Term

namespace Operand

/-- The left side of a comparison as it is written. -/
def toJson : Operand → Json
  | .attribute path => .obj [("attribute", Locator.pathToJson path)]
  | .term m => .obj [("value", m.toJson)]

end Operand

namespace Condition

mutual

/-- The condition as it is written. -/
def toJson : Condition → Json
  | .leaf operand expected =>
    .obj [("type", .str "leaf"), ("operand", operand.toJson), ("expected", expected.toJson)]
  | .not c => .obj [("type", .str "not"), ("condition", c.toJson)]
  | .all cs => .obj [("type", .str "and"), ("conditions", .arr (toJsonEach cs))]
  | .any cs => .obj [("type", .str "or"), ("conditions", .arr (toJsonEach cs))]

/-- The conditions as they are written. -/
def toJsonEach : List Condition → List Json
  | [] => []
  | c :: rest => c.toJson :: toJsonEach rest

end

end Condition

namespace Change

mutual

/-- The state change as it is written. -/
def toJson : Change → Json
  | .assign path m =>
    .obj [("type", .str "assign"), ("path", Locator.pathToJson path), ("value", m.toJson)]
  | .conditional c yes no =>
    .obj ([("type", .str "conditional"), ("condition", c.toJson)] ++
      branchMembers "then" yes ++ branchMembers "else" no)

/-- A branch as a member of the given name, if there is one. -/
def branchMembers (name : String) : Option Change → List (String × Json)
  | none => []
  | some change => [(name, change.toJson)]

end

end Change

namespace Handler

/-- The handler as it is written. -/
def toJson (h : Handler) : Json :=
  .obj [("event", .str h.pattern.text), ("state_changes", .arr (h.changes.map Change.toJson))]

end Handler

namespace Schema

/-- The schema as a document without definitions. -/
def toJson (s : Schema) : Json :=
  .obj [("locations", .arr (s.table.locations.map Location.toJson)),
    ("handlers", .arr (s.handlers.map Handler.toJson))]

end Schema
end Chronicle
