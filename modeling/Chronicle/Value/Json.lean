import Chronicle.Json.Record
import Chronicle.Value.Basic

/-!
# Values in JSON

A value is the text `"null"` or an object with the kind as its only name:

| value | written |
| --- | --- |
| `null` | `"null"` |
| `int 5` | `{"int": 5}` |
| `long 5` | `{"long": 5}` |
| `text "a"` | `{"string": "a"}` |

`{"null": null}` is read as well, and inside a tagged record `{"null": {}}`.
-/

namespace Chronicle

namespace Kind

/-- The kind with the given name. -/
def ofName? : String → Option Kind
  | "int" => some .int
  | "long" => some .long
  | "string" => some .string
  | _ => none

/-- The kind as an option in a document. -/
def ofJson? (position : Json.Position) (j : Json) : Option Kind :=
  (Json.option? ["int", "long", "string"] position j).bind ofName?

/-- The kind as it is written. -/
def toJson (k : Kind) : Json :=
  .str k.name

@[simp] theorem ofName?_name (k : Kind) : ofName? k.name = some k := by
  cases k <;> rfl

end Kind

namespace Value

/-- The value as it is written. -/
def toJson : Value → Json
  | .null => .str "null"
  | .int n => .obj [("int", .int n.toInt)]
  | .long n => .obj [("long", .int n.toInt)]
  | .text s => .obj [("string", .str s)]

/-- The value that is written. -/
def ofJson? (position : Json.Position) : Json → Option Value
  | .obj [("int", j)] => j.int32?.map .int
  | .obj [("long", j)] => j.int64?.map .long
  | .obj [("string", j)] => j.str?.map .text
  | j => (Json.option? ["null"] position j).map fun _ => .null

end Value
end Chronicle
