import Chronicle.Keyed
import Chronicle.Value.Basic

/-!
# Trace events

An event has a name, a timestamp, the source that reported it if the trace tells, and named fields
in order. The field name `cpu` is taken: it reads the source, not the fields.
-/

namespace Chronicle

/-- The value of an event field. -/
inductive Field
  | int (n : Int32)
  | long (n : Int64)
  | text (s : String)
deriving DecidableEq, Repr

namespace Field

/-- A field as a value of the same kind. -/
def toValue : Field → Value
  | .int n => .int n
  | .long n => .long n
  | .text s => .text s

/-- A field as a name: a number in decimal, a text as it is. -/
def render : Field → String
  | .int n => toString n.toInt
  | .long n => toString n.toInt
  | .text s => s

/-- A field and its value name the same attribute. -/
@[simp] theorem segment?_toValue (f : Field) : f.toValue.segment? = some f.render := by
  cases f <;> rfl

end Field

/-- An event of a trace. -/
structure Event where
  name : String
  timestamp : Int64
  source : Option Int32 := none
  fields : List (String × Field) := []
deriving DecidableEq, Repr

namespace Event

/-- The field name that stands for the source of an event. -/
def sourceField : String := "cpu"

/-- The event with one more field; a field of the same name is replaced in its place. -/
def withField (e : Event) (name : String) (f : Field) : Event :=
  { e with fields := Keyed.put name f e.fields }

/-- The first field of the given name. -/
def field? (e : Event) (name : String) : Option Field :=
  Keyed.get? name e.fields

/-- What a field name reads: the source for `cpu`, else the field. -/
def reading? (e : Event) (name : String) : Option Field :=
  if name = sourceField then e.source.map .int else e.field? name

/-- What a field name reads, as a value; `null` if there is nothing to read. -/
def value (e : Event) (name : String) : Value :=
  match e.reading? name with
  | some f => f.toValue
  | none => .null

/-- What a field name reads, as the name of an attribute. -/
def segment? (e : Event) (name : String) : Option String :=
  (e.reading? name).map Field.render

/-- Reading a field as a value or as a name comes to the same attribute. -/
theorem segment?_value (e : Event) (name : String) :
    (e.value name).segment? = e.segment? name := by
  unfold value segment?
  cases e.reading? name with
  | none => rfl
  | some f => simp

end Event
end Chronicle
