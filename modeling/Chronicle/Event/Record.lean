import Chronicle.Event.Basic
import Chronicle.Json.Double
import Chronicle.Text.Literal

/-!
# The record of an event

In a document an event is an object with these members:

| member | other names | |
| --- | --- | --- |
| `name` | `type`, `event` | text |
| `timestamp` | `ts`, `time` | 64-bit integer |
| `cpu` | `source` | 32-bit integer; may be missing or `null` |
| `fields` |  | object; may be missing |

Of members with the same name the last counts, in the place of the first. Members with names of
their own are skipped. An event may also be an array of the four in this order, of which the last
two may be missing.

A record is read from its start to its end, and the first fault counts: a value of another form, or
a member that is there under two of its names. Only then it matters what is missing, and what an
array has too many of.

A field is an integer, of 32 bits if it fits and of 64 bits otherwise, or a text; a field of another
type is left out.
-/

namespace Chronicle

namespace Field

/-- A field as it stands in a document. -/
def ofJson? (j : Json) : Option Field :=
  match j.int32? with
  | some n => some (.int n)
  | none =>
    match j.int64? with
    | some n => some (.long n)
    | none => j.str?.map .text

end Field

namespace Event

/-- A member of the record of an event. -/
inductive Member
  | name
  | timestamp
  | source
  | fields
deriving DecidableEq, Repr

namespace Member

/-- The members in order. -/
def all : List Member :=
  [.name, .timestamp, .source, .fields]

/-- The name of a member. -/
def label : Member → String
  | .name => "name"
  | .timestamp => "timestamp"
  | .source => "cpu"
  | .fields => "fields"

/-- The other names of a member. -/
def aliases : Member → List String
  | .name => ["type", "event"]
  | .timestamp => ["ts", "time"]
  | .source => ["source"]
  | .fields => []

/-- The member of the given name. -/
def ofName? (s : String) : Option Member :=
  all.find? fun m => (m.label :: m.aliases).contains s

/-- A member is found by its name. -/
@[simp] theorem ofName?_label (m : Member) : ofName? m.label = some m := by
  cases m <;> decide +kernel

end Member

/-- The form that a value has to have. -/
inductive Form
  | event
  | text
  | long
  | int
  | object
deriving DecidableEq, Repr

/-- The wording of a form. -/
def Form.name : Form → String
  | .event => "struct RawEvent"
  | .text => "a string"
  | .long => "i64"
  | .int => "i32"
  | .object => "a map"

/-- Why a value is no event. -/
inductive Fault
  | unexpected (found : String) (wanted : Form)
  | outOfRange (n : Int) (wanted : Form)
  | missing (m : Member)
  | repeated (m : Member)
  | tooFew (count : Nat)
  | tooMany (count : Nat)
deriving DecidableEq, Repr

namespace Fault

/-- The wording of what is found. -/
def description : Json → String
  | .bool b => "boolean `" ++ (if b then "true" else "false") ++ "`"
  | .int n => "integer `" ++ toString n ++ "`"
  | .decimal text => "floating point `" ++ Json.doubleText text ++ "`"
  | .str s => "string " ++ Text.literal s
  | .arr _ => "sequence"
  | .obj _ => "map"
  | .null | .void => "null"

/-- The fault of a value that does not have the wanted form. -/
def ofValue (wanted : Form) (j : Json) : Fault :=
  match wanted, j with
  | .long, .int n => .outOfRange n .long
  | .int, .int n => .outOfRange n .int
  | wanted, j => .unexpected (description j) wanted

/-- The wording of a fault. -/
def message : Fault → String
  | .unexpected found wanted => "invalid type: " ++ found ++ ", expected " ++ wanted.name
  | .outOfRange n wanted => "invalid value: integer `" ++ toString n ++ "`, expected " ++
      wanted.name
  | .missing m => "missing field `" ++ m.label ++ "`"
  | .repeated m => "duplicate field `" ++ m.label ++ "`"
  | .tooFew count => "invalid length " ++ toString count ++ ", expected struct RawEvent with " ++
      toString Member.all.length ++ " elements"
  | .tooMany count => "invalid length " ++ toString count ++ ", expected fewer elements in array"

end Fault

/-- A value of the wanted form. -/
def expect {α : Type} (wanted : Form) (decode : Json → Option α) (j : Json) : Except Fault α :=
  match decode j with
  | some a => .ok a
  | none => .error (.ofValue wanted j)

/-- What is known of an event while its record is read. -/
structure Draft where
  name : Option String := none
  timestamp : Option Int64 := none
  source : Option (Option Int32) := none
  fields : Option (List (String × Json)) := none

namespace Draft

/-- A member has been read. -/
def has (d : Draft) : Member → Bool
  | .name => d.name.isSome
  | .timestamp => d.timestamp.isSome
  | .source => d.source.isSome
  | .fields => d.fields.isSome

/-- Takes in the value of a member. -/
def take (d : Draft) (m : Member) (j : Json) : Except Fault Draft :=
  match m with
  | .name => (expect .text Json.str? j).map fun s => { d with name := some s }
  | .timestamp => (expect .long Json.int64? j).map fun t => { d with timestamp := some t }
  | .source =>
    match j with
    | .null => .ok { d with source := some none }
    | j => (expect .int Json.int32? j).map fun n => { d with source := some (some n) }
  | .fields => (expect .object Json.obj? j).map fun l => { d with fields := some (Keyed.settle l) }

/-- Takes in a member of an object. -/
def takeMember (d : Draft) (entry : String × Json) : Except Fault Draft :=
  match Member.ofName? entry.1 with
  | none => .ok d
  | some m => if d.has m then .error (.repeated m) else d.take m entry.2

/-- The event, and the names of the fields that were left out. -/
def toEvent (absent : Member → Fault) (d : Draft) : Except Fault (Event × List String) :=
  match d.name, d.timestamp with
  | none, _ => .error (absent .name)
  | some _, none => .error (absent .timestamp)
  | some name, some timestamp =>
    let members := d.fields.getD []
    let kept := members.filterMap fun (name, j) => (Field.ofJson? j).map fun f => (name, f)
    let left := members.filterMap fun (name, j) =>
      if (Field.ofJson? j).isNone then some name else none
    .ok (⟨name, timestamp, d.source.getD none, kept⟩, left)

end Draft

/-- The event of an object, and the names of the fields that were left out. -/
def ofMembers (members : List (String × Json)) : Except Fault (Event × List String) :=
  ((Keyed.settle members).foldlM Draft.takeMember {}).bind (Draft.toEvent .missing)

/-- The event of an array, and the names of the fields that were left out. -/
def ofItems (items : List Json) : Except Fault (Event × List String) := do
  let d ← (Member.all.zip items).foldlM (fun d (m, j) => d.take m j) ({} : Draft)
  let e ← d.toEvent fun _ => .tooFew items.length
  if Member.all.length < items.length then .error (.tooMany items.length) else .ok e

/-- The event that a value describes, and the names of the fields that were left out. -/
def ofJson : Json → Except Fault (Event × List String)
  | .obj members => ofMembers members
  | .arr items => ofItems items
  | j => .error (.ofValue .event j)

end Event
end Chronicle
