import Chronicle.Json.Basic

/-!
# Records in JSON

A record is an object with the record's fields as members, or an array of the fields in declared
order.

* A field may have several names. It is read from the one member that has one of them; two such
  members are a fault. Members with other names are skipped.
* In an array fields may be missing at the end; an item too many is a fault.
* Whether a field may be missing is for the caller to say.

A tagged record also has a member `type`, at any place, that names its kind; in an array the kind
comes first. Inside another tagged record the kind may also be given by its number.
-/

namespace Chronicle
namespace Json

/-- The one member with one of the names: `none` if there are several, and `some none` if there is
none. -/
def field? (members : List (String × Json)) (names : List String) : Option (Option Json) :=
  match members.filter fun member => names.contains member.1 with
  | [] => some none
  | [member] => some (some member.2)
  | _ => none

/-- The fields of a record, each with its names, in declared order. -/
def record? (fields : List (List String)) : Json → Option (List (Option Json))
  | .obj members => fields.mapM (field? members)
  | .arr items =>
    if items.length ≤ fields.length then
      some (items.map some ++ List.replicate (fields.length - items.length) none)
    else none
  | _ => none

/-- Where a tagged record stands: in a document, or inside another tagged record. -/
inductive Position
  | outer
  | nested
deriving DecidableEq, Repr

/-- The kind that a tag names. -/
def kind? (kinds : List String) (position : Position) : Json → Option String
  | .str s => if kinds.contains s then some s else none
  | .int n =>
    match position, n.toNat? with
    | .nested, some i => kinds[i]?
    | _, _ => none
  | _ => none

/-- The kind of a tagged record, and the record without its tag. -/
def tagged? (kinds : List String) (position : Position) : Json → Option (String × Json)
  | .obj members =>
    match members.filter (·.1 == "type") with
    | [tag] =>
      (kind? kinds position tag.2).map fun kind => (kind, .obj (members.filter (·.1 != "type")))
    | _ => none
  | .arr (tag :: rest) => (kind? kinds position tag).map fun kind => (kind, .arr rest)
  | _ => none

/-- The rest of a tagged record that has no fields. -/
def isFieldless : Json → Bool
  | .obj _ => true
  | .arr [] => true
  | _ => false

/-- An option is named by a text. Inside a tagged record it may also be an object with the option
as its only name, and `null` or nothing as its value. -/
def option? (options : List String) (position : Position) : Json → Option String
  | .str s => if options.contains s then some s else none
  | .obj [(s, .null)] => if options.contains s then some s else none
  | .obj [(s, .obj [])] =>
    if position = .nested ∧ options.contains s then some s else none
  | _ => none

/-- A field that may be missing or `null`. -/
def optional? {α : Type} (decode : Json → Option α) : Option Json → Option (Option α)
  | none => some none
  | some .null => some none
  | some j => (decode j).map some

/-- A field that has a value of its own when it is missing. -/
def withDefault? {α : Type} (default : α) (decode : Json → Option α) : Option Json → Option α
  | none => some default
  | some j => decode j

end Json
end Chronicle
