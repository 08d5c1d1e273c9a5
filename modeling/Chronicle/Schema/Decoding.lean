import Chronicle.Json.Record
import Chronicle.Schema.Basic
import Chronicle.Value.Json

/-!
# Reading schemas

The parts of a schema are read from the forms in which they are written. Locators, sources,
conditions and state changes are tagged records; the number of a kind counts from 0 in the order of
the lists below. A locator, a condition and a state change may hold others, no deeper than the
document nests.
-/

namespace Chronicle

/-- The number of containers around a locator of a location's path, and around a state change of a
handler, in a document. -/
def partDepth : Nat := 4

namespace Locator

/-- The kinds of locators. -/
def kinds : List String := ["constant", "event_field", "query", "location"]

/-- The locator that a value of at most the given depth describes. -/
def ofJsonWithin : (depth : Nat) → Json.Position → Json → Option Locator
  | 0, _, _ => none
  | n + 1, position, j => do
    let (kind, rest) ← j.tagged? kinds position
    match kind with
    | "query" =>
      let [path] ← rest.record? [["path"]] | none
      return .query (← (← (← path).arr?).mapM (ofJsonWithin n .nested))
    | kind =>
      let [name] ← rest.record? [["name"]] | none
      let name ← (← name).str?
      match kind with
      | "constant" => return .constant name
      | "event_field" => return .eventField name
      | _ => return .location name

/-- The locator that a value describes. -/
def ofJson? (position : Json.Position) (j : Json) : Option Locator :=
  ofJsonWithin j.depth position j

/-- The path that a value describes. -/
def pathOfJson? (position : Json.Position) (j : Json) : Option (List Locator) := do
  (← j.arr?).mapM (ofJson? position)

end Locator

namespace Location

/-- The location that a record describes. -/
def ofJson? (j : Json) : Option Location := do
  let [name, path] ← j.record? [["name"], ["path"]] | none
  let name ← (← name).str?
  let path ← (← path).arr?
  guard (path.all (Json.sound partDepth))
  return ⟨name, ← path.mapM (Locator.ofJson? .outer)⟩

end Location

namespace Source

/-- The kinds of sources. -/
def kinds : List String := ["literal", "event_field", "query", "event_name", "delete"]

/-- The source that a value describes. -/
def ofJson? (position : Json.Position) (j : Json) : Option Source := do
  let (kind, rest) ← j.tagged? kinds position
  match kind with
  | "literal" =>
    let [value] ← rest.record? [["value"]] | none
    return .literal (← Value.ofJson? .nested (← value))
  | "event_field" =>
    let [name, kind] ← rest.record? [["name"], ["forced_type"]] | none
    return .eventField (← (← name).str?) (← Json.optional? (Kind.ofJson? .nested) kind)
  | "query" =>
    let [path] ← rest.record? [["path"]] | none
    return .query (← Locator.pathOfJson? .nested (← path))
  | kind =>
    guard rest.isFieldless
    return if kind = "delete" then .delete else .eventName

end Source

namespace StackAction

/-- The stack action with the given name. -/
def ofName? : String → Option StackAction
  | "none" => some .none
  | "push" => some .push
  | "pop" => some .pop
  | "peek" => some .peek
  | _ => none

/-- The stack action as an option in a document. -/
def ofJson? (position : Json.Position) (j : Json) : Option StackAction :=
  (Json.option? ["none", "push", "pop", "peek"] position j).bind ofName?

@[simp] theorem ofName?_name (a : StackAction) : ofName? a.name = some a := by
  cases a <;> rfl

end StackAction

namespace Term

/-- The term that a record describes; the modifiers may be missing. -/
def ofJson? (position : Json.Position) (j : Json) : Option Term := do
  let [source, increment, stack] ← j.record? [["value"], ["increment"], ["stack"]] | none
  let source ← Source.ofJson? position (← source)
  let increment ← Json.withDefault? false Json.bool? increment
  let stack ← Json.withDefault? .none (StackAction.ofJson? position) stack
  return ⟨source, increment, stack⟩

end Term

namespace Operand

/-- The left side of a comparison that a value inside a condition describes. -/
def ofJson? : Json → Option Operand
  | .obj [("attribute", j)] => (Locator.pathOfJson? .nested j).map .attribute
  | .obj [("value", j)] => (Term.ofJson? .nested j).map .term
  | _ => none

end Operand

namespace Condition

/-- The kinds of conditions. -/
def kinds : List String := ["leaf", "not", "and", "or"]

/-- The condition that a value of at most the given depth describes. -/
def ofJsonWithin : (depth : Nat) → Json.Position → Json → Option Condition
  | 0, _, _ => none
  | n + 1, position, j => do
    let (kind, rest) ← j.tagged? kinds position
    match kind with
    | "leaf" =>
      let [operand, expected] ← rest.record? [["operand"], ["expected"]] | none
      return .leaf (← Operand.ofJson? (← operand)) (← Term.ofJson? .nested (← expected))
    | "not" =>
      let [c] ← rest.record? [["condition"]] | none
      return .not (← ofJsonWithin n .nested (← c))
    | kind =>
      let [cs] ← rest.record? [["conditions"]] | none
      let cs ← (← (← cs).arr?).mapM (ofJsonWithin n .nested)
      return if kind = "and" then .all cs else .any cs

/-- The condition that a value describes. -/
def ofJson? (position : Json.Position) (j : Json) : Option Condition :=
  ofJsonWithin j.depth position j

end Condition

namespace Change

/-- The kinds of state changes. -/
def kinds : List String := ["assign", "conditional"]

/-- The state change that a value of at most the given depth describes. -/
def ofJsonWithin : (depth : Nat) → Json.Position → Json → Option Change
  | 0, _, _ => none
  | n + 1, position, j => do
    let (kind, rest) ← j.tagged? kinds position
    match kind with
    | "assign" =>
      let [path, term] ← rest.record? [["path"], ["value"]] | none
      return .assign (← Locator.pathOfJson? .nested (← path)) (← Term.ofJson? .nested (← term))
    | _ =>
      let [c, yes, no] ← rest.record? [["condition"], ["then"], ["else"]] | none
      return .conditional (← Condition.ofJson? .nested (← c))
        (← Json.optional? (ofJsonWithin n .nested) yes)
        (← Json.optional? (ofJsonWithin n .nested) no)

/-- The state change that a value describes. -/
def ofJson? (position : Json.Position) (j : Json) : Option Change :=
  ofJsonWithin j.depth position j

end Change

namespace Handler

/-- The handler that a record describes. -/
def ofJson? (j : Json) : Option Handler := do
  let [pattern, changes] ← j.record? [["event"], ["state_changes"]] | none
  let pattern ← (← pattern).str?
  let changes ← (← changes).arr?
  guard (changes.all (Json.sound partDepth))
  return ⟨Pattern.ofText pattern, ← changes.mapM (Change.ofJson? .outer)⟩

end Handler
end Chronicle
