import Chronicle.Schema.Basic
import Chronicle.Schema.Fault

/-!
# Checking a schema

A schema is checked once, before it is used; the first fault in the order below is told.

1. Every location, in the order of the table: its path is not empty, and its locators are sound.
2. No location is inside itself.
3. Every handler in order: an exact pattern is not empty, and its state changes are sound.

A locator is sound if its name is not empty, its query is not empty and sound, and its location is
in the table. A term is sound if its modifiers fit its source: `increment` goes with a literal
32-bit integer or an event field, a stack action with a literal, an event field or a query, and not
both at once. A comparison has no `delete` on either side, a combination has operands, a target
path is not empty, and a choice has at least one branch.
-/

namespace Chronicle

open Schema (Refusal Fault)

/-- Refuses with `f` if the condition holds. -/
def refuseIf (c : Bool) (f : Fault) : Except Refusal Unit :=
  if c then .error (.fault f) else .ok ()

namespace Locator

mutual

/-- The locator is sound. -/
def check (t : Table) : Locator → Except Refusal Unit
  | .constant name => refuseIf name.isEmpty .emptySegment
  | .eventField name => refuseIf name.isEmpty .emptySegment
  | .query path => do
    refuseIf path.isEmpty .emptyQuery
    checkEach t path
  | .location name => if t.defines name then .ok () else .error (.unknownLocation name)

/-- The locators of a path are sound. -/
def checkEach (t : Table) : List Locator → Except Refusal Unit
  | [] => .ok ()
  | l :: rest => do
    l.check t
    checkEach t rest

end

end Locator

namespace Table

/-- The path of a location is sound. -/
def checkLocation (t : Table) (l : Location) : Except Refusal Unit := do
  refuseIf l.path.isEmpty (.emptyLocation l.name)
  Locator.checkEach t l.path

/-- The locations are sound, and none is inside itself. -/
def check (t : Table) : Except Refusal Unit := do
  t.locations.forM t.checkLocation
  match t.loop? with
  | some name => .error (.fault (.locationInItself name))
  | none => .ok ()

end Table

namespace Source

/-- The source can be added to an integer. -/
def canIncrement : Source → Bool
  | .literal _ => true
  | .eventField _ _ => true
  | _ => false

/-- The source can be used with a stack. -/
def canStack : Source → Bool
  | .eventName => false
  | .delete => false
  | _ => true

end Source

namespace Term

/-- The term is sound. -/
def check (t : Table) (m : Term) : Except Refusal Unit := do
  refuseIf (m.increment && !m.source.canIncrement) .sourceIncremented
  refuseIf (m.stack != .none && !m.source.canStack) .sourceStacked
  refuseIf (m.increment && m.stack != .none) .incrementedAndStacked
  match m.source with
  | .literal v => refuseIf (m.increment && v.int?.isNone) (.literalIncremented v)
  | .eventField name _ => refuseIf name.isEmpty .emptyFieldName
  | .query path =>
    refuseIf path.isEmpty .emptyValueQuery
    Locator.checkEach t path
  | .eventName => .ok ()
  | .delete => .ok ()

end Term

namespace Operand

/-- The left side of a comparison is sound. -/
def check (t : Table) : Operand → Except Refusal Unit
  | .attribute path => do
    refuseIf path.isEmpty .emptyConditionPath
    Locator.checkEach t path
  | .term m => do
    refuseIf m.source.isDelete .deletedOperand
    m.check t

end Operand

namespace Condition

mutual

/-- The condition is sound. -/
def check (t : Table) : Condition → Except Refusal Unit
  | .leaf operand expected => do
    operand.check t
    refuseIf expected.source.isDelete .deletedExpected
    expected.check t
  | .not c => c.check t
  | .all cs => do
    refuseIf cs.isEmpty .noOperands
    checkEach t cs
  | .any cs => do
    refuseIf cs.isEmpty .noOperands
    checkEach t cs

/-- The conditions are sound. -/
def checkEach (t : Table) : List Condition → Except Refusal Unit
  | [] => .ok ()
  | c :: rest => do
    c.check t
    checkEach t rest

end

end Condition

namespace Change

mutual

/-- The state change is sound. -/
def check (t : Table) : Change → Except Refusal Unit
  | .assign path m => do
    refuseIf path.isEmpty .emptyTarget
    Locator.checkEach t path
    m.check t
  | .conditional c yes no => do
    refuseIf (yes.isNone && no.isNone) .noBranch
    c.check t
    checkBranch t yes
    checkBranch t no

/-- A branch is sound, if there is one. -/
def checkBranch (t : Table) : Option Change → Except Refusal Unit
  | none => .ok ()
  | some change => change.check t

end

end Change

namespace Handler

/-- The handler is sound. -/
def check (t : Table) (h : Handler) : Except Refusal Unit := do
  refuseIf (h.pattern == .exact "") .emptyEventName
  h.changes.forM (Change.check t)

end Handler

namespace Schema

/-- The schema is sound. -/
def check (s : Schema) : Except Refusal Unit := do
  s.table.check
  s.handlers.forM fun h => (h.check s.table).mapError (Refusal.inHandler h.pattern.text)

/-- The schema of the given handlers and locations, if it is sound. -/
def make (handlers : List Handler) (table : Table) : Except Refusal Schema := do
  let s : Schema := ⟨handlers, table⟩
  s.check
  return s

end Schema
end Chronicle
