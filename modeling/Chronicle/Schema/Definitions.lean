import Chronicle.Keyed
import Chronicle.Schema.Basic
import Chronicle.Schema.Fault

/-!
# Defined values

A schema document may give names to values and refer to them by `$` and the name, in two places:

| place | what stands for `$NAME` |
| --- | --- |
| the name of a constant locator | the name that the value can stand for; not `null` |
| a literal text | the value itself |

Every other name and text is left alone, and so is what was put in place of a reference. The first
reference in document order that cannot be replaced is told: the locations first, then the
handlers, and in each the parts from left to right.
-/

namespace Chronicle

open Schema (Refusal Fault)

/-- Values with names. -/
structure Definitions where
  entries : List (String × Value) := []

namespace Definitions

/-- The mark of a reference. -/
def mark : Char := '$'

/-- The name that a text refers to. -/
def reference? (text : String) : Option String :=
  match text.toList with
  | c :: rest => if c = mark then some (String.ofList rest) else none
  | [] => none

/-- The value of a name. -/
def find (d : Definitions) (key : String) : Except Refusal Value :=
  match Keyed.get? key d.entries with
  | some v => .ok v
  | none => .error (.unknownDefinition key)

/-- The name that stands for a constant's name. -/
def segment (d : Definitions) (name : String) : Except Refusal String :=
  match reference? name with
  | none => .ok name
  | some key => do
    match (← d.find key).segment? with
    | some segment => .ok segment
    | none => .error (.fault (.nullName key))

/-- The value that stands for a literal. -/
def literal (d : Definitions) : Value → Except Refusal Value
  | .text s =>
    match reference? s with
    | none => .ok (.text s)
    | some key => d.find key
  | v => .ok v

end Definitions

namespace Locator

mutual

/-- The locator with its references replaced. -/
def substitute (d : Definitions) : Locator → Except Refusal Locator
  | .constant name => return .constant (← d.segment name)
  | .query path => return .query (← substituteEach d path)
  | .eventField name => return .eventField name
  | .location name => return .location name

/-- The path with its references replaced. -/
def substituteEach (d : Definitions) : List Locator → Except Refusal (List Locator)
  | [] => return []
  | l :: rest => return (← l.substitute d) :: (← substituteEach d rest)

end

end Locator

namespace Location

/-- The location with its references replaced. -/
def substitute (d : Definitions) (l : Location) : Except Refusal Location :=
  return ⟨l.name, ← Locator.substituteEach d l.path⟩

end Location

namespace Source

/-- The source with its references replaced. -/
def substitute (d : Definitions) : Source → Except Refusal Source
  | .literal v => return .literal (← d.literal v)
  | .query path => return .query (← Locator.substituteEach d path)
  | .eventField name kind => return .eventField name kind
  | .eventName => return .eventName
  | .delete => return .delete

end Source

namespace Term

/-- The term with its references replaced. -/
def substitute (d : Definitions) (m : Term) : Except Refusal Term :=
  return { m with source := ← m.source.substitute d }

end Term

namespace Operand

/-- The left side of a comparison with its references replaced. -/
def substitute (d : Definitions) : Operand → Except Refusal Operand
  | .attribute path => return .attribute (← Locator.substituteEach d path)
  | .term m => return .term (← m.substitute d)

end Operand

namespace Condition

mutual

/-- The condition with its references replaced. -/
def substitute (d : Definitions) : Condition → Except Refusal Condition
  | .leaf operand expected => return .leaf (← operand.substitute d) (← expected.substitute d)
  | .not c => return .not (← c.substitute d)
  | .all cs => return .all (← substituteEach d cs)
  | .any cs => return .any (← substituteEach d cs)

/-- The conditions with their references replaced. -/
def substituteEach (d : Definitions) : List Condition → Except Refusal (List Condition)
  | [] => return []
  | c :: rest => return (← c.substitute d) :: (← substituteEach d rest)

end

end Condition

namespace Change

mutual

/-- The state change with its references replaced. -/
def substitute (d : Definitions) : Change → Except Refusal Change
  | .assign path m => return .assign (← Locator.substituteEach d path) (← m.substitute d)
  | .conditional c yes no =>
    return .conditional (← c.substitute d) (← substituteBranch d yes) (← substituteBranch d no)

/-- The branch with its references replaced. -/
def substituteBranch (d : Definitions) : Option Change → Except Refusal (Option Change)
  | none => return none
  | some change => return some (← change.substitute d)

end

end Change

namespace Handler

/-- The handler with the references in its state changes replaced. -/
def substitute (d : Definitions) (h : Handler) : Except Refusal Handler :=
  return { h with changes := ← h.changes.mapM (Change.substitute d) }

end Handler
end Chronicle
