import Chronicle.Interpreter.Failure
import Chronicle.Interpreter.Resolution
import Chronicle.Schema.Change

/-!
# Evaluating terms and conditions

Evaluation reads the event and the store and changes neither. A term whose value cannot be coerced
has none. A comparison holds when both sides have a value and the values are equal, kind included;
its right side is not looked at when the left side has none. `all` and `any` test every operand.
-/

namespace Chronicle

namespace Source

/-- The value of a source. -/
def evaluate (scope : Scope) (s : Store) : Source → Observed (Except CoercionError Value)
  | .literal v => pure (.ok v)
  | .eventField name none => pure (.ok (scope.event.value name))
  | .eventField name (some kind) => pure ((scope.event.value name).coerce kind)
  | .query path => do
    match ← scope.valueAt s path with
    | some v => pure (.ok v)
    | none => do
      Observed.remark (.queryUnresolved path)
      pure (.ok .null)
  | .eventName => pure (.ok (.text scope.event.name))
  | .delete => pure (.ok .null)

/-- The integer that a source adds: a literal of 32 bits, or an event field, of which the low 32
bits count. -/
def delta (e : Event) : Source → Except ChangeError Int32
  | .literal (.int n) => .ok n
  | .literal v => .error (.literalDelta v)
  | .eventField name kind =>
    let value : Except CoercionError Value :=
      match kind with
      | none => .ok (e.value name)
      | some kind => (e.value name).coerce kind
    match value with
    | .ok (.int n) => .ok n
    | .ok (.long n) => .ok n.toInt32
    | .ok v => .error (.fieldDelta name v)
    | .error fault => .error (.uncoercible fault)
  | source => .error (.noDelta source)

end Source

namespace Term

/-- What a term asks to be done to `q`. A look at the stack asks for nothing. -/
def mutation? (scope : Scope) (s : Store) (q : Quark) (m : Term) :
    Observed (Except ChangeError (Option Mutation)) :=
  if m.source.isDelete then do
    Observed.remark (.removal (s.tree.pathText q) scope.event.timestamp)
    pure (.ok (some .remove))
  else if m.increment then pure ((m.source.delta scope.event).map fun n => some (.increment n))
  else do
    match ← m.source.evaluate scope s with
    | .error fault => pure (.error (.uncoercible fault))
    | .ok v =>
      match m.stack with
      | .none => pure (.ok (some (.set v)))
      | .push => pure (.ok (some (.push v)))
      | .pop => pure (.ok (some .pop))
      | .peek => do
        Observed.remark (.peek (s.tree.pathText q) v)
        pure (.ok none)

end Term

namespace Operand

/-- The value on the left side of a comparison. -/
def evaluate (scope : Scope) (s : Store) : Operand → Observed (Option Value)
  | .attribute path => do
    match ← scope.valueAt s path with
    | some v => pure (some v)
    | none => do
      Observed.remark (.operandUnresolved path)
      pure none
  | .term m => do
    match ← m.source.evaluate scope s with
    | .ok v => pure (some v)
    | .error e => do
      Observed.remark (.operandUncoercible e)
      pure none

end Operand

namespace Condition

/-- A comparison holds. -/
def compare (scope : Scope) (s : Store) (operand : Operand) (expected : Term) : Observed Bool := do
  match ← operand.evaluate scope s with
  | none => pure false
  | some v =>
    match ← expected.source.evaluate scope s with
    | .ok w => pure (v == w)
    | .error e => do
      Observed.remark (.expectedUncoercible e)
      pure false

mutual

/-- The condition holds. -/
def test (scope : Scope) (s : Store) : Condition → Observed Bool
  | .leaf operand expected => compare scope s operand expected
  | .not c => do pure (!(← c.test scope s))
  | .all cs => do pure ((← testEach scope s cs).all id)
  | .any cs => do pure ((← testEach scope s cs).any id)

/-- Which of the conditions hold. -/
def testEach (scope : Scope) (s : Store) : List Condition → Observed (List Bool)
  | [] => pure []
  | c :: rest => do
    let b ← c.test scope s
    pure (b :: (← testEach scope s rest))

end

end Condition
end Chronicle
