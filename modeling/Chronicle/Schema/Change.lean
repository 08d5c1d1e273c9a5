import Chronicle.Schema.Term

/-!
# Conditions and state changes

A condition compares two values in each leaf, and joins the leaves by `not`, `all` and `any`. A
state change assigns a term to the attribute at a path, or chooses between two state changes by a
condition; either of the two may be absent.
-/

namespace Chronicle

/-- The left side of a comparison: what the attribute at a path holds, or the value of a term. -/
inductive Operand
  | attribute (path : List Locator)
  | term (t : Term)
deriving Inhabited

/-- A boolean combination of comparisons. -/
inductive Condition
  | leaf (operand : Operand) (expected : Term)
  | not (c : Condition)
  | all (cs : List Condition)
  | any (cs : List Condition)
deriving Inhabited

/-- What an event does to one attribute, if it does anything. -/
inductive Change
  | assign (path : List Locator) (t : Term)
  | conditional (c : Condition) (yes no : Option Change)
deriving Inhabited

end Chronicle
