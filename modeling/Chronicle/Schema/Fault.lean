import Chronicle.Value.Basic

/-!
# Faults of a schema

What can be wrong with a schema, and the wording of each fault. A fault inside a handler is told
with the handler's pattern; a reference to a location or a definition that is not there is told
alone.
-/

namespace Chronicle

namespace Schema

/-- What is wrong with a part of a schema. -/
inductive Fault
  | emptySegment
  | emptyQuery
  | emptyLocation (name : String)
  | locationInItself (name : String)
  | emptyConditionPath
  | deletedOperand
  | deletedExpected
  | noOperands
  | sourceIncremented
  | sourceStacked
  | incrementedAndStacked
  | literalIncremented (v : Value)
  | emptyFieldName
  | emptyValueQuery
  | emptyTarget
  | noBranch
  | emptyEventName
  | nullName (key : String)
deriving DecidableEq, Repr

/-- The wording of a fault. -/
def Fault.message : Fault → String
  | .emptySegment => "attribute segment with empty name"
  | .emptyQuery => "query with empty path"
  | .emptyLocation name => "location '" ++ name ++ "' has an empty path"
  | .locationInItself name => "location '" ++ name ++ "' refers to itself"
  | .emptyConditionPath => "condition with empty attribute path"
  | .deletedOperand => "delete cannot be compared in a condition"
  | .deletedExpected => "delete cannot be an expected value"
  | .noOperands => "logical operator without operands"
  | .sourceIncremented => "increment is only valid on literal or event field values"
  | .sourceStacked =>
    "stack actions are only valid on literal, event field or query values"
  | .incrementedAndStacked => "a value cannot both increment and use the stack"
  | .literalIncremented v => "increment literal must be an int, got " ++ v.render
  | .emptyFieldName => "event field value with empty name"
  | .emptyValueQuery => "query value with empty path"
  | .emptyTarget => "state change with empty target path"
  | .noBranch => "conditional state change without then or else"
  | .emptyEventName => "event handler with empty event name"
  | .nullName key => "defined value '" ++ key ++ "' is null and cannot name an attribute"

/-- Why a schema is refused. -/
inductive Refusal
  | fault (f : Fault)
  | faultInHandler (pattern : String) (f : Fault)
  | unknownDefinition (key : String)
  | unknownLocation (name : String)
deriving DecidableEq, Repr

namespace Refusal

/-- The wording of a refusal. -/
def message : Refusal → String
  | .fault f => "Invalid schema: " ++ f.message
  | .faultInHandler pattern f =>
    "Invalid schema: handler '" ++ pattern ++ "': " ++ f.message
  | .unknownDefinition key => "Unknown defined value: " ++ key
  | .unknownLocation name => "Unknown location: " ++ name

/-- A refusal that comes from within a handler. -/
def inHandler (pattern : String) : Refusal → Refusal
  | .fault f => .faultInHandler pattern f
  | r => r

end Refusal
end Schema
end Chronicle
