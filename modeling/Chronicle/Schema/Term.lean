import Chronicle.Schema.Locator
import Chronicle.Value.Basic

/-!
# Terms

A term says what a state change writes: a source for a value and two modifiers. With `increment`
the value is added to the integer that the target holds; with a stack action other than `none` the
target's stack is used.

| source | its value |
| --- | --- |
| `literal v` | `v` |
| `eventField f k` | the event's field `f`, forced to the kind `k` if one is given; `null` if missing |
| `query p` | what the attribute at `p` holds; `null` if there is none |
| `eventName` | the name of the event |
| `delete` | nothing: the target and all below it are removed |
-/

namespace Chronicle

/-- Where a value comes from. -/
inductive Source
  | literal (v : Value)
  | eventField (name : String) (kind : Option Kind := none)
  | query (path : List Locator)
  | eventName
  | delete
deriving Inhabited

/-- What is done with the stack of the target. -/
inductive StackAction
  | none
  | push
  | pop
  | peek
deriving DecidableEq, Repr

/-- The name of a stack action. -/
def StackAction.name : StackAction → String
  | .none => "none"
  | .push => "push"
  | .pop => "pop"
  | .peek => "peek"

/-- A source with its modifiers. -/
structure Term where
  source : Source
  increment : Bool := false
  stack : StackAction := .none
deriving Inhabited

namespace Source

/-- The source removes the target. -/
def isDelete : Source → Bool
  | .delete => true
  | _ => false

/-- A source spelled out as a term. -/
def spell : Source → String
  | .literal v =>
    let inner :=
      match v with
      | .null => "Null"
      | .int n => "Int(" ++ toString n.toInt ++ ")"
      | .long n => "Long(" ++ toString n.toInt ++ ")"
      | .text s => "String(" ++ Text.literal s ++ ")"
    "Literal \x7b value: " ++ inner ++ " \x7d"
  | .eventField name kind =>
    let inner :=
      match kind with
      | none => "None"
      | some .int => "Some(Int)"
      | some .long => "Some(Long)"
      | some .string => "Some(String)"
    "EventField \x7b name: " ++ Text.literal name ++ ", forced_type: " ++ inner ++ " \x7d"
  | .query path => "Query \x7b path: [" ++ ", ".intercalate (Locator.spellEach path) ++ "] \x7d"
  | .eventName => "EventName"
  | .delete => "Delete"

end Source
end Chronicle
