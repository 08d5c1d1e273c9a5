import Chronicle.Schema.Change

/-!
# Handlers

A handler has a pattern for event names and the state changes that a matching event makes, in
order. A pattern is written as a text: with a `*` at its end it matches every name that starts with
what comes before that `*`, otherwise only the name itself.
-/

namespace Chronicle

/-- A rule for event names. -/
inductive Pattern
  | exact (name : String)
  | stem (start : String)
deriving DecidableEq, Repr, Inhabited

namespace Pattern

/-- The mark at the end of a pattern for all names with a given start. -/
def wildcard : Char := '*'

/-- The pattern that a text stands for. -/
def ofText (text : String) : Pattern :=
  if text.toList.getLast? = some wildcard then .stem (String.ofList text.toList.dropLast)
  else .exact text

/-- The text of a pattern. -/
def text : Pattern → String
  | .exact name => name
  | .stem start => start ++ String.ofList [wildcard]

/-- The pattern matches an event name. -/
def covers : Pattern → String → Bool
  | .exact name, other => name == other
  | .stem start, other => start.toList.isPrefixOf other.toList

/-- A pattern made of a text has that text. -/
@[simp] theorem text_ofText (s : String) : (ofText s).text = s := by
  unfold ofText
  split
  · next h =>
    have hs : s.toList.dropLast ++ [wildcard] = s.toList := by
      obtain ⟨l, hl⟩ := List.getLast?_eq_some_iff.1 h
      simp [hl]
    rw [text, ← String.ofList_append, hs, String.ofList_toList]
  · rfl

end Pattern

/-- The state changes that events with a matching name make. -/
structure Handler where
  pattern : Pattern
  changes : List Change
deriving Inhabited

end Chronicle
