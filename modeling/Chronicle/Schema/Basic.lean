import Chronicle.Schema.Handler
import Chronicle.Schema.Location

/-!
# Schemas

A schema is a list of handlers, in the order in which they are asked, and a table of the locations
that their paths may name.
-/

namespace Chronicle

/-- Handlers and the locations that they name. -/
structure Schema where
  handlers : List Handler := []
  table : Table := {}
deriving Inhabited

namespace Schema

/-- The version of the schema language. -/
def version : String := "1.0.0"

/-- The number of state changes, those inside others not counted. -/
def changeCount (s : Schema) : Nat :=
  s.handlers.foldl (fun n h => n + h.changes.length) 0

/-- The handlers that match an event name, in order. -/
def handlersFor (s : Schema) (eventName : String) : List Handler :=
  s.handlers.filter fun h => h.pattern.covers eventName

end Schema
end Chronicle
