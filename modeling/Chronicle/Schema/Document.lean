import Chronicle.Json.Parser
import Chronicle.Schema.Check
import Chronicle.Schema.Decoding
import Chronicle.Schema.Definitions

/-!
# Schema documents

A document is a record of a version, definitions, locations and handlers, each of which may be
missing. Its schema has the references to definitions replaced, and is then checked. A version
other than the one of this library is noted and otherwise of no account.
-/

namespace Chronicle

/-- A schema as it is written, before references are replaced. -/
structure Document where
  version : Option String := none
  definitions : Definitions := {}
  locations : List Location := []
  handlers : List Handler := []

namespace Document

/-- The definitions that an object describes; of those with one name the last counts. -/
def definitionsOfJson? (j : Json) : Option Definitions := do
  let entries ← (← j.obj?).mapM fun (name, j) => (Value.ofJson? .outer j).map fun v => (name, v)
  return ⟨Keyed.settle entries⟩

/-- The document that a record describes. -/
def ofJson? (j : Json) : Option Document := do
  let [version, definitions, locations, handlers] ←
    j.record? [["version"], ["defined_values"], ["locations"], ["handlers"]] | none
  return {
    version := ← Json.optional? Json.str? version
    definitions := ← Json.withDefault? {} definitionsOfJson? definitions
    locations := ← Json.withDefault? [] (fun j => do (← j.arr?).mapM Location.ofJson?) locations
    handlers := ← Json.withDefault? [] (fun j => do (← j.arr?).mapM Handler.ofJson?) handlers }

/-- The document that a text holds. -/
def read? (text : String) : Option Document :=
  (Json.parse text).bind ofJson?

/-- The version, if it is not the one of this library. -/
def foreignVersion? (d : Document) : Option String :=
  d.version.filter fun v => v != Schema.version

/-- The document with its references replaced, the locations first. -/
def substitute (d : Document) : Except Schema.Refusal (List Handler × List Location) := do
  let locations ← d.locations.mapM (Location.substitute d.definitions)
  let handlers ← d.handlers.mapM (Handler.substitute d.definitions)
  return (handlers, locations)

/-- The schema of a document. -/
def toSchema (d : Document) : Except Schema.Refusal Schema := do
  let (handlers, locations) ← d.substitute
  Schema.make handlers (Table.ofList locations)

end Document
end Chronicle
