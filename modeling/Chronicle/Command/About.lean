import Chronicle.Dump.Basic
import Chronicle.Schema.Basic

/-!
# What the commands tell of themselves

The lines that the commands `schema` and `version` print.
-/

namespace Chronicle
namespace Command

/-- The version of the program. -/
def programVersion : String := "0.1.0"

/-- An outline of the schema language. -/
def schemaOutline : List String :=
  ["Schema Structure:",
    "  version: string            - Schema version (e.g., '1.0.0')",
    "  defined_values: object     - Named values, referenced as \"$NAME\"",
    "  locations: array           - Named attribute paths",
    "    name: string",
    "    path: array<locator>",
    "  handlers: array",
    "    event: string            - Event name, trailing '*' for a prefix",
    "    state_changes: array     - Applied in order",
    "",
    "Locators (type):  constant\x7bname\x7d | event_field\x7bname\x7d | query\x7bpath\x7d | " ++
      "location\x7bname\x7d",
    "Values (type):    literal\x7bvalue\x7d | event_field\x7bname, forced_type?\x7d | " ++
      "query\x7bpath\x7d",
    "                  | event_name | delete",
    "  modifiers:      increment: bool, stack: none | push | pop | peek",
    "Conditions:       leaf\x7boperand, expected\x7d | not\x7bcondition\x7d | " ++
      "and\x7bconditions\x7d | or\x7bconditions\x7d",
    "State changes:    assign\x7bpath, value\x7d | conditional\x7bcondition, then?, else?\x7d"]

/-- What `schema` prints, with the outline or without. -/
def aboutSchema (details : Bool) : List String :=
  ["Trace State Studio Schema", "Current Version: " ++ Schema.version, ""] ++
    if details then schemaOutline else ["Use --show for detailed schema information"]

/-- What `version` prints. -/
def aboutVersion : List String :=
  ["Trace State Studio v" ++ programVersion,
    "Schema: v" ++ Schema.version,
    "State dump: v" ++ Dump.formatVersion,
    "",
    "Declarative state-change interpreter for trace events."]

end Command
end Chronicle
