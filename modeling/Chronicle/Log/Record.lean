import Chronicle.Text.Column
import Chronicle.Text.Legible
import Chronicle.Text.Line

/-!
# Log records

A log tells what the program does while it works. A record has a level, a topic and a message, and
is written with the time on a line of its own, the lines of the message after the first further in:

`[TIME LEVEL TOPIC] MESSAGE`

It is written without what a terminal would take for itself, unless the log is in colour. A sequence
that a message leaves open takes the end of the record as well, and what is written next goes on in
the same line.

| topic | path | tells of |
| --- | --- | --- |
| `schema` | `schema::loader` | reading a schema |
| `events` | `event::reader` | reading a trace |
| `names` | `schema::attribute` | the names in a path |
| `values` | `schema::value` | the values of terms |
| `conditions` | `schema::condition` | testing conditions |
| `changes` | `schema::state_change` | applying state changes |
| `handlers` | `schema::provider` | giving events to handlers |
| `store` | `store::memory` | mutations |
| `dump` | `output::json` | writing a dump |
| `run` | `commands::run` | the steps of a run |

All paths begin with the name of the program.
-/

namespace Chronicle
namespace Log

/-- How much a record matters. -/
inductive Level
  | error
  | warning
  | info
  | debug
  | trace
deriving DecidableEq, Repr

namespace Level

/-- The name of a level. -/
def name : Level → String
  | .error => "ERROR"
  | .warning => "WARN"
  | .info => "INFO"
  | .debug => "DEBUG"
  | .trace => "TRACE"

/-- The levels, from what matters most to what matters least. -/
def all : List Level :=
  [.error, .warning, .info, .debug, .trace]

/-- The place of a level among all. -/
def rank : Level → Nat
  | .error => 0
  | .warning => 1
  | .info => 2
  | .debug => 3
  | .trace => 4

/-- The level of the given name, in letters of either case. -/
def ofName? (s : String) : Option Level :=
  all.find? fun l => l.name == s.toUpper

/-- A level is found by its own name. -/
@[simp] theorem ofName?_name (l : Level) : ofName? l.name = some l := by
  cases l <;> decide +kernel

end Level

/-- What a record is about. -/
inductive Topic
  | schema
  | events
  | names
  | values
  | conditions
  | changes
  | handlers
  | store
  | dump
  | run
deriving DecidableEq, Repr

namespace Topic

/-- The name of a topic under the name of the program. -/
def name : Topic → String
  | .schema => "schema::loader"
  | .events => "event::reader"
  | .names => "schema::attribute"
  | .values => "schema::value"
  | .conditions => "schema::condition"
  | .changes => "schema::state_change"
  | .handlers => "schema::provider"
  | .store => "store::memory"
  | .dump => "output::json"
  | .run => "commands::run"

/-- The path of a topic. -/
def path (t : Topic) : String :=
  "trace_state_studio::" ++ t.name

/-- All topics. -/
def all : List Topic :=
  [.schema, .events, .names, .values, .conditions, .changes, .handlers, .store, .dump, .run]

end Topic

/-- What is told at one point. -/
structure Record where
  level : Level
  topic : Topic
  message : String
deriving DecidableEq, Repr

/-- What the line of a record begins with. -/
def header (now : String) (l : Level) (t : Topic) : String :=
  "[" ++ now ++ " " ++ Text.column 5 l.name ++ " " ++ t.path ++ "] "

/-- A text in a dim colour. -/
def dim (s : String) : String :=
  "\x1B[90m" ++ s ++ "\x1B[0m"

/-- A record as it is written at a time, in colour or not. -/
def Record.render (now : String) (inColour : Bool) (r : Record) : String :=
  let header := header now r.level r.topic
  let message := Text.indent r.message ++ "\n"
  if inColour then dim header ++ message else Text.legible (header ++ message)

/-- A record of something that does not go as it should. -/
def warning (t : Topic) (message : String) : Record := ⟨.warning, t, message⟩

/-- A record of a step. -/
def info (t : Topic) (message : String) : Record := ⟨.info, t, message⟩

/-- A record of a detail. -/
def debug (t : Topic) (message : String) : Record := ⟨.debug, t, message⟩

end Log
end Chronicle
