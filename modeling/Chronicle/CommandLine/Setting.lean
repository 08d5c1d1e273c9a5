/-!
# Commands and settings

A command line names one command and gives it settings. A setting has a name of one letter, a name
of one word, or both, and takes a path or nothing.

| setting | letter | of the command |
| --- | --- | --- |
| `--schema PATH` | `-s` | `run`, `validate` |
| `--events PATH` | `-e` | `run` |
| `--output PATH` | `-o` | `run` |
| `--no-output`, `--summary`, `--fail-on-error` |  | `run` |
| `--show` |  | `schema` |
| `--verbose` | `-v` | any, also before the command |
| `--help` | `-h` | any, also before the command |
| `--version` | `-V` | before the command |
-/

namespace Chronicle
namespace CommandLine

/-- The commands. -/
inductive Verb
  | run
  | validate
  | schema
  | version
deriving DecidableEq, Repr

/-- The command of the given name. -/
def Verb.ofName? : String → Option Verb
  | "run" => some .run
  | "validate" => some .validate
  | "schema" => some .schema
  | "version" => some .version
  | _ => none

/-- The settings. -/
inductive Setting
  | schema
  | events
  | output
  | noOutput
  | summary
  | failOnError
  | details
  | verbose
  | help
  | version
deriving DecidableEq, Repr

namespace Setting

/-- The name of one letter. -/
def letter? : Setting → Option Char
  | .schema => some 's'
  | .events => some 'e'
  | .output => some 'o'
  | .verbose => some 'v'
  | .help => some 'h'
  | .version => some 'V'
  | _ => none

/-- The name of one word. -/
def word : Setting → String
  | .schema => "schema"
  | .events => "events"
  | .output => "output"
  | .noOutput => "no-output"
  | .summary => "summary"
  | .failOnError => "fail-on-error"
  | .details => "show"
  | .verbose => "verbose"
  | .help => "help"
  | .version => "version"

/-- The setting takes a path. -/
def takesPath : Setting → Bool
  | .schema => true
  | .events => true
  | .output => true
  | _ => false

/-- The settings that may stand before the command. -/
def leading : List Setting := [.verbose, .help, .version]

/-- The setting of the given letter among `allowed`. -/
def ofLetter? (allowed : List Setting) (c : Char) : Option Setting :=
  allowed.find? fun s => s.letter? = some c

/-- The setting of the given word among `allowed`. -/
def ofWord? (allowed : List Setting) (w : String) : Option Setting :=
  allowed.find? fun s => s.word = w

end Setting

/-- The settings of a command. -/
def Verb.settings : Verb → List Setting
  | .run => [.schema, .events, .output, .noOutput, .summary, .failOnError, .verbose, .help]
  | .validate => [.schema, .verbose, .help]
  | .schema => [.details, .verbose, .help]
  | .version => [.verbose, .help]

end CommandLine
end Chronicle
