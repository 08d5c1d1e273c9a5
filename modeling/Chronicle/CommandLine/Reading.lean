import Chronicle.CommandLine.Word

/-!
# Reading a command line

The words are read from left to right. The first ordinary word names the command. A setting is given
at most once before that word and at most once after it. A setting that takes a path has it in its
own word or in the next one, which then has no dash at its start. A path is not empty.

Reading ends early when the help or the version is asked for, or when the words are misused,
whichever comes first.
-/

namespace Chronicle
namespace CommandLine

/-- Why reading ends without a command. -/
inductive Ending
  | misuse
  | help
  | version
deriving DecidableEq, Repr

/-- How far the words have led: before the command, after it, or after the word `help` and what it
is asked about. -/
inductive Level
  | leading
  | within (v : Verb)
  | manual (about : Option String)
deriving DecidableEq, Repr

/-- The settings that may be given. -/
def Level.settings : Level → List Setting
  | .leading => Setting.leading
  | .within v => v.settings
  | .manual _ => []

/-- What was read so far: the settings given on this level, the setting whose path comes next,
whether no more settings follow, and whether the level before asked for a verbose log. -/
structure Reading where
  level : Level := .leading
  given : List (Setting × String) := []
  awaiting : Option Setting := none
  closed : Bool := false
  verboseBefore : Bool := false

namespace Reading

/-- The value that a setting was given. -/
def value? (r : Reading) (s : Setting) : Option String :=
  (r.given.find? fun entry => entry.1 = s).map Prod.snd

/-- A setting was given. -/
def has (r : Reading) (s : Setting) : Bool :=
  (r.value? s).isSome

/-- A verbose log was asked for, on this level or the one before. -/
def isVerbose (r : Reading) : Bool :=
  r.verboseBefore || r.has .verbose

/-- Gives a setting its path. -/
def give (r : Reading) (s : Setting) (path : String) : Except Ending Reading :=
  if path.isEmpty || r.has s then .error .misuse
  else .ok { r with given := r.given ++ [(s, path)], awaiting := none }

/-- Reads what a word mentions. -/
def mention (r : Reading) : Mention → Except Ending Reading
  | .unknown => .error .misuse
  | .setting s (some value) => if s.takesPath then r.give s value else .error .misuse
  | .setting s none =>
    if s.takesPath then .ok { r with awaiting := some s }
    else if r.has s then .error .misuse
    else
      match s with
      | .help => .error .help
      | .version => .error .version
      | s => .ok { r with given := r.given ++ [(s, "")] }

/-- Reads an ordinary word. -/
def ordinary (r : Reading) (word : String) : Except Ending Reading :=
  match r.level, Verb.ofName? word with
  | .leading, some v =>
    if r.closed then .error .misuse
    else .ok { level := .within v, verboseBefore := r.isVerbose }
  | .leading, none =>
    if word = "help" && !r.closed then .ok { level := .manual none } else .error .misuse
  | .manual none, some _ => .ok { r with level := .manual (some word) }
  | .manual none, none =>
    if word = "help" then .ok { r with level := .manual (some word) } else .error .misuse
  | _, _ => .error .misuse

/-- Reads a word. -/
def step (r : Reading) (word : String) : Except Ending Reading :=
  match r.awaiting with
  | some s => if isDashed word then .error .misuse else r.give s word
  | none =>
    match r.level with
    | .manual _ => r.ordinary word
    | _ =>
      if !isDashed word then r.ordinary word
      else if r.closed then .error .misuse
      else if word = "--" then .ok { r with closed := true }
      else (mentions r.level.settings word).foldlM mention r

/-- Reads words. -/
def ofWords (words : List String) : Except Ending Reading :=
  words.foldlM step {}

end Reading
end CommandLine
end Chronicle
