import Chronicle.CommandLine.Setting

/-!
# Words of a command line

A word with a dash at its start gives settings; a dash alone is an ordinary word.

| word | gives |
| --- | --- |
| `--name` | one setting |
| `--name=value` | one setting with a value, which may hold more equals signs |
| `-abc` | the settings of the letters, in order; after a letter that takes a path the rest of the |
|  | word is its path, less an equals sign at the start of that rest |
| `--` | nothing; it says that no settings follow |
-/

namespace Chronicle
namespace CommandLine

/-- A setting that a word gives, with the value that the same word holds for it. -/
inductive Mention
  | unknown
  | setting (s : Setting) (value : Option String)
deriving DecidableEq, Repr

/-- The word gives settings or ends them. -/
def isDashed (word : String) : Bool :=
  word.startsWith "-" && word != "-"

/-- What the letters of a word mention. -/
def mentionsOfLetters (allowed : List Setting) : List Char → List Mention
  | [] => []
  | c :: rest =>
    match Setting.ofLetter? allowed c with
    | none => [.unknown]
    | some s =>
      if s.takesPath then
        match rest with
        | [] => [.setting s none]
        | '=' :: value => [.setting s (some (String.ofList value))]
        | value => [.setting s (some (String.ofList value))]
      else .setting s none :: mentionsOfLetters allowed rest

/-- What a name, with a value after an equals sign, mentions. -/
def mentionOfName (allowed : List Setting) (cs : List Char) : Mention :=
  let name := cs.takeWhile (· != '=')
  match Setting.ofWord? allowed (String.ofList name), cs.drop name.length with
  | none, _ => .unknown
  | some s, [] => .setting s none
  | some s, _ :: value => .setting s (some (String.ofList value))

/-- What a dashed word mentions. -/
def mentions (allowed : List Setting) (word : String) : List Mention :=
  match word.toList with
  | '-' :: '-' :: name => [mentionOfName allowed name]
  | '-' :: letters => mentionsOfLetters allowed letters
  | _ => []

end CommandLine
end Chronicle
