import Chronicle.Json.Basic

/-!
# Writing JSON

`compact` writes a value without blanks. `pretty` writes each item and each member on a line of its
own, two spaces further in than the container, with a space after the colon; an empty container is
`[]` or `{}`.

In a string the quote and the backslash are escaped with a backslash, so are the five control
characters that have a letter, and the other control characters below the space are `\u00` and two
hexadecimal digits in lower case. All else stands for itself.
-/

namespace Chronicle
namespace Json

/-- The hexadecimal digit of a number below 16, in lower case. -/
def hexDigit (n : Nat) : Char :=
  if n < 10 then Char.ofNat ('0'.toNat + n) else Char.ofNat ('a'.toNat + (n - 10))

/-- A character as it is written inside a string. -/
def escaped (c : Char) : List Char :=
  match c with
  | '"' => ['\\', '"']
  | '\\' => ['\\', '\\']
  | '\x08' => ['\\', 'b']
  | '\x0c' => ['\\', 'f']
  | '\n' => ['\\', 'n']
  | '\r' => ['\\', 'r']
  | '\t' => ['\\', 't']
  | c =>
    if c.toNat < 0x20 then ['\\', 'u', '0', '0', hexDigit (c.toNat / 16), hexDigit (c.toNat % 16)]
    else [c]

/-- A text in quotes. -/
def quoted (s : String) : String :=
  "\"" ++ String.ofList (s.toList.flatMap escaped) ++ "\""

mutual

/-- A value without blanks. -/
def compact : Json → String
  | .null => "null"
  | .bool true => "true"
  | .bool false => "false"
  | .int n => toString n
  | .decimal text => text
  | .str s => quoted s
  | .arr items => "[" ++ ",".intercalate (compactItems items) ++ "]"
  | .obj members => "\x7b" ++ ",".intercalate (compactMembers members) ++ "\x7d"
  | .void => "null"

/-- The items of an array, each without blanks. -/
def compactItems : List Json → List String
  | [] => []
  | j :: rest => j.compact :: compactItems rest

/-- The members of an object, each without blanks. -/
def compactMembers : List (String × Json) → List String
  | [] => []
  | (name, j) :: rest => (quoted name ++ ":" ++ j.compact) :: compactMembers rest

end

/-- The start of a line that stands `level` containers deep. -/
def indent (level : Nat) : String :=
  "\n" ++ String.ofList (List.replicate (2 * level) ' ')

/-- The lines of a container that stands `level` deep, between its brackets. -/
def block (level : Nat) (lines : List String) : String :=
  indent (level + 1) ++ ("," ++ indent (level + 1)).intercalate lines ++ indent level

mutual

/-- A value that stands `level` containers deep, on lines of its own. -/
def prettyAt (level : Nat) : Json → String
  | .arr [] => "[]"
  | .obj [] => "\x7b\x7d"
  | .arr items => "[" ++ block level (prettyItems (level + 1) items) ++ "]"
  | .obj members => "\x7b" ++ block level (prettyMembers (level + 1) members) ++ "\x7d"
  | j => j.compact

/-- The items of an array, each on lines of its own. -/
def prettyItems (level : Nat) : List Json → List String
  | [] => []
  | j :: rest => j.prettyAt level :: prettyItems level rest

/-- The members of an object, each on lines of its own. -/
def prettyMembers (level : Nat) : List (String × Json) → List String
  | [] => []
  | (name, j) :: rest => (quoted name ++ ": " ++ j.prettyAt level) :: prettyMembers level rest

end

/-- A value on lines of its own. -/
def pretty (j : Json) : String :=
  j.prettyAt 0

end Json
end Chronicle
