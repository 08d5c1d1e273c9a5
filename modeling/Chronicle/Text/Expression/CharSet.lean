/-!
# Sets of characters

A set of characters is built from ranges. `folded s` holds the letters of `s` in either case;
letters and their cases are those of ASCII.
-/

namespace Chronicle
namespace Text

/-- A range of characters, the last one included. -/
abbrev CharRange := Char × Char

/-- A set of characters. -/
inductive CharSet
  | within (ranges : List CharRange)
  | outside (s : CharSet)
  | union (a b : CharSet)
  | inter (a b : CharSet)
  | folded (s : CharSet)
deriving DecidableEq, Repr

/-- A letter in the other case; any other character as it is. -/
def otherCase (c : Char) : Char :=
  if c.isLower then c.toUpper else c.toLower

namespace CharSet

/-- The set of no characters. -/
def empty : CharSet := .within []

/-- The set of one character. -/
def single (c : Char) : CharSet := .within [(c, c)]

/-- A character is in a set. -/
def holds : CharSet → Char → Bool
  | .within ranges, c => ranges.any fun range => range.1 ≤ c && c ≤ range.2
  | .outside s, c => !s.holds c
  | .union a b, c => a.holds c || b.holds c
  | .inter a b, c => a.holds c && b.holds c
  | .folded s, c => s.holds c || s.holds (otherCase c)

/-- The characters of one set that are not in another. -/
def diff (a b : CharSet) : CharSet :=
  .inter a (.outside b)

/-- The characters that are in one of two sets but not in both. -/
def symDiff (a b : CharSet) : CharSet :=
  .union (a.diff b) (b.diff a)

@[simp] theorem holds_diff (a b : CharSet) (c : Char) :
    (a.diff b).holds c = (a.holds c && !b.holds c) := rfl

/-- The digits, letters and the underscore. -/
def word : List CharRange :=
  [('0', '9'), ('A', 'Z'), ('a', 'z'), ('_', '_')]

/-- The blanks. -/
def space : List CharRange :=
  [('\t', '\r'), (' ', ' ')]

/-- The ranges of a set that has a name. -/
def ofName? : String → Option (List CharRange)
  | "alnum" => some [('0', '9'), ('A', 'Z'), ('a', 'z')]
  | "alpha" => some [('A', 'Z'), ('a', 'z')]
  | "ascii" => some [('\x00', '\x7F')]
  | "blank" => some [('\t', '\t'), (' ', ' ')]
  | "cntrl" => some [('\x00', '\x1F'), ('\x7F', '\x7F')]
  | "digit" => some [('0', '9')]
  | "graph" => some [('!', '~')]
  | "lower" => some [('a', 'z')]
  | "print" => some [(' ', '~')]
  | "punct" => some [('!', '/'), (':', '@'), ('[', '\x60'), ('\x7B', '~')]
  | "space" => some space
  | "upper" => some [('A', 'Z')]
  | "word" => some word
  | "xdigit" => some [('0', '9'), ('A', 'F'), ('a', 'f')]
  | _ => none

/-- A digit, a letter or the underscore. -/
def isWord (c : Char) : Bool :=
  (CharSet.within word).holds c

end CharSet
end Text
end Chronicle
