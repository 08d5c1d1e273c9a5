import Chronicle.Text.Expression.Basic
import Chronicle.Text.Expression.Flags
import Chronicle.Text.Numeral

/-!
# Escapes of regular expressions

| written | stands for |
| --- | --- |
| `\x41`, `\u0041`, `\U00000041`, `\x{41}` | the character of a code point |
| `\a`, `\f`, `\t`, `\n`, `\r`, `\v` | a control character |
| `\d`, `\s`, `\w` | a digit, a blank, a character of a word |
| `\A`, `\z` | the start and the end of the text |
| `\b`, `\B` | an edge of a word, and no edge |
| `\b{start}`, `\b{end}`, `\<`, `\>` | the start and the end of a word |
| `\b{start-half}`, `\b{end-half}` | no word before, no word after |
| `\.` | the character itself, if it is neither letter nor digit and one of ASCII |

There is no table of the digits, the blanks and the words of all scripts. Where characters are
matched and not bytes, a set of them cannot be read, and an assertion about words needs the table.
-/

namespace Chronicle
namespace Text
namespace Expression

/-- What a single sign stands for. -/
inductive Sign
  | char (c : Char)
  | set (s : CharSet)
  | look (a : Assertion) (needsTable : Bool)

/-- The character with the given code point. -/
def charOf? (n : Nat) : Option Char :=
  if n.isValidChar then some (Char.ofNat n) else none

/-- The value of hexadecimal digits. -/
def hexValue (digits : List Char) : Nat :=
  digits.foldl (fun n c => n * 16 + (Numeral.hexDigit? c).getD 0) 0

/-- A hexadecimal digit. -/
def isHex (c : Char) : Bool :=
  (Numeral.hexDigit? c).isSome

/-- A given number of hexadecimal digits, and what follows. -/
def hexDigits? (f : Flags) : (count : Nat) → List Char → Option (List Char × List Char)
  | 0, cs => some ([], cs)
  | _ + 1, [] => none
  | count + 1, c :: rest =>
    if isHex c then
      (hexDigits? f count (f.skip rest)).map fun (digits, rest) => (c :: digits, rest)
    else none

/-- A character by its code point: a number of digits, or digits in braces. -/
def hexChar? (f : Flags) (count : Nat) (cs : List Char) : Option (Char × List Char) :=
  match f.skip cs with
  | '{' :: rest =>
    match f.run isHex (f.skip rest) with
    | ([], _) => none
    | (digits, '}' :: rest) => (charOf? (hexValue digits)).map fun c => (c, f.skip rest)
    | _ => none
  | cs => do
    let (digits, rest) ← hexDigits? f count cs
    let c ← charOf? (hexValue digits)
    if count = 2 && !f.unicode && '\x7F' < c then none else some (c, rest)

/-- A set that a letter stands for, as far as it is one of ASCII. -/
def letterSet? (f : Flags) (ranges : List CharRange) : Option CharSet :=
  if f.unicode then none else some (.within ranges)

/-- An assertion about words. -/
def wordLook (f : Flags) (a : Assertion) : Sign :=
  .look a f.unicode

/-- The assertion about words of the given name. -/
def wordLookOfName? : String → Option Assertion
  | "start" => some .wordStart
  | "end" => some .wordStop
  | "start-half" => some .noWordBefore
  | "end-half" => some .noWordAfter
  | _ => none

/-- A letter or a dash of the name of an assertion. -/
def isNameSign (c : Char) : Bool :=
  c.isAlpha || c == '-'

/-- An edge of a word, which may have a name in braces. -/
def wordEdge? (f : Flags) (cs : List Char) : Option (Sign × List Char) :=
  match cs with
  | '{' :: rest =>
    match f.run isNameSign (f.skip rest) with
    | ([], []) => none
    | ([], _) => some (wordLook f .wordEdge, cs)
    | (name, '}' :: rest) => do
      some (wordLook f (← wordLookOfName? (String.ofList name)), rest)
    | _ => none
  | _ => some (wordLook f .wordEdge, cs)

/-- What stands behind a backslash, and what follows it. -/
def sign? (f : Flags) : List Char → Option (Sign × List Char)
  | [] => none
  | c :: rest =>
    match c with
    | 'x' => (hexChar? f 2 rest).map fun (c, rest) => (.char c, rest)
    | 'u' => (hexChar? f 4 rest).map fun (c, rest) => (.char c, rest)
    | 'U' => (hexChar? f 8 rest).map fun (c, rest) => (.char c, rest)
    | 'd' => (letterSet? f [('0', '9')]).map fun s => (.set s, rest)
    | 's' => (letterSet? f CharSet.space).map fun s => (.set s, rest)
    | 'w' => (letterSet? f CharSet.word).map fun s => (.set s, rest)
    | 'a' => some (.char '\x07', rest)
    | 'f' => some (.char '\x0C', rest)
    | 't' => some (.char '\t', rest)
    | 'n' => some (.char '\n', rest)
    | 'r' => some (.char '\r', rest)
    | 'v' => some (.char '\x0B', rest)
    | 'A' => some (.look .textStart false, rest)
    | 'z' => some (.look .textStop false, rest)
    | 'b' => wordEdge? f rest
    | 'B' => some (wordLook f .noWordEdge, rest)
    | '<' => some (wordLook f .wordStart, rest)
    | '>' => some (wordLook f .wordStop, rest)
    | c => if c.isAlphanum || '\x7F' < c then none else some (.char c, rest)

end Expression
end Text
end Chronicle
