import Chronicle.Text.Expression.Class
import Chronicle.Text.Expression.Part
import Chronicle.Text.Letter

/-!
# Reading regular expressions

| written | matches |
| --- | --- |
| `c`, `\.` | the character, and what the escape stands for |
| `.` | any character but a line feed |
| `[a-z_]` | one of the characters of the class |
| `^`, `$` | the empty piece, at the start or at the end of the text |
| `r*`, `r+`, `r?` | any number of times `r`, at least once, at most once |
| `r{n}`, `r{n,}`, `r{n,m}` | `n` times `r`, at least so often, up to `m` times |
| `(r)`, `(?:r)`, `(?<name>r)` | what `r` matches |
| `rs` | `r` and then `s` |
| `r` and `s` with a bar between | what `r` or `s` matches |
| `(?flags)`, `(?flags:r)` | the empty piece or what `r` matches, with flags set |

A question mark behind a repetition changes nothing of what is matched. Flags that are set in a
group count up to its end. The name of a group begins with a letter or `_` and goes on with letters,
numbers and `_`, `.`, `[`, `]`; no two groups have the same.

There is no table of the cases of letters: in characters, none can be taken in either case. An
expression nests at most 250 deep, and is refused when the machine that matches it would be too
large or would need a table that there is not.
-/

namespace Chronicle
namespace Text
namespace Expression

/-- A group that is being read: the flags around it, whether it is captured, its alternatives before
the last, the last one first, and the parts of the last, again the last one first. Where flags are
set there is no part. -/
structure Group where
  outer : Flags := {}
  isCaptured : Bool := false
  before : List Part := []
  parts : List (Option Part) := []

namespace Group

/-- The last alternative. -/
def last (g : Group) : Part :=
  let p := (g.parts.filterMap id).foldl (fun rest p => p.seq rest) {}
  if g.parts.length < 2 then p else { p with depth := p.depth + 1 }

/-- What stands in the group. -/
def content (g : Group) : Part :=
  match g.before with
  | [] => g.last
  | before =>
    let p := before.foldl (fun rest p => p.either rest) g.last
    { p with depth := p.depth + 1, size := p.size + 17 }

/-- The group with one more part. -/
def add (g : Group) (p : Part) : Group :=
  { g with parts := some p :: g.parts }

/-- The group with its last part repeated, if there is one. -/
def repeat? (g : Group) (least : Nat) (most : Option Nat) : Option Group :=
  match g.parts with
  | some p :: parts => some { g with parts := some (p.times least most) :: parts }
  | _ => none

end Group

/-- What follows a repetition, less a question mark. -/
def afterRepetition : List Char → List Char
  | '?' :: rest => rest
  | rest => rest

/-- How often something is repeated, as it stands behind an opening brace, and what follows. -/
def bounds? (f : Flags) (cs : List Char) : Option ((Nat × Option Nat) × List Char) := do
  let (least, rest) := f.count? (f.skip cs)
  let (bounds, rest) : (Nat × Option Nat) × List Char ←
    match rest with
    | ',' :: rest =>
      match f.skip rest with
      | '}' :: rest => some ((← least, none), '}' :: rest)
      | rest =>
        let (most, rest) := f.count? rest
        some ((← least, some (← most)), rest)
    | rest => some ((← least, some (← least)), rest)
  let '}' :: rest := rest | none
  if bounds.2.all (bounds.1 ≤ ·) then some (bounds, f.skip rest) else none

/-- One character, in either case if letters are taken so. -/
def charPart? (f : Flags) (c : Char) : Option Part :=
  if !f.caseless then some (.char c)
  else if f.unicode then none
  else some (if c.isAlpha then .set (caseOf f (.single c)) 0 else .char c)

/-- What a sign behind a backslash matches. -/
def signPart? (f : Flags) : Sign → Option Part
  | .char c => charPart? f c
  | .set s => some (.set s 0)
  | .look a needsTable => some (.look a needsTable)

/-- What the point matches. -/
def anyChar? (f : Flags) : Option Part :=
  let but : List CharRange :=
    if f.dotAll then [] else if f.returns then [('\r', '\r'), ('\n', '\n')] else [('\n', '\n')]
  if f.unicode then some (.set (.outside (.within but)) 0) else none

/-- The start of a line or of the text. -/
def startLook (f : Flags) : Assertion :=
  if !f.multiline then .textStart else if f.returns then .returnStart else .lineStart

/-- The end of a line or of the text. -/
def stopLook (f : Flags) : Assertion :=
  if !f.multiline then .textStop else if f.returns then .returnStop else .lineStop

/-- How a group begins: it may set flags for itself or, if it is no group, for what follows. It is
captured if it sets none, and may have a name then. -/
inductive Opening
  | captured (name : Option String)
  | plain (f : Flags)
  | setting (f : Flags)

/-- A character that the name of a group may begin with. -/
def beginsName (c : Char) : Bool :=
  c == '_' || isLetter c

/-- A character of the name of a group. -/
def isInName (c : Char) : Bool :=
  beginsName c || isNumber c || c == '.' || c == '[' || c == ']'

/-- The name of a group up to its closing bracket, and what follows. -/
def groupName? (cs : List Char) : Option (Opening × List Char) :=
  let name := cs.takeWhile isInName
  match cs.drop name.length with
  | '>' :: rest =>
    if name.head?.any beginsName then some (.captured (some (String.ofList name)), rest) else none
  | _ => none

/-- How a group begins behind its opening bracket, and what follows. -/
def opening? (f : Flags) (cs : List Char) : Option (Opening × List Char) :=
  match f.skip cs with
  | '?' :: '=' :: _ => none
  | '?' :: '!' :: _ => none
  | '?' :: '<' :: '=' :: _ => none
  | '?' :: '<' :: '!' :: _ => none
  | '?' :: 'P' :: '<' :: rest => groupName? rest
  | '?' :: '<' :: rest => groupName? rest
  | '?' :: rest =>
    match f.read [] rest with
    | some (inner, _, ':', rest) => some (.plain inner, rest)
    | some (inner, true, _, rest) => some (.setting inner, rest)
    | _ => none
  | rest => some (.captured none, rest)

/-- Reads on in a group with the given flags, within the groups `around`, when groups have the names
`names`; `fuel` bounds the number of steps. -/
def readOn : (fuel : Nat) → (f : Flags) → (names : List String) → (g : Group) →
    (around : List Group) → List Char → Option Part
  | 0, _, _, _, _, _ => none
  | fuel + 1, f, names, g, around, cs =>
    match f.skip cs with
    | [] => if around.isEmpty then some g.content else none
    | '(' :: rest => do
      match ← opening? f rest with
      | (.setting inner, rest) =>
        readOn fuel inner names { g with parts := none :: g.parts } around rest
      | (.plain inner, rest) => readOn fuel inner names { outer := f } (g :: around) rest
      | (.captured name, rest) =>
        if name.any names.contains then none
        else
          let inner : Group := { outer := f, isCaptured := true }
          readOn fuel f (name.toList ++ names) inner (g :: around) rest
    | ')' :: rest =>
      match around with
      | [] => none
      | outer :: around =>
        readOn fuel g.outer names (outer.add (g.content.inGroup g.isCaptured)) around rest
    | '|' :: rest =>
      readOn fuel f names { g with before := g.last :: g.before, parts := [] } around rest
    | '*' :: rest => do readOn fuel f names (← g.repeat? 0 none) around (afterRepetition rest)
    | '+' :: rest => do readOn fuel f names (← g.repeat? 1 none) around (afterRepetition rest)
    | '?' :: rest => do readOn fuel f names (← g.repeat? 0 (some 1)) around (afterRepetition rest)
    | '{' :: rest => do
      let ((least, most), rest) ← bounds? f rest
      readOn fuel f names (← g.repeat? least most) around (afterRepetition rest)
    | '[' :: rest => do
      let (s, rest) ← class? f rest
      readOn fuel f names (g.add (.set s.set (s.depth + 1))) around rest
    | '.' :: rest => do readOn fuel f names (g.add (← anyChar? f)) around rest
    | '^' :: rest => readOn fuel f names (g.add (.look (startLook f) false)) around rest
    | '$' :: rest => readOn fuel f names (g.add (.look (stopLook f) false)) around rest
    | '\\' :: rest => do
      let (s, rest) ← sign? f rest
      readOn fuel f names (g.add (← signPart? f s)) around rest
    | c :: rest => do readOn fuel f names (g.add (← charPart? f c)) around rest

/-- How deep an expression may nest. -/
def nestingLimit : Nat := 250

/-- How large a machine may be. -/
def sizeLimit : Nat := 2621440

/-- The size of what comes to the machine of an expression so that it finds a piece anywhere. -/
def searchSize : Nat := 52

/-- The expression that a text spells. -/
def read? (s : String) : Option Expression := do
  let p ← readOn (s.length + 1) {} [] {} [] s.toList
  if p.depth ≤ nestingLimit && p.size + searchSize ≤ sizeLimit && !p.needsTable then some p.value
  else none

end Expression
end Text
end Chronicle
