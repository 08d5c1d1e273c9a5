import Chronicle.Text.Expression.Escape

/-!
# Classes of regular expressions

A class stands in brackets and holds characters, ranges and sets.

| written | holds |
| --- | --- |
| `[a-z_]`, `[^a-z_]` | the characters, all but the characters |
| `[a[bc]]` | what an inner class holds as well |
| `[[:alpha:]]`, `[[:^alpha:]]` | the ASCII characters of a kind, all but them |
| `[a-z&&[aeiou]]` | what both sides hold |
| `[a-z--[aeiou]]` | what the left side holds and the right one does not |
| `[a-z~~[aeiou]]` | what one of the sides holds, but not both |

The sides are joined from the left. Dashes at the start stand for themselves, and so does a closing
bracket that nothing is before. Behind a character a dash makes a range, unless a closing bracket or
another dash follows it. Where blanks and comments may stand between the parts, they may follow the
dash; the sign that counts is then the one behind the blanks, or inside the comment if one comes
first.

Where bytes are matched and not characters a class holds ASCII only, and only there its letters can
stand for either case: there is no table of the cases of other characters.
-/

namespace Chronicle
namespace Text
namespace Expression

/-- What joins two sets in a class. -/
inductive Joint
  | inter
  | diff
  | symDiff

/-- A set that is being read, how many things are in it, and how deep they nest. -/
structure SetUnion where
  set : CharSet := .empty
  count : Nat := 0
  deepest : Nat := 0

/-- How deep a union nests. -/
def SetUnion.depth (u : SetUnion) : Nat :=
  if u.count < 2 then u.deepest else u.deepest + 1

/-- The union with one more set that nests as deep as given. -/
def SetUnion.add (u : SetUnion) (s : CharSet) (depth : Nat) : SetUnion :=
  { set := .union u.set s, count := u.count + 1, deepest := max u.deepest depth }

/-- A set and how deep it nests. -/
structure NestedSet where
  set : CharSet
  depth : Nat

/-- A class that is being read: whether it is negated, the set and the joint before the current
union, and that union. -/
structure OpenClass where
  negated : Bool := false
  before : Option (NestedSet × Joint) := none
  union : SetUnion := {}

/-- A set with its letters in either case if they are taken so. -/
def caseOf (f : Flags) (s : CharSet) : CharSet :=
  if f.caseless then .folded s else s

/-- A set that was read: folded, negated, and only of ASCII if characters are not asked for. -/
def settled? (f : Flags) (negated : Bool) (s : CharSet) : Option CharSet :=
  let s := if negated then .outside (caseOf f s) else caseOf f s
  if !f.unicode && s.holds '\x80' then none else some s

namespace OpenClass

/-- The class with one more set in its union; in characters no set can be taken in either case. -/
def add? (f : Flags) (k : OpenClass) (s : CharSet) : Option OpenClass :=
  if f.caseless && f.unicode then none else some { k with union := k.union.add s 0 }

/-- The class with one more range. -/
def addRange? (f : Flags) (k : OpenClass) (first last : Char) : Option OpenClass :=
  if first ≤ last && (f.unicode || last ≤ '\x7F') then k.add? f (.within [(first, last)]) else none

/-- The class with an inner class. -/
def addClass (k : OpenClass) (inner : NestedSet) : OpenClass :=
  { k with union := k.union.add inner.set (inner.depth + 1) }

/-- The set so far. -/
def joined (f : Flags) (k : OpenClass) : NestedSet :=
  match k.before with
  | none => ⟨k.union.set, k.union.depth⟩
  | some (left, j) =>
    let a := caseOf f left.set
    let b := caseOf f k.union.set
    let s : CharSet :=
      match j with
      | .inter => .inter a b
      | .diff => a.diff b
      | .symDiff => a.symDiff b
    ⟨s, max left.depth k.union.depth + 1⟩

/-- The class before the next set that it is joined with. -/
def join (f : Flags) (k : OpenClass) (j : Joint) : OpenClass :=
  { k with before := some (k.joined f, j), union := {} }

/-- The class when its closing bracket is read. -/
def close? (f : Flags) (k : OpenClass) : Option NestedSet :=
  (settled? f k.negated (k.joined f).set).map fun s => ⟨s, (k.joined f).depth⟩

/-- The dashes at the start of a class, and what follows; `fuel` bounds their number. -/
def dashes (f : Flags) : (fuel : Nat) → OpenClass → List Char → Option (OpenClass × List Char)
  | fuel + 1, k, '-' :: rest => do dashes f fuel (← k.addRange? f '-' '-') (f.skip rest)
  | _, k, cs => some (k, cs)

/-- The start of a class behind its bracket: a sign that negates it, dashes, or else a closing
bracket that stands for itself. -/
def start? (f : Flags) (cs : List Char) : Option (OpenClass × List Char) :=
  let (k, cs) : OpenClass × List Char :=
    match f.skip cs with
    | '^' :: rest => ({ negated := true }, f.skip rest)
    | cs => ({}, cs)
  match cs with
  | ']' :: rest => do some (← k.addRange? f ']' ']', f.skip rest)
  | cs => dashes f cs.length k cs

end OpenClass

/-- A class by its name, as in `[:alpha:]`, and what follows. -/
def namedClass? (cs : List Char) : Option ((Bool × List CharRange) × List Char) :=
  match cs with
  | '[' :: ':' :: rest => do
    let (negated, rest) : Bool × List Char :=
      match rest with
      | '^' :: rest => (true, rest)
      | rest => (false, rest)
    let name := rest.takeWhile (· != ':')
    let ranges ← CharSet.ofName? (String.ofList name)
    let ':' :: ']' :: rest := rest.drop name.length | none
    some ((negated, ranges), rest)
  | _ => none

/-- One sign in a class, and what follows. -/
def classSign? (f : Flags) : List Char → Option (Sign × List Char)
  | '\\' :: rest => sign? f rest
  | c :: rest => some (.char c, rest)
  | [] => none

/-- The sign behind a dash that says whether the dash makes a range. -/
def signBehindDash? (f : Flags) (cs : List Char) : Option Char :=
  if f.spaced then
    match cs.dropWhile isBlank with
    | '#' :: rest => (rest.dropWhile isBlank).head?
    | rest => rest.head?
  else cs.head?

/-- What stands behind the dash of a range, if there is a range. -/
def afterRangeDash? (f : Flags) : List Char → Option (List Char)
  | '-' :: rest =>
    match signBehindDash? f rest with
    | some ']' => none
    | some '-' => none
    | _ => some (f.skip rest)
  | _ => none

/-- The class with the next sign or range, and what follows. -/
def classItem? (f : Flags) (k : OpenClass) (cs : List Char) : Option (OpenClass × List Char) := do
  let (first, rest) ← classSign? f cs
  let rest := f.skip rest
  match afterRangeDash? f rest with
  | some behind =>
    match first, ← classSign? f behind with
    | .char a, (.char b, rest) => some (← k.addRange? f a b, rest)
    | _, _ => none
  | none =>
    match first with
    | .char a => some (← k.addRange? f a a, rest)
    | .set s => some (← k.add? f s, rest)
    | .look _ _ => none

/-- Reads on in a class, within the classes `around`, up to its closing bracket; `fuel` bounds the
number of steps. -/
def readClass (f : Flags) : (fuel : Nat) → (k : OpenClass) → (around : List OpenClass) →
    List Char → Option (NestedSet × List Char)
  | 0, _, _, _ => none
  | fuel + 1, k, around, cs =>
    match f.skip cs with
    | [] => none
    | '[' :: rest =>
      match namedClass? ('[' :: rest) with
      | some ((negated, ranges), rest) => do
        let s ← settled? f negated (.within ranges)
        readClass f fuel (← k.add? f s) around rest
      | none => do
        let (inner, rest) ← OpenClass.start? f rest
        readClass f fuel inner (k :: around) rest
    | ']' :: rest => do
      let s ← k.close? f
      match around with
      | [] => some (s, rest)
      | outer :: around => readClass f fuel (outer.addClass s) around rest
    | '&' :: '&' :: rest => readClass f fuel (k.join f .inter) around rest
    | '-' :: '-' :: rest => readClass f fuel (k.join f .diff) around rest
    | '~' :: '~' :: rest => readClass f fuel (k.join f .symDiff) around rest
    | cs => do
      let (k, rest) ← classItem? f k cs
      readClass f fuel k around rest

/-- The set of a class behind its opening bracket, and what follows. -/
def class? (f : Flags) (cs : List Char) : Option (NestedSet × List Char) := do
  let (k, rest) ← OpenClass.start? f cs
  readClass f (cs.length + 1) k [] rest

end Expression
end Text
end Chronicle
