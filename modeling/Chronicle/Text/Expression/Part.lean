import Chronicle.Text.Expression.Basic

/-!
# Parts of regular expressions

An expression is matched by a machine, in which repetitions are written out. Beside what it matches,
a part of an expression has a depth of nesting, a size, and may need a table that there is not: that
of the words of all scripts.

The size is counted in arrows between states. A state counts eight arrows, a range of bytes two.

| part | size |
| --- | --- |
| nothing, an assertion | a state |
| a character | a state for each of its bytes |
| a set of ASCII | two states and its ranges |
| any other set | `wideSetSize`, the size of the set of all characters |
| parts in a row | their sizes |
| one of `n` parts | their sizes, two states and `n` arrows |
| a group that is captured | its size and two states |
| `n` times a part | `n` times its size |
| any number of times more | a state and two arrows |
| up to `m` times more | `m` times its size with a state and two arrows, and one more state |

A part that matches the empty piece only is written out once at most, and one that is asked for no
times at all is nothing, whatever it needs.
-/

namespace Chronicle
namespace Text
namespace Expression

/-- A part of an expression. -/
structure Part where
  value : Expression := .empty
  depth : Nat := 0
  size : Nat := 8
  needsTable : Bool := false

/-- The size of the set of all characters. -/
def wideSetSize : Nat := 250

/-- The number of ranges of a set of ASCII. -/
def asciiRanges (s : CharSet) : Nat :=
  let members := (List.range 128).map fun n => s.holds (Char.ofNat n)
  ((false :: members).zip members).countP fun (before, now) => !before && now

/-- The characters of ASCII that are in a set. -/
def asciiMembers (s : CharSet) : Nat :=
  (List.range 128).countP fun n => s.holds (Char.ofNat n)

/-- No character beyond ASCII is in a set, as far as its ranges tell. -/
def isAscii : CharSet → Bool
  | .within ranges => ranges.all fun range => range.2 ≤ '\x7F'
  | .outside _ => false
  | .union a b => isAscii a && isAscii b
  | .inter a b => isAscii a || isAscii b
  | .folded s => isAscii s

/-- The size of a set. -/
def setSize (s : CharSet) : Nat :=
  if !isAscii s then wideSetSize
  else if asciiMembers s < 2 then 8
  else 16 + 2 * asciiRanges s

/-- The expression matches the empty piece only. -/
def onlyEmpty : Expression → Bool
  | .empty => true
  | .look _ => true
  | .one _ => false
  | .seq a b => onlyEmpty a && onlyEmpty b
  | .either a b => onlyEmpty a && onlyEmpty b
  | .times a _ most => most == some 0 || onlyEmpty a

namespace Part

/-- A character. -/
def char (c : Char) : Part :=
  { value := .one (.single c), size := 8 * c.utf8Size }

/-- A set of characters. -/
def set (s : CharSet) (depth : Nat) : Part :=
  { value := .one s, depth, size := setSize s }

/-- An assertion. -/
def look (a : Assertion) (needsTable : Bool) : Part :=
  { value := .look a, needsTable }

/-- A part in a group. -/
def inGroup (p : Part) (isCaptured : Bool) : Part :=
  { p with depth := p.depth + 1, size := if isCaptured then p.size + 16 else p.size }

/-- Two parts in a row. -/
def seq (p q : Part) : Part :=
  { value := if q.value = .empty then p.value else if p.value = .empty then q.value
      else .seq p.value q.value
    depth := max p.depth q.depth
    size := if q.value = .empty then p.size else if p.value = .empty then q.size
      else p.size + q.size
    needsTable := p.needsTable || q.needsTable }

/-- One of two parts, of which the second may be such a choice itself. -/
def either (p q : Part) : Part :=
  { value := .either p.value q.value
    depth := max p.depth q.depth
    size := p.size + q.size + 1
    needsTable := p.needsTable || q.needsTable }

/-- A part from `least` times up to `most` times, if there is a most. -/
def times (p : Part) (least : Nat) (most : Option Nat) : Part :=
  let (low, high) : Nat × Option Nat :=
    if onlyEmpty p.value then (min least 1, some ((most.map (min · 1)).getD 1)) else (least, most)
  if high = some 0 then { depth := p.depth + 1 }
  else
    let more :=
      match high with
      | none => 10
      | some high => if low = high then 0 else (high - low) * (p.size + 10) + 8
    { value := .times p.value low high
      depth := p.depth + 1
      size := (if low = 0 then if high.isNone then p.size else 0 else low * p.size) + more
      needsTable := p.needsTable }

end Part
end Expression
end Text
end Chronicle
