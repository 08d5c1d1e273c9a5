/-!
# JSON values

A document is a tree of values. Members of an object keep their order and may repeat a name: which
of the repeated members counts is for the reader of the object to say.

| constructor | what it stands for |
| --- | --- |
| `int` | a number written without point and exponent that fits 64 bits, signed or unsigned |
| `decimal` | any other number, kept as written (`1.0`, `1e3`, `-0`, a number of 20 digits) |
| `void` | a value in shape only: a number beyond the largest double, a text with half of a |
|  | surrogate pair, an object with such a text among its names |

A reader that skips a value does not look at it closely, so a `void` may stand in a skipped part of
a document. `sound` asks that there is none and that containers do not nest too deep.
-/

namespace Chronicle

/-- A JSON value. -/
inductive Json
  | null
  | bool (b : Bool)
  | int (n : Int)
  | decimal (text : String)
  | str (s : String)
  | arr (items : List Json)
  | obj (members : List (String × Json))
  | void
deriving Inhabited

namespace Json

/-- How deep containers may nest in a document. -/
def nestingLimit : Nat := 127

mutual

/-- The number of containers around the deepest value, the value itself included. -/
def depth : Json → Nat
  | .arr items => itemsDepth items + 1
  | .obj members => membersDepth members + 1
  | _ => 0

/-- The depth of the deepest item. -/
def itemsDepth : List Json → Nat
  | [] => 0
  | j :: rest => max j.depth (itemsDepth rest)

/-- The depth of the deepest member. -/
def membersDepth : List (String × Json) → Nat
  | [] => 0
  | (_, j) :: rest => max j.depth (membersDepth rest)

end

mutual

/-- No part of the value is void. -/
def isDefined : Json → Bool
  | .arr items => itemsDefined items
  | .obj members => membersDefined members
  | .void => false
  | _ => true

/-- No part of the items is void. -/
def itemsDefined : List Json → Bool
  | [] => true
  | j :: rest => j.isDefined && itemsDefined rest

/-- No part of the members is void. -/
def membersDefined : List (String × Json) → Bool
  | [] => true
  | (_, j) :: rest => j.isDefined && membersDefined rest

end

/-- A value without void parts that stands inside `outer` containers of a document. -/
def sound (outer : Nat) (j : Json) : Bool :=
  j.isDefined && decide (outer + j.depth ≤ nestingLimit)

/-- The text of a JSON string. -/
def str? : Json → Option String
  | .str s => some s
  | _ => none

/-- The truth value. -/
def bool? : Json → Option Bool
  | .bool b => some b
  | _ => none

/-- The items of an array. -/
def arr? : Json → Option (List Json)
  | .arr items => some items
  | _ => none

/-- The members of an object. -/
def obj? : Json → Option (List (String × Json))
  | .obj members => some members
  | _ => none

/-- A count. -/
def nat? : Json → Option Nat
  | .int n => n.toNat?
  | _ => none

/-- An integer of 32 bits. -/
def int32? : Json → Option Int32
  | .int n => if -2147483648 ≤ n ∧ n ≤ 2147483647 then some (Int32.ofInt n) else none
  | _ => none

/-- An integer of 64 bits. -/
def int64? : Json → Option Int64
  | .int n =>
    if -9223372036854775808 ≤ n ∧ n ≤ 9223372036854775807 then some (Int64.ofInt n) else none
  | _ => none

end Json
end Chronicle
