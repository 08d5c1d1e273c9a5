/-!
# Values

A value is what an attribute holds at a time. Values of different kinds are never equal, so the
32-bit `1` is not the 64-bit `1`.

| value | text | path segment |
| --- | --- | --- |
| `null` | `null` | none |
| `int 5` | `5` | `5` |
| `long 5` | `5L` | `5` |
| `text "a"` | `"a"` | `a` |
-/

namespace Chronicle

/-- What an attribute holds: nothing, an integer of 32 or 64 bits, or a text. -/
inductive Value
  | null
  | int (n : Int32)
  | long (n : Int64)
  | text (s : String)
deriving DecidableEq, Repr

/-- The kinds of values that hold something. -/
inductive Kind
  | int
  | long
  | string
deriving DecidableEq, Repr

/-- The name of a kind. -/
def Kind.name : Kind → String
  | .int => "int"
  | .long => "long"
  | .string => "string"

namespace Value

instance : Inhabited Value := ⟨.null⟩

/-- The value holds nothing. -/
def isNull : Value → Bool
  | .null => true
  | _ => false

/-- The kind of a value that holds something. -/
def kind? : Value → Option Kind
  | .null => none
  | .int _ => some .int
  | .long _ => some .long
  | .text _ => some .string

/-- The 32-bit integer held. -/
def int? : Value → Option Int32
  | .int n => some n
  | _ => none

/-- The 64-bit integer held. -/
def long? : Value → Option Int64
  | .long n => some n
  | _ => none

/-- The text held. -/
def text? : Value → Option String
  | .text s => some s
  | _ => none

/-- The name of an attribute that the value can stand for in a path. -/
def segment? : Value → Option String
  | .null => none
  | .int n => some (toString n.toInt)
  | .long n => some (toString n.toInt)
  | .text s => some s

/-- The value as it is shown: a 64-bit integer ends in `L` and a text stands in quotes, unescaped. -/
def render : Value → String
  | .null => "null"
  | .int n => toString n.toInt
  | .long n => toString n.toInt ++ "L"
  | .text s => "\"" ++ s ++ "\""

theorem isNull_iff {v : Value} : v.isNull = true ↔ v = .null := by
  cases v <;> simp [isNull]

theorem segment?_eq_none_iff {v : Value} : v.segment? = none ↔ v = .null := by
  cases v <;> simp [segment?]

end Value
end Chronicle
