import Chronicle.Text.Blank
import Chronicle.Text.Numeral
import Chronicle.Value.Basic

/-!
# Coercion

A value can be forced to a kind. `null` stays `null`. Numbers become texts as decimals, a 32-bit
integer widens, and a 64-bit integer keeps its low 32 bits. A text is read as a numeral of the
width asked for, after the blanks at its ends are dropped; that is the only coercion that can fail.
-/

namespace Chronicle

/-- A text that is no numeral of the kind asked for. -/
structure CoercionError where
  text : String
  kind : Kind
  fault : Numeral.Fault
deriving DecidableEq, Repr

namespace CoercionError

/-- The wording, which quotes the text with its blanks. -/
def message (e : CoercionError) : String :=
  "cannot force '" ++ e.text ++ "' to " ++ e.kind.name ++ ": " ++ e.fault.message

end CoercionError

namespace Value

/-- A text as a numeral of `bits` bits. -/
def readNumeral (bits : Nat) (kind : Kind) (s : String) : Except CoercionError Int :=
  (Numeral.read bits (Text.trim s.toList)).mapError fun fault => ⟨s, kind, fault⟩

/-- The value forced to a kind. -/
def coerce : Value → Kind → Except CoercionError Value
  | .null, _ => .ok .null
  | .int n, .int => .ok (.int n)
  | .int n, .long => .ok (.long n.toInt64)
  | .int n, .string => .ok (.text (toString n.toInt))
  | .long n, .int => .ok (.int n.toInt32)
  | .long n, .long => .ok (.long n)
  | .long n, .string => .ok (.text (toString n.toInt))
  | .text s, .int => (readNumeral 32 .int s).map fun n => .int (Int32.ofInt n)
  | .text s, .long => (readNumeral 64 .long s).map fun n => .long (Int64.ofInt n)
  | .text s, .string => .ok (.text s)

theorem coerce_null (k : Kind) : Value.null.coerce k = .ok .null := by
  cases k <;> rfl

end Value
end Chronicle
