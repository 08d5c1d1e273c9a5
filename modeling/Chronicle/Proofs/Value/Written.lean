import Chronicle.Value.Json

/-!
# Values are read as they are written

An integer of 32 or 64 bits is written as the integer that it is, and read back from it.
-/

namespace Chronicle

namespace Json

theorem int32?_toInt (n : Int32) : (Json.int n.toInt).int32? = some n := by
  have hle := n.le_toInt
  have hlt := n.toInt_lt
  rw [int32?, if_pos (by omega), Int32.ofInt_toInt]

theorem int32?_eq_some_iff {j : Json} {n : Int32} : j.int32? = some n ↔ j = .int n.toInt := by
  constructor
  · intro h
    cases j with
    | int i =>
        obtain ⟨hi, hn⟩ := Option.ite_none_right_eq_some.mp h
        obtain rfl := Option.some.inj hn
        rw [Int32.toInt_ofInt_of_le (by omega) (by omega)]
    | _ => cases h
  · rintro rfl
    exact int32?_toInt n

theorem int64?_toInt (n : Int64) : (Json.int n.toInt).int64? = some n := by
  have hle := n.le_toInt
  have hlt := n.toInt_lt
  rw [int64?, if_pos (by omega), Int64.ofInt_toInt]

theorem int64?_eq_some_iff {j : Json} {n : Int64} : j.int64? = some n ↔ j = .int n.toInt := by
  constructor
  · intro h
    cases j with
    | int i =>
        obtain ⟨hi, hn⟩ := Option.ite_none_right_eq_some.mp h
        obtain rfl := Option.some.inj hn
        rw [Int64.toInt_ofInt_of_le (by omega) (by omega)]
    | _ => cases h
  · rintro rfl
    exact int64?_toInt n

end Json

theorem Value.ofJson?_toJson (position : Json.Position) (v : Value) :
    ofJson? position v.toJson = some v := by
  cases v with
  | null => rfl
  | int n => exact congrArg (Option.map _) (Json.int32?_toInt n)
  | long n => exact congrArg (Option.map _) (Json.int64?_toInt n)
  | text s => rfl

theorem Kind.ofJson?_toJson (position : Json.Position) (k : Kind) :
    ofJson? position k.toJson = some k := by
  cases k <;> rfl

end Chronicle
