import Chronicle.Interpreter.Failure
import Chronicle.Proofs.Text.Numeral

/-!
# What values are forced to

A text is forced to the integer that its numeral denotes, after the blanks at its ends, if this
integer fits the kind, and is refused otherwise, for the fault of the numeral
(`Value.forces_numerals`).

An integer is written as a numeral of itself (`Numeral.denotes_toString`). So a text that an integer
was forced to comes back as this integer, if that fits, and the other coercions agree with it
(`Value.coercions_cohere`).
-/

namespace Chronicle

namespace Value

/-- The integer held, of 32 or 64 bits. -/
def integer? : Value → Option Int
  | .int n => some n.toInt
  | .long n => some n.toInt
  | _ => none

variable {bits : Nat} {kind : Kind} {s : String} {n : Int} {v : Value} {e : CoercionError}

/-! ### Texts as integers -/

theorem readNumeral_eq_ok_iff :
    readNumeral bits kind s = .ok n ↔
      Numeral.Denotes (Text.trim s.toList) n ∧ Numeral.Fits bits n := by
  rw [← Numeral.read_eq_ok_iff, readNumeral]
  cases Numeral.read bits (Text.trim s.toList) with
  | ok m => simp only [Except.mapError, Except.ok.injEq]
  | error fault => exact iff_of_false nofun nofun

theorem readNumeral_eq_error_iff :
    readNumeral bits kind s = .error e ↔
      e.text = s ∧ e.kind = kind ∧ Numeral.Faulty bits (Text.trim s.toList) e.fault := by
  rw [← Numeral.read_eq_error_iff, readNumeral]
  cases Numeral.read bits (Text.trim s.toList) with
  | ok m => exact iff_of_false nofun fun h => nomatch h.2.2
  | error fault =>
      obtain ⟨text, kind', fault'⟩ := e
      simp only [Except.mapError, Except.error.injEq, CoercionError.mk.injEq]
      exact ⟨fun ⟨hs, hk, hf⟩ => ⟨hs.symm, hk.symm, hf⟩, fun ⟨hs, hk, hf⟩ => ⟨hs.symm, hk.symm, hf⟩⟩

/-- An integer that fits 32 bits is held by one value of this kind. -/
theorem int_ofInt_eq_iff (h : Numeral.Fits 32 n) :
    Value.int (Int32.ofInt n) = v ↔ v.kind? = some .int ∧ v.integer? = some n := by
  have hback : (Int32.ofInt n).toInt = n := Int32.toInt_ofInt_of_le h.1 h.2
  constructor
  · rintro rfl
    exact ⟨rfl, congrArg some hback⟩
  · rintro ⟨hkind, hinteger⟩
    cases v with
    | int m =>
        rw [integer?, Option.some_inj, ← hback] at hinteger
        rw [Int32.toInt_inj.mp hinteger]
    | null => cases hkind
    | long m => cases hkind
    | text s => cases hkind

/-- An integer that fits 64 bits is held by one value of this kind. -/
theorem long_ofInt_eq_iff (h : Numeral.Fits 64 n) :
    Value.long (Int64.ofInt n) = v ↔ v.kind? = some .long ∧ v.integer? = some n := by
  have hback : (Int64.ofInt n).toInt = n := Int64.toInt_ofInt_of_le h.1 h.2
  constructor
  · rintro rfl
    exact ⟨rfl, congrArg some hback⟩
  · rintro ⟨hkind, hinteger⟩
    cases v with
    | long m =>
        rw [integer?, Option.some_inj, ← hback] at hinteger
        rw [Int64.toInt_inj.mp hinteger]
    | null => cases hkind
    | int m => cases hkind
    | text s => cases hkind

/-- What a text is forced to, as a kind of integers of `bits` bits, if trimming it leaves `body`.

* `accepts`: it is forced to the integer that the body denotes, if that fits.
* `refuses`: otherwise the error has the text, the kind and the fault of the body.
* `told`: the failure is that of an invalid mutation, and it quotes the text with its blanks. -/
structure Forced (s : String) (kind : Kind) (bits : Nat) (body : List Char) : Prop where
  accepts : ∀ v, (Value.text s).coerce kind = .ok v ↔
    ∃ n, Numeral.Denotes body n ∧ Numeral.Fits bits n ∧ v.kind? = some kind ∧ v.integer? = some n
  refuses : ∀ e, (Value.text s).coerce kind = .error e ↔
    e.text = s ∧ e.kind = kind ∧ Numeral.Faulty bits body e.fault
  told : ∀ e, (Value.text s).coerce kind = .error e →
    (ChangeError.uncoercible e).category = .invalidMutation ∧
      (ChangeError.uncoercible e).message = "Invalid mutation: " ++
        ("cannot force '" ++ s ++ "' to " ++ kind.name ++ ": " ++ e.fault.message)

/-- A kind of integers is forced by reading a numeral. -/
theorem forced_of_readNumeral {f : Int → Value}
    (hcoerce : (Value.text s).coerce kind = (readNumeral bits kind s).map f)
    (hf : ∀ n v, Numeral.Fits bits n → (f n = v ↔ v.kind? = some kind ∧ v.integer? = some n)) :
    Forced s kind bits (Text.trim s.toList) := by
  have hrefuses : ∀ e, (Value.text s).coerce kind = .error e ↔
      e.text = s ∧ e.kind = kind ∧ Numeral.Faulty bits (Text.trim s.toList) e.fault := by
    intro e
    rw [← readNumeral_eq_error_iff, hcoerce]
    cases readNumeral bits kind s with
    | ok n => exact iff_of_false nofun nofun
    | error e' => simp only [Except.map, Except.error.injEq]
  refine ⟨fun v => ?_, hrefuses, fun e he => ?_⟩
  · rw [hcoerce, map_eq_ok_iff]
    constructor
    · rintro ⟨n, hn, hv⟩
      obtain ⟨hdenotes, hfits⟩ := readNumeral_eq_ok_iff.mp hn
      exact ⟨n, hdenotes, hfits, (hf n v hfits).mp hv⟩
    · rintro ⟨n, hdenotes, hfits, hv⟩
      exact ⟨n, readNumeral_eq_ok_iff.mpr ⟨hdenotes, hfits⟩, (hf n v hfits).mpr hv⟩
  · obtain ⟨rfl, rfl, -⟩ := (hrefuses e).mp he
    exact ⟨rfl, rfl⟩

/-- **A text is forced to the integer that its numeral denotes.** -/
theorem forces_numerals (s : String) :
    ∃ body, Text.Trims s.toList body ∧ Forced s .int 32 body ∧ Forced s .long 64 body :=
  ⟨Text.trim s.toList, Text.trims_trim s.toList,
    forced_of_readNumeral rfl fun _ _ => int_ofInt_eq_iff,
    forced_of_readNumeral rfl fun _ _ => long_ofInt_eq_iff⟩

/-! ### Coherence -/

/-- The text of an integer is read as this integer, if it fits, and is refused otherwise. -/
theorem readNumeral_toString {m : Int} :
    readNumeral bits kind (toString n) = .ok m ↔ m = n ∧ Numeral.Fits bits n := by
  have hdenotes := Numeral.denotes_toString n
  rw [readNumeral_eq_ok_iff, hdenotes.trim_eq]
  constructor
  · rintro ⟨hm, hfits⟩
    obtain rfl := hm.unique hdenotes
    exact ⟨rfl, hfits⟩
  · rintro ⟨rfl, hfits⟩
    exact ⟨hdenotes, hfits⟩

theorem map_readNumeral_toString {f : Int → Value} :
    (readNumeral bits kind (toString n)).map f = .ok v ↔ Numeral.Fits bits n ∧ v = f n := by
  rw [map_eq_ok_iff]
  constructor
  · rintro ⟨m, hm, rfl⟩
    obtain ⟨rfl, hfits⟩ := readNumeral_toString.mp hm
    exact ⟨hfits, rfl⟩
  · rintro ⟨hfits, rfl⟩
    exact ⟨n, readNumeral_toString.mpr ⟨rfl, hfits⟩, rfl⟩

/-- What a value is forced to is of the kind, or `null` if the value is. -/
theorem kind?_of_coerce {w : Value} (h : v.coerce kind = .ok w) :
    w.kind? = if v.isNull then none else some kind := by
  cases v with
  | null =>
      rw [coerce_null] at h
      rw [← Except.ok.inj h]
      rfl
  | int i => cases kind <;> rw [← Except.ok.inj h] <;> rfl
  | long i => cases kind <;> rw [← Except.ok.inj h] <;> rfl
  | text s =>
      cases kind with
      | int =>
          obtain ⟨n, -, rfl⟩ := map_eq_ok_iff.mp h
          rfl
      | long =>
          obtain ⟨n, -, rfl⟩ := map_eq_ok_iff.mp h
          rfl
      | string =>
          rw [← Except.ok.inj h]
          rfl

/-- To force a value to its own kind changes nothing. -/
theorem coerce_of_kind? (h : v.kind? = none ∨ v.kind? = some kind) : v.coerce kind = .ok v := by
  have hkind : ∀ k, some k = (none : Option Kind) ∨ some k = some kind → k = kind := by
    rintro k (h | h)
    · cases h
    · exact Option.some.inj h
  cases v with
  | null => exact coerce_null kind
  | int i =>
      obtain rfl := hkind .int h
      rfl
  | long i =>
      obtain rfl := hkind .long h
      rfl
  | text s =>
      obtain rfl := hkind .string h
      rfl

/-- An integer that fits 32 bits keeps its value in them. -/
theorem toInt32_eq_ofInt {i : Int64} (h : Numeral.Fits 32 i.toInt) :
    i.toInt32 = Int32.ofInt i.toInt := by
  have hlow : -(2 : Int) ^ 31 ≤ i.toInt := h.1
  have hhigh : i.toInt < (2 : Int) ^ 31 := h.2
  rw [← Int32.toInt_inj, Int64.toInt_toInt32, Int32.toInt_ofInt_of_le hlow hhigh]
  exact Int.bmod_eq_of_le (by omega) (by omega)

/-- How the coercions go together.

* `kept`: what a value is forced to is of the kind, or `null` if and only if the value is, and to
  force it again changes nothing.
* `int_text`, `int_long`, `long_text`: an integer comes back from a text, and from more bits.
* `narrowed`: an integer of 64 bits is forced to the one of 32 bits that is congruent to it.
* `text_narrowed`: by way of a text it is forced to 32 bits if and only if it fits, and then to the
  same. -/
structure Coherent : Prop where
  kept : ∀ (v w : Value) (k : Kind), v.coerce k = .ok w →
    (w.kind? = if v.isNull then none else some k) ∧ w.coerce k = .ok w
  int_text : ∀ i : Int32, ((Value.int i).coerce .string >>= (·.coerce .int)) = .ok (.int i)
  int_long : ∀ i : Int32, ((Value.int i).coerce .long >>= (·.coerce .int)) = .ok (.int i)
  long_text : ∀ i : Int64, ((Value.long i).coerce .string >>= (·.coerce .long)) = .ok (.long i)
  narrowed : ∀ i : Int64, ∃ j : Int32, (Value.long i).coerce .int = .ok (.int j) ∧
    (4294967296 : Int) ∣ i.toInt - j.toInt
  text_narrowed : ∀ (i : Int64) (w : Value),
    ((Value.long i).coerce .string >>= (·.coerce .int)) = .ok w ↔
      Numeral.Fits 32 i.toInt ∧ (Value.long i).coerce .int = .ok w

/-- **The coercions go together.** -/
theorem coercions_cohere : Coherent where
  kept v w k h := by
    have hkind := kind?_of_coerce h
    refine ⟨hkind, coerce_of_kind? ?_⟩
    rw [hkind]
    cases v.isNull <;> simp
  int_text i := by
    have hfits : Numeral.Fits 32 i.toInt := ⟨i.le_toInt, i.toInt_lt⟩
    change (Value.text (toString i.toInt)).coerce .int = .ok (.int i)
    rw [coerce, map_readNumeral_toString, Int32.ofInt_toInt]
    exact ⟨hfits, rfl⟩
  int_long i := by
    change Except.ok (Value.int i.toInt64.toInt32) = .ok (.int i)
    rw [Int32.toInt32_toInt64]
  long_text i := by
    have hfits : Numeral.Fits 64 i.toInt := ⟨i.le_toInt, i.toInt_lt⟩
    change (Value.text (toString i.toInt)).coerce .long = .ok (.long i)
    rw [coerce, map_readNumeral_toString, Int64.ofInt_toInt]
    exact ⟨hfits, rfl⟩
  narrowed i := by
    refine ⟨i.toInt32, rfl, ?_⟩
    rw [Int64.toInt_toInt32]
    exact Int.dvd_self_sub_bmod
  text_narrowed i w := by
    change (Value.text (toString i.toInt)).coerce .int = .ok w ↔ _
    refine map_readNumeral_toString.trans (and_congr_right fun hfits => ?_)
    rw [← toInt32_eq_ofInt hfits, coerce, Except.ok.injEq, eq_comm]

end Value
end Chronicle
