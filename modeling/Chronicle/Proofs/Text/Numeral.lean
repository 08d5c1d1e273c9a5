import Chronicle.Proofs.Except
import Chronicle.Proofs.Text.Blank
import Chronicle.Text.Numeral

/-!
# What numerals denote

A numeral is a sign, or none, and then one or more ASCII digits; it denotes the integer with that
sign and those digits (`Numeral.Denotes`). To read a text is to ask for this integer, and for one
that fits the bits (`Numeral.read_eq_ok_iff`). A text that is refused has a fault, the first that is
met from the left (`Numeral.read_eq_error_iff`):

| fault | where it is met |
| --- | --- |
| `empty` | in the text without characters |
| `invalidDigit` | behind a sign that is alone, or at no digit after digits that fit |
| `tooLarge`, `tooSmall` | at digits that do not fit |

More digits never make the number smaller (`Numeral.le_ofDigitChars`), so digits that fit have only
starts that fit.
-/

namespace Chronicle
namespace Numeral

/-- There are only ASCII digits. -/
def AllDigits (digits : List Char) : Prop :=
  ∀ c ∈ digits, c.isDigit = true

/-- What a numeral may begin with. -/
inductive Sign
  | none
  | plus
  | minus
deriving DecidableEq, Repr

namespace Sign

/-- The sign as it is written. -/
def chars : Sign → List Char
  | .none => []
  | .plus => ['+']
  | .minus => ['-']

/-- The integer of the given sign and magnitude. -/
def apply : Sign → Nat → Int
  | .minus, n => -(n : Int)
  | _, n => n

/-- The greatest magnitude that fits. The negative numbers reach one further. -/
def limit (bits : Nat) : Sign → Nat
  | .minus => Nat.pow 2 (bits - 1)
  | _ => Nat.pow 2 (bits - 1) - 1

/-- The fault of a magnitude that does not fit. -/
def overflow : Sign → Fault
  | .minus => .tooSmall
  | _ => .tooLarge

end Sign

/-- The integer fits `bits` bits in two's complement. -/
def Fits (bits : Nat) (n : Int) : Prop :=
  -(Nat.pow 2 (bits - 1) : Int) ≤ n ∧ n < (Nat.pow 2 (bits - 1) : Int)

instance (bits : Nat) (n : Int) : Decidable (Fits bits n) :=
  inferInstanceAs (Decidable (_ ∧ _))

/-- The text is a numeral of `n`. -/
def Denotes (cs : List Char) (n : Int) : Prop :=
  ∃ (sign : Sign) (digits : List Char), cs = sign.chars ++ digits ∧ digits ≠ [] ∧
    AllDigits digits ∧ n = sign.apply (Nat.ofDigitChars 10 digits 0)

/-- The text is a sign and then the body. A text that has a sign in front is not one without. -/
structure Split (cs : List Char) (sign : Sign) (body : List Char) : Prop where
  eq : cs = sign.chars ++ body
  unsigned : sign = .none → ∀ c ∈ body.head?, c ≠ '+' ∧ c ≠ '-'

/-- To read the body after digits worth `value` stops at a fault.

* `noDigit`: a character is no digit, and the digits before it fit.
* `beyond`: digits do not fit. -/
inductive Stops (limit : Nat) (overflow : Fault) (value : Nat) (body : List Char) : Fault → Prop
  | noDigit {digits rest : List Char} {c : Char} :
      body = digits ++ c :: rest → AllDigits digits → Nat.ofDigitChars 10 digits value ≤ limit →
        c.isDigit = false → Stops limit overflow value body .invalidDigit
  | beyond {digits rest : List Char} :
      body = digits ++ rest → AllDigits digits → limit < Nat.ofDigitChars 10 digits value →
        Stops limit overflow value body overflow

/-- The fault of a text that is no numeral of `bits` bits. -/
inductive Faulty (bits : Nat) (cs : List Char) : Fault → Prop
  | empty : cs = [] → Faulty bits cs .empty
  | lone {sign : Sign} : Split cs sign [] → sign ≠ .none → Faulty bits cs .invalidDigit
  | stops {sign : Sign} {body : List Char} {fault : Fault} :
      Split cs sign body → Stops (sign.limit bits) sign.overflow 0 body fault →
        Faulty bits cs fault

variable {bits limit value n : Nat} {overflow fault : Fault} {sign : Sign} {i : Int} {c : Char}
  {cs body digits rest : List Char}

/-! ### Digits -/

theorem digit?_of_isDigit (h : c.isDigit = true) : digit? c = some (c.toNat - '0'.toNat) := by
  simp only [Char.isDigit, Bool.and_eq_true, decide_eq_true_eq] at h
  exact if_pos h

theorem digit?_of_not_isDigit (h : c.isDigit = false) : digit? c = none := by
  simp only [Char.isDigit, Bool.and_eq_false_iff, decide_eq_false_iff_not] at h
  exact if_neg fun hc => h.elim (absurd hc.1) (absurd hc.2)

theorem le_ofDigitChars (value : Nat) (digits : List Char) :
    value ≤ Nat.ofDigitChars 10 digits value := by
  induction digits generalizing value with
  | nil => exact Nat.le_refl value
  | cons c rest ih =>
      rw [Nat.ofDigitChars_cons]
      have hle := ih (10 * value + (c.toNat - '0'.toNat))
      omega

theorem allDigits_cons : AllDigits (c :: digits) ↔ c.isDigit = true ∧ AllDigits digits :=
  List.forall_mem_cons

/-- A digit goes on if the value with it fits. -/
theorem magnitude_cons_of_isDigit (h : c.isDigit = true) :
    magnitude limit overflow value (c :: rest) =
      if 10 * value + (c.toNat - '0'.toNat) ≤ limit then
        magnitude limit overflow (10 * value + (c.toNat - '0'.toNat)) rest
      else .error overflow := by
  rw [magnitude, digit?_of_isDigit h, Nat.mul_comm value 10]

theorem magnitude_cons_of_not_isDigit (h : c.isDigit = false) :
    magnitude limit overflow value (c :: rest) = .error .invalidDigit := by
  rw [magnitude, digit?_of_not_isDigit h]

/-- **Digits come to their value, if it fits.** -/
theorem magnitude_eq_ok_iff (hvalue : value ≤ limit) :
    magnitude limit overflow value body = .ok n ↔
      AllDigits body ∧ n = Nat.ofDigitChars 10 body value ∧ n ≤ limit := by
  induction body generalizing value with
  | nil =>
      rw [magnitude, Nat.ofDigitChars_nil, Except.ok.injEq]
      constructor
      · rintro rfl
        exact ⟨nofun, rfl, hvalue⟩
      · exact fun h => h.2.1.symm
  | cons c rest ih =>
      cases hc : c.isDigit with
      | false =>
          rw [magnitude_cons_of_not_isDigit hc, allDigits_cons, hc]
          exact ⟨nofun, fun h => absurd h.1.1 Bool.false_ne_true⟩
      | true =>
          rw [magnitude_cons_of_isDigit hc, allDigits_cons, Nat.ofDigitChars_cons]
          by_cases hfits : 10 * value + (c.toNat - '0'.toNat) ≤ limit
          · rw [if_pos hfits, ih hfits, and_iff_right hc]
          · have hle := le_ofDigitChars (10 * value + (c.toNat - '0'.toNat)) rest
            rw [if_neg hfits]
            refine ⟨nofun, fun ⟨_, hn, hlimit⟩ => ?_⟩
            omega

/-- Nothing stops the reading at the end of digits that fit. -/
theorem not_stops_nil (hvalue : value ≤ limit) : ¬Stops limit overflow value [] fault := by
  intro h
  cases h with
  | noDigit hbody _ _ _ => exact absurd hbody.symm (by simp)
  | beyond hbody _ hlt =>
      obtain ⟨rfl, -⟩ := List.append_eq_nil_iff.mp hbody.symm
      exact absurd hvalue (Nat.not_le.mpr hlt)

/-- Behind digits that do not fit, it does not matter what follows. -/
theorem stops_iff_of_lt (hlt : limit < value) :
    Stops limit overflow value body fault ↔ fault = overflow := by
  constructor
  · intro h
    cases h with
    | @noDigit digits _ _ _ _ hle _ =>
        have hmore := le_ofDigitChars value digits
        omega
    | beyond _ _ _ => rfl
  · rintro rfl
    have hbody : body = [] ++ body := rfl
    exact .beyond hbody nofun hlt

theorem stops_cons_of_not_isDigit (hvalue : value ≤ limit) (hc : c.isDigit = false) :
    Stops limit overflow value (c :: rest) fault ↔ fault = .invalidDigit := by
  constructor
  · intro h
    cases h with
    | noDigit _ _ _ _ => rfl
    | beyond hbody hdigits hlt =>
        rcases List.cons_eq_append_iff.mp hbody with ⟨rfl, -⟩ | ⟨digits, rfl, -⟩
        · exact absurd hvalue (Nat.not_le.mpr hlt)
        · rw [(allDigits_cons.mp hdigits).1] at hc
          cases hc
  · rintro rfl
    have hbody : c :: rest = [] ++ c :: rest := rfl
    exact .noDigit hbody nofun hvalue hc

/-- Behind a digit reading stops as it does after the value with this digit. -/
theorem stops_cons_of_isDigit (hvalue : value ≤ limit) (hc : c.isDigit = true) :
    Stops limit overflow value (c :: rest) fault ↔
      Stops limit overflow (10 * value + (c.toNat - '0'.toNat)) rest fault := by
  constructor
  · intro h
    cases h with
    | noDigit hbody hdigits hle hnot =>
        rcases List.cons_eq_append_iff.mp hbody with ⟨-, hrest⟩ | ⟨digits, rfl, hrest⟩
        · obtain ⟨rfl, -⟩ := List.cons.inj hrest
          rw [hc] at hnot
          cases hnot
        · exact .noDigit hrest (allDigits_cons.mp hdigits).2 hle hnot
    | beyond hbody hdigits hlt =>
        rcases List.cons_eq_append_iff.mp hbody with ⟨rfl, -⟩ | ⟨digits, rfl, hrest⟩
        · exact absurd hvalue (Nat.not_le.mpr hlt)
        · exact .beyond hrest (allDigits_cons.mp hdigits).2 hlt
  · intro h
    cases h with
    | noDigit hbody hdigits hle hnot =>
        exact .noDigit (congrArg (c :: ·) hbody) (allDigits_cons.mpr ⟨hc, hdigits⟩) hle hnot
    | beyond hbody hdigits hlt =>
        exact .beyond (congrArg (c :: ·) hbody) (allDigits_cons.mpr ⟨hc, hdigits⟩) hlt

/-- **Digits are refused for the first fault that is met.** -/
theorem magnitude_eq_error_iff (hvalue : value ≤ limit) :
    magnitude limit overflow value body = .error fault ↔ Stops limit overflow value body fault := by
  induction body generalizing value with
  | nil => exact ⟨nofun, fun h => absurd h (not_stops_nil hvalue)⟩
  | cons c rest ih =>
      cases hc : c.isDigit with
      | false =>
          rw [magnitude_cons_of_not_isDigit hc, stops_cons_of_not_isDigit hvalue hc,
            Except.error.injEq, eq_comm]
      | true =>
          rw [magnitude_cons_of_isDigit hc, stops_cons_of_isDigit hvalue hc]
          by_cases hfits : 10 * value + (c.toNat - '0'.toNat) ≤ limit
          · rw [if_pos hfits, ih hfits]
          · rw [if_neg hfits, stops_iff_of_lt (Nat.not_le.mp hfits), Except.error.injEq, eq_comm]

/-! ### Signs -/

theorem Sign.fits_apply_iff : Fits bits (sign.apply n) ↔ n ≤ sign.limit bits := by
  have hpos : 0 < Nat.pow 2 (bits - 1) := Nat.two_pow_pos _
  rw [Fits]
  cases sign <;> simp only [apply, limit] <;> omega

example : Fits 32 (-2147483648) ∧ ¬Fits 32 2147483648 := by
  decide

theorem exists_split (cs : List Char) : ∃ sign body, Split cs sign body := by
  cases cs with
  | nil => exact ⟨.none, [], rfl, nofun⟩
  | cons c rest =>
      by_cases hplus : c = '+'
      · exact ⟨.plus, rest, congrArg (· :: rest) hplus, nofun⟩
      · by_cases hminus : c = '-'
        · exact ⟨.minus, rest, congrArg (· :: rest) hminus, nofun⟩
        · refine ⟨.none, c :: rest, rfl, fun _ d hd => ?_⟩
          obtain rfl := Option.some.inj hd
          exact ⟨hplus, hminus⟩

theorem map_natCast (x : Except Fault Nat) (f : Int → Int) :
    (x >>= fun n : Nat => pure (Nat.cast n)).map f = x.map fun n : Nat => f (Nat.cast n) := by
  cases x <;> rfl

/-- What follows a sign is read as digits, if anything does. -/
theorem Split.read_eq (h : Split cs sign body) (hbody : body ≠ []) (bits : Nat) :
    read bits cs = (magnitude (sign.limit bits) sign.overflow 0 body).map sign.apply := by
  obtain ⟨rfl, hunsigned⟩ := h
  obtain ⟨c, rest, rfl⟩ := List.exists_cons_of_ne_nil hbody
  cases sign with
  | none =>
      obtain ⟨hplus, hminus⟩ := hunsigned rfl c rfl
      change read bits (c :: rest) = _
      rw [read, map_natCast]
      · rfl
      all_goals simp [hplus, hminus]
  | plus =>
      change read bits ('+' :: c :: rest) = _
      rw [read, map_natCast]
      · rfl
      · simp
  | minus =>
      change read bits ('-' :: c :: rest) = _
      rw [read, map_natCast]
      · rfl
      · simp

/-- A sign that is alone is no numeral. -/
theorem Split.read_lone (h : Split cs sign []) (hsign : sign ≠ .none) (bits : Nat) :
    read bits cs = .error .invalidDigit := by
  obtain ⟨rfl, -⟩ := h
  cases sign with
  | none => exact absurd rfl hsign
  | plus => rfl
  | minus => rfl

theorem Split.eq_plus_iff (h : Split cs sign body) : sign = .plus ↔ cs.head? = some '+' := by
  rw [h.eq]
  cases sign with
  | none => exact iff_of_false nofun fun hc => (h.unsigned rfl '+' hc).1 rfl
  | plus => exact iff_of_true rfl rfl
  | minus => exact iff_of_false nofun (by simp [Sign.chars])

theorem Split.eq_minus_iff (h : Split cs sign body) : sign = .minus ↔ cs.head? = some '-' := by
  rw [h.eq]
  cases sign with
  | none => exact iff_of_false nofun fun hc => (h.unsigned rfl '-' hc).2 rfl
  | plus => exact iff_of_false nofun (by simp [Sign.chars])
  | minus => exact iff_of_true rfl rfl

/-- A text has one sign and one body. -/
theorem Split.unique {sign' : Sign} {body' : List Char} (h : Split cs sign body)
    (h' : Split cs sign' body') : sign' = sign ∧ body' = body := by
  have hplus : sign' = .plus ↔ sign = .plus := h'.eq_plus_iff.trans h.eq_plus_iff.symm
  have hminus : sign' = .minus ↔ sign = .minus := h'.eq_minus_iff.trans h.eq_minus_iff.symm
  have hsign : sign' = sign := by
    cases sign with
    | plus => exact hplus.mpr rfl
    | minus => exact hminus.mpr rfl
    | none =>
        cases sign' with
        | none => rfl
        | plus => exact absurd (hplus.mp rfl) nofun
        | minus => exact absurd (hminus.mp rfl) nofun
  subst hsign
  exact ⟨rfl, List.append_cancel_left (h'.eq.symm.trans h.eq)⟩

/-- A numeral is a sign and then digits. -/
theorem Split.denotes_iff (h : Split cs sign body) :
    Denotes cs i ↔ body ≠ [] ∧ AllDigits body ∧ i = sign.apply (Nat.ofDigitChars 10 body 0) := by
  constructor
  · rintro ⟨sign', digits, hcs, hne, hdigits, hi⟩
    have hsplit : Split cs sign' digits := by
      refine ⟨hcs, fun _ c hc => ?_⟩
      have hdigit := hdigits c (List.mem_of_mem_head? hc)
      constructor
      · rintro rfl
        cases hdigit
      · rintro rfl
        cases hdigit
    obtain ⟨rfl, rfl⟩ := h.unique hsplit
    exact ⟨hne, hdigits, hi⟩
  · rintro ⟨hne, hdigits, hi⟩
    exact ⟨sign, body, h.eq, hne, hdigits, hi⟩

/-- **To read a text is to ask for the integer that it denotes,** and for one that fits. -/
theorem read_eq_ok_iff : read bits cs = .ok i ↔ Denotes cs i ∧ Fits bits i := by
  obtain ⟨sign, body, h⟩ := exists_split cs
  rw [h.denotes_iff]
  by_cases hbody : body = []
  · have hread : read bits cs ≠ .ok i := by
      subst hbody
      cases sign with
      | none => rw [h.eq]; exact nofun
      | plus => rw [h.read_lone (by decide)]; exact nofun
      | minus => rw [h.read_lone (by decide)]; exact nofun
    exact iff_of_false hread fun hdenotes => hdenotes.1.1 hbody
  · rw [h.read_eq hbody, map_eq_ok_iff]
    constructor
    · rintro ⟨n, hn, rfl⟩
      obtain ⟨hdigits, rfl, hle⟩ := (magnitude_eq_ok_iff (Nat.zero_le _)).mp hn
      exact ⟨⟨hbody, hdigits, rfl⟩, Sign.fits_apply_iff.mpr hle⟩
    · rintro ⟨⟨-, hdigits, rfl⟩, hfits⟩
      exact ⟨_, (magnitude_eq_ok_iff (Nat.zero_le _)).mpr
        ⟨hdigits, rfl, Sign.fits_apply_iff.mp hfits⟩, rfl⟩

/-- **A text is refused for its fault.** -/
theorem read_eq_error_iff : read bits cs = .error fault ↔ Faulty bits cs fault := by
  constructor
  · intro hread
    obtain ⟨sign, body, h⟩ := exists_split cs
    by_cases hbody : body = []
    · subst hbody
      by_cases hsign : sign = .none
      · obtain rfl : cs = [] := by rw [h.eq, hsign]; rfl
        obtain rfl := Except.error.inj hread
        exact .empty rfl
      · rw [h.read_lone hsign] at hread
        obtain rfl := Except.error.inj hread
        exact .lone h hsign
    · rw [h.read_eq hbody] at hread
      cases hm : magnitude (sign.limit bits) sign.overflow 0 body with
      | ok n =>
          rw [hm] at hread
          cases hread
      | error e =>
          rw [hm] at hread
          obtain rfl := Except.error.inj hread
          exact .stops h ((magnitude_eq_error_iff (Nat.zero_le _)).mp hm)
  · intro hfaulty
    cases hfaulty with
    | empty hcs => rw [hcs, read]
    | lone h hsign => exact h.read_lone hsign bits
    | @stops sign body _ h hstops =>
        have hm := (magnitude_eq_error_iff (Nat.zero_le _)).mpr hstops
        have hbody : body ≠ [] := by
          rintro rfl
          cases hm
        rw [h.read_eq hbody, hm]
        rfl

/-- Whether the digit that does not fit or the character that is no digit is met first. -/
example : read 32 "2147483647x".toList = .error .invalidDigit ∧
    read 32 "2147483648x".toList = .error .tooLarge := by
  decide

/-! ### Integers as numerals -/

/-- A numeral denotes one integer. -/
theorem Denotes.unique {j : Int} (hi : Denotes cs i) (hj : Denotes cs j) : i = j := by
  obtain ⟨sign, body, h⟩ := exists_split cs
  rw [(h.denotes_iff.mp hi).2.2, (h.denotes_iff.mp hj).2.2]

theorem isBlank_of_isDigit (h : c.isDigit = true) : Text.isBlank c = false := by
  have hrange : 48 ≤ c.toNat ∧ c.toNat ≤ 57 := by
    simpa [Char.isDigit, UInt32.le_iff_toNat_le] using h
  have hruns : ∀ run ∈ Text.blankRuns, run.2 < 48 ∨ 57 < run.1 := by decide
  refine List.any_eq_false.mpr fun run hrun => ?_
  have hrun := hruns run hrun
  simp only [Bool.and_eq_true, decide_eq_true_eq, not_and]
  omega

/-- There is nothing to trim of a numeral. -/
theorem Denotes.trim_eq (h : Denotes cs i) : Text.trim cs = cs := by
  obtain ⟨sign, digits, rfl, -, hdigits, -⟩ := h
  have hplus : Text.isBlank '+' = false := by decide
  have hminus : Text.isBlank '-' = false := by decide
  have hsign : ∀ c ∈ sign.chars, Text.isBlank c = false := by
    intro c hc
    cases sign with
    | none => cases hc
    | plus => exact List.mem_singleton.mp hc ▸ hplus
    | minus => exact List.mem_singleton.mp hc ▸ hminus
  have hall : ∀ c ∈ sign.chars ++ digits, Text.isBlank c = false := by
    intro c hc
    rcases List.mem_append.mp hc with hc | hc
    · exact hsign c hc
    · exact isBlank_of_isDigit (hdigits c hc)
  exact Text.trims_iff.mp ⟨⟨[], [], by simp, nofun, nofun⟩,
    fun c hc => hall c (List.mem_of_mem_head? hc), fun c hc => hall c (List.mem_of_mem_getLast? hc)⟩

theorem isDigit_of_mem_toDigits (h : c ∈ Nat.toDigits 10 n) : c.isDigit = true :=
  Nat.isDigit_of_mem_toDigits (by decide) (by decide) h

theorem toList_toString_natCast (n : Nat) : (toString (n : Int)).toList = Nat.toDigits 10 n := by
  simp [Int.toString_eq_repr, Int.repr_eq_if, Nat.repr_eq_ofList_toDigits]

theorem toList_toString_neg (h : 0 < n) :
    (toString (-n : Int)).toList = '-' :: Nat.toDigits 10 n := by
  simp [Int.toString_eq_repr, Int.repr_eq_if, Nat.repr_eq_ofList_toDigits, Nat.ne_of_gt h]

/-- **An integer is written as a numeral of itself.** -/
theorem denotes_toString (i : Int) : Denotes (toString i).toList i := by
  have hdigits : ∀ k : Nat, AllDigits (Nat.toDigits 10 k) := fun _ _ => isDigit_of_mem_toDigits
  rcases Int.lt_or_le i 0 with hneg | hnonneg
  · obtain ⟨k, rfl⟩ : ∃ k : Nat, i = -k := ⟨(-i).toNat, by omega⟩
    have hpos : 0 < k := by omega
    refine ⟨.minus, Nat.toDigits 10 k, toList_toString_neg hpos, Nat.toDigits_ne_nil, hdigits k, ?_⟩
    rw [Nat.ofDigitChars_ten_toDigits]
    rfl
  · obtain ⟨k, rfl⟩ : ∃ k : Nat, i = k := ⟨i.toNat, by omega⟩
    refine ⟨.none, Nat.toDigits 10 k, toList_toString_natCast k, Nat.toDigits_ne_nil, hdigits k, ?_⟩
    rw [Nat.ofDigitChars_ten_toDigits]
    rfl

end Numeral
end Chronicle
