import Chronicle.Json.Printer
import Chronicle.Proofs.Json.Written
import Chronicle.Proofs.Text.Numeral
import Mathlib.Data.List.TakeDrop
import Mathlib.Data.Option.Basic

/-!
# Reading what was printed

A document that is printed is read as itself (`Json.parse_pretty`), if its integers fit 64 bits and
it holds neither decimals nor void parts: a plain document.

The reader takes a value off the front of a text, so the statement about it is about a text with
more behind it, and a number is only read to its end if no number can go on there (`Closes`). What
is printed for a value is read with as many steps as twice the length of the print, whatever comes
behind (`Prints`). An item is printed on lines of its own, so the induction is over the value, for
every level that it may stand on.
-/

namespace Chronicle
namespace Json

variable {n : Nat} {cs rest : List Char} {j : Json}

/-! ### Numbers -/

/-- A number cannot go on in the text. -/
def Closes (rest : List Char) : Prop :=
  ∀ c ∈ rest.head?, isNumeric c = false

theorem Closes.not_isDigit (h : Closes rest) : ∀ c ∈ rest.head?, c.isDigit = false := by
  intro c hc
  have hc := h c hc
  simp only [isNumeric, Bool.or_eq_false_iff] at hc
  exact hc.1.1.1.1.1

theorem span_isDigit {digits : List Char} (hdigits : ∀ c ∈ digits, c.isDigit = true)
    (hrest : Closes rest) : (digits ++ rest).span Char.isDigit = (digits, rest) := by
  rw [List.span_eq_takeWhile_dropWhile, List.takeWhile_append_of_pos hdigits,
    List.dropWhile_append_of_pos hdigits]
  cases rest with
  | nil => simp
  | cons c rest =>
      have hc := hrest.not_isDigit c rfl
      simp [hc]

/-- A numeral has no zero before its other digits. -/
theorem head?_toDigits (h : 0 < n) : (Nat.toDigits 10 n).head? ≠ some '0' := by
  induction n using Nat.strongRecOn with
  | ind n ih =>
      rcases Nat.lt_or_ge n 10 with hlt | hge
      · have hdigit : ∀ d < 10, 0 < d → d.digitChar ≠ '0' := by decide
        rw [Nat.toDigits_of_lt_base hlt]
        exact fun hhead => hdigit n hlt h (Option.some.inj hhead)
      · obtain ⟨c, more, hcons⟩ := List.exists_cons_of_ne_nil
          (Nat.toDigits_ne_nil : Nat.toDigits 10 (n / 10) ≠ [])
        have hhead := ih (n / 10) (by omega) (by omega)
        rw [hcons] at hhead
        rwa [Nat.toDigits_of_base_le (by omega) hge, hcons]

theorem isWhole_toDigits (n : Nat) : isWhole (Nat.toDigits 10 n) = true := by
  unfold isWhole
  split
  · next h => exact absurd h Nat.toDigits_ne_nil
  · next h =>
      rcases Nat.eq_zero_or_pos n with rfl | hn
      · cases h
      · exact absurd (congrArg List.head? h) (head?_toDigits hn)
  · rfl

theorem digitsValue_toDigits (n : Nat) : digitsValue 0 (Nat.toDigits 10 n) = n := by
  have h := Nat.ofDigitChars_ten_toDigits (n := n)
  rw [Nat.ofDigitChars_eq_foldl] at h
  simpa only [digitsValue, Nat.mul_comm] using h

theorem takeSign_toDigits (n : Nat) (rest : List Char) :
    takeSign (Nat.toDigits 10 n ++ rest) = (false, Nat.toDigits 10 n ++ rest) := by
  obtain ⟨c, more, hcons⟩ := List.exists_cons_of_ne_nil
    (Nat.toDigits_ne_nil : Nat.toDigits 10 n ≠ [])
  have hdigit : c.isDigit = true := Numeral.isDigit_of_mem_toDigits (hcons ▸ List.mem_cons_self)
  rw [hcons, List.cons_append]
  unfold takeSign
  split
  · next h =>
      cases h
      cases hdigit
  · rfl

theorem takeFraction_of_closes (h : Closes rest) : takeFraction rest = some (none, rest) := by
  unfold takeFraction
  split
  · cases h _ rfl
  · rfl

theorem takePower_of_closes (h : Closes rest) : takePower rest = some (none, rest) := by
  unfold takePower
  split
  · cases h _ rfl
  · cases h _ rfl
  · rfl

/-- A numeral is read as a number without fraction and power. -/
theorem number_of_takeSign {negative : Bool}
    (hsign : takeSign cs = (negative, Nat.toDigits 10 n ++ rest)) (hrest : Closes rest) :
    number cs = some (ofParts negative (Nat.toDigits 10 n) none none
      (String.ofList (cs.takeWhile isNumeric)), rest) := by
  have hspan := span_isDigit (fun c hc => Numeral.isDigit_of_mem_toDigits (n := n) hc) hrest
  simp only [number, hsign, hspan, isWhole_toDigits, takeFraction_of_closes hrest, guard_true,
    Option.pure_def, Option.bind_eq_bind, Option.bind_some, takePower_of_closes hrest]

/-- An integer that fits 64 bits is read as it is written. -/
theorem number_toString {i : Int} (hle : -9223372036854775808 ≤ i) (hlt : i < 18446744073709551616)
    (hrest : Closes rest) : number ((toString i).toList ++ rest) = some (.int i, rest) := by
  rcases Int.lt_or_le i 0 with hneg | hnonneg
  · obtain ⟨n, rfl⟩ : ∃ n : Nat, i = -n := ⟨(-i).toNat, by omega⟩
    have hpos : 0 < n := by omega
    have hbound : n ≤ 9223372036854775808 := by omega
    have hfits : 0 < n ∧ n ≤ Nat.pow 2 63 := ⟨hpos, hbound⟩
    rw [Numeral.toList_toString_neg hpos, number_of_takeSign (n := n) rfl hrest, ofParts,
      digitsValue_toDigits, if_pos hfits]
  · obtain ⟨n, rfl⟩ : ∃ n : Nat, i = n := ⟨i.toNat, by omega⟩
    have hbound : n < 18446744073709551616 := by omega
    have hfits : n < Nat.pow 2 64 := hbound
    rw [Numeral.toList_toString_natCast, number_of_takeSign (takeSign_toDigits n rest) hrest,
      ofParts, digitsValue_toDigits, if_pos hfits]

theorem exists_cons_toString (i : Int) :
    ∃ c more, (toString i).toList = c :: more ∧ isNumeric c = true := by
  rcases Int.lt_or_le i 0 with hneg | hnonneg
  · obtain ⟨n, rfl⟩ : ∃ n : Nat, i = -n := ⟨(-i).toNat, by omega⟩
    exact ⟨'-', _, Numeral.toList_toString_neg (by omega), rfl⟩
  · obtain ⟨n, rfl⟩ : ∃ n : Nat, i = n := ⟨i.toNat, by omega⟩
    obtain ⟨c, more, hcons⟩ := List.exists_cons_of_ne_nil
      (Nat.toDigits_ne_nil : Nat.toDigits 10 n ≠ [])
    have hdigit : c.isDigit = true := Numeral.isDigit_of_mem_toDigits (hcons ▸ List.mem_cons_self)
    exact ⟨c, more, (Numeral.toList_toString_natCast n).trans hcons, by simp [isNumeric, hdigit]⟩

/-! ### Strings -/

theorem hexDigit?_hexDigit : ∀ d < 16, Numeral.hexDigit? (hexDigit d) = some d := by
  decide

/-- An escape with four digits gives their value. -/
theorem stringUnits_escape {u : Nat} (h : u < 256) (cs : List Char) :
    stringUnits ('\\' :: 'u' :: '0' :: '0' :: hexDigit (u / 16) :: hexDigit (u % 16) :: cs) =
      (stringUnits cs).map fun (us, rest) => (.inr u :: us, rest) := by
  have hzero : Numeral.hexDigit? '0' = some 0 := rfl
  have hvalue : ((0 * 16 + 0) * 16 + u / 16) * 16 + u % 16 = u := by omega
  rw [stringUnits, hzero, hexDigit?_hexDigit _ (by omega), hexDigit?_hexDigit _ (by omega)]
  simp only [Option.bind_eq_bind, Option.bind_some, hvalue]
  cases stringUnits cs <;> rfl

/-- A character that is not escaped is read as itself. -/
theorem stringUnits_cons {c : Char} (hquote : c ≠ '"') (hslash : c ≠ '\\') (hc : 0x20 ≤ c.toNat)
    (cs : List Char) :
    stringUnits (c :: cs) = (stringUnits cs).map fun (us, rest) => (.inl c :: us, rest) := by
  rw [stringUnits.eq_def]
  split
  · next heq => exact absurd (List.cons.inj heq).1 hquote
  · next heq => exact absurd (List.cons.inj heq).1 hslash
  · next heq => exact absurd (List.cons.inj heq).1 hslash
  · next heq =>
    obtain ⟨rfl, rfl⟩ := List.cons.inj heq
    cases stringUnits cs <;> simp [hc]
  · next heq => cases heq

/-- A unit that is no half of a pair is a character. -/
theorem pairUnits_of_lt {u : Nat} (h : u < 0xD800) (us : List (Char ⊕ Nat)) :
    pairUnits (.inr u :: us) = (Char.ofNat u :: ·) <$> pairUnits us := by
  have hhigh : isHighSurrogate u = false := by simp [isHighSurrogate]; omega
  have hlow : isLowSurrogate u = false := by simp [isLowSurrogate]; omega
  rw [pairUnits.eq_def]
  simp only [hhigh, hlow, Bool.false_eq_true, if_false]

/-- A character of a string is read as it is written: as itself, or as the unit that an escape
gives. -/
theorem exists_unit (c : Char) :
    ∃ u, (∀ us, pairUnits (u :: us) = (c :: ·) <$> pairUnits us) ∧
      ∀ cs, stringUnits (escaped c ++ cs) =
        (stringUnits cs).map fun (us, rest) => (u :: us, rest) := by
  unfold escaped
  split
  -- The last case is that of a character without a short escape: an escape with digits if it is a
  -- control character, and no escape otherwise.
  case h_8 hquote hslash _ _ _ _ _ =>
    split
    · next hlt =>
      refine ⟨.inr c.toNat, fun us => ?_, stringUnits_escape (by omega)⟩
      rw [pairUnits_of_lt (by omega), Char.ofNat_toNat]
    · next hge =>
      exact ⟨.inl c, fun _ => rfl, stringUnits_cons hquote hslash (Nat.not_lt.mp hge)⟩
  all_goals
    refine ⟨.inl _, fun _ => rfl, fun cs => ?_⟩
    cases h : stringUnits cs <;> simp [stringUnits, escape?, h]

/-- The text of a string is read back. -/
theorem string_escaped (text : List Char) (rest : List Char) :
    string (text.flatMap escaped ++ '"' :: rest) = some (some (String.ofList text), rest) := by
  have hunits : ∃ us, stringUnits (text.flatMap escaped ++ '"' :: rest) = some (us, rest) ∧
      pairUnits us = some text := by
    induction text with
    | nil => exact ⟨[], rfl, rfl⟩
    | cons c text ih =>
        obtain ⟨us, hus, htext⟩ := ih
        obtain ⟨u, hpair, hread⟩ := exists_unit c
        refine ⟨u :: us, ?_, ?_⟩
        · rw [List.flatMap_cons, List.append_assoc, hread, hus]
          rfl
        · rw [hpair, htext]
          rfl
  obtain ⟨us, hus, htext⟩ := hunits
  simp [string, hus, htext]

/-! ### Blanks -/

theorem skip_append {blanks : List Char} (h : ∀ c ∈ blanks, isSpace c = true) (cs : List Char) :
    skip (blanks ++ cs) = skip cs :=
  List.dropWhile_append_of_pos h

theorem skip_skip (cs : List Char) : skip (skip cs) = skip cs := by
  induction cs with
  | nil => rfl
  | cons c cs ih =>
      by_cases hc : isSpace c = true
      · simpa [skip, hc] using ih
      · simp [skip, hc]

/-- A value is read after blanks. -/
theorem value_skip (n : Nat) (cs : List Char) : value n (skip cs) = value n cs := by
  cases n with
  | zero => rfl
  | succ n => rw [value, value, skip_skip]

theorem value_space (n : Nat) (cs : List Char) : value n (' ' :: cs) = value n cs := by
  have hskip : skip (' ' :: cs) = skip cs := rfl
  rw [← value_skip, hskip, value_skip]

theorem items_skip (n : Nat) (cs : List Char) : items n (skip cs) = items n cs := by
  cases n with
  | zero => rfl
  | succ n => rw [items, items, value_skip]

theorem members_skip (n : Nat) (cs : List Char) : members n (skip cs) = members n cs := by
  cases n with
  | zero => rfl
  | succ n => rw [members, members, skip_skip]

theorem items_blanks {blanks : List Char} (h : ∀ c ∈ blanks, isSpace c = true) :
    items n (blanks ++ cs) = items n cs := by
  rw [← items_skip, skip_append h, items_skip]

theorem members_blanks {blanks : List Char} (h : ∀ c ∈ blanks, isSpace c = true) :
    members n (blanks ++ cs) = members n cs := by
  rw [← members_skip, skip_append h, members_skip]

/-! ### Items and members -/

/-- Where a value begins no array ends. -/
theorem skip_ne_of_value {r : Json × List Char} (h : value n cs = some r) (more : List Char) :
    skip cs ≠ ']' :: more := by
  intro hskip
  cases n with
  | zero => cases h
  | succ n =>
      rw [value, hskip] at h
      cases h

/-- Where a member begins no object ends. -/
theorem skip_ne_of_members {r : List (Option String × Json) × List Char}
    (h : members n cs = some r) (more : List Char) : skip cs ≠ '\x7d' :: more := by
  intro hskip
  cases n with
  | zero => cases h
  | succ n =>
      rw [members, hskip] at h
      cases h

theorem value_arr {js : List Json} (h : items n cs = some (js, rest)) :
    value (n + 1) ('[' :: cs) = some (.arr js, rest) := by
  have hskip : ∀ more, skip cs ≠ ']' :: more := by
    cases n with
    | zero => cases h
    | succ n =>
        rw [items] at h
        obtain ⟨r, hr, -⟩ := Option.bind_eq_some_iff.mp h
        exact skip_ne_of_value hr
  have hopen : skip ('[' :: cs) = '[' :: cs := rfl
  -- An item begins behind the bracket, so the array is not an empty one.
  simp only [value, hopen]
  rw [items_skip, h]
  rfl

theorem value_obj {ms : List (Option String × Json)} (h : members n cs = some (ms, rest)) :
    value (n + 1) ('\x7b' :: cs) = some (ofMembers ms, rest) := by
  have hopen : skip ('\x7b' :: cs) = '\x7b' :: cs := rfl
  have hskip : ∀ more, skip cs ≠ '\x7d' :: more := skip_ne_of_members h
  simp only [value, hopen]
  rw [members_skip, h]
  rfl

theorem items_last {more : List Char} (hj : value n cs = some (j, more))
    (hmore : skip more = ']' :: rest) : items (n + 1) cs = some ([j], rest) := by
  rw [items, hj]
  simp only [Option.bind_eq_bind, Option.bind_some, hmore]

theorem items_more {cs' : List Char} {js : List Json} (hj : value n cs = some (j, ',' :: cs'))
    (hjs : items n cs' = some (js, rest)) : items (n + 1) cs = some (j :: js, rest) := by
  have hcomma : skip (',' :: cs') = ',' :: cs' := rfl
  rw [items, hj]
  simp only [Option.bind_eq_bind, Option.bind_some, hcomma, hjs]

theorem toList_quoted (name : String) :
    (quoted name).toList = '"' :: (name.toList.flatMap escaped ++ ['"']) := by
  simp [quoted]

theorem string_quoted (name : String) (rest : List Char) :
    (quoted name).toList ++ rest = '"' :: (name.toList.flatMap escaped ++ '"' :: rest) := by
  simp [toList_quoted]

theorem members_last {more : List Char} (name : String) (hj : value n cs = some (j, more))
    (hmore : skip more = '\x7d' :: rest) :
    members (n + 1) ((quoted name).toList ++ ':' :: ' ' :: cs) = some ([(some name, j)], rest) := by
  have hquote : ∀ more, skip ('"' :: more) = '"' :: more := fun _ => rfl
  have hcolon : ∀ more, skip (':' :: more) = ':' :: more := fun _ => rfl
  rw [string_quoted, members]
  simp only [hquote, Option.bind_eq_bind, string_escaped, Option.bind_some, hcolon, value_space, hj,
    hmore, String.ofList_toList]

theorem members_more {cs' : List Char} {ms : List (Option String × Json)} (name : String)
    (hj : value n cs = some (j, ',' :: cs')) (hms : members n cs' = some (ms, rest)) :
    members (n + 1) ((quoted name).toList ++ ':' :: ' ' :: cs) =
      some ((some name, j) :: ms, rest) := by
  have hquote : ∀ more, skip ('"' :: more) = '"' :: more := fun _ => rfl
  have hcolon : ∀ more, skip (':' :: more) = ':' :: more := fun _ => rfl
  have hcomma : skip (',' :: cs') = ',' :: cs' := rfl
  rw [string_quoted, members]
  simp only [hquote, Option.bind_eq_bind, string_escaped, Option.bind_some, hcolon, value_space, hj,
    hcomma, hms, String.ofList_toList]

/-! ### Values -/

mutual

/-- The value is read as it is printed: its integers fit 64 bits, and it holds neither decimals nor
void parts. -/
def plain : Json → Bool
  | .int i => decide (-9223372036854775808 ≤ i ∧ i < 18446744073709551616)
  | .decimal _ => false
  | .arr items => itemsPlain items
  | .obj members => membersPlain members
  | .void => false
  | _ => true

/-- All items are plain. -/
def itemsPlain : List Json → Bool
  | [] => true
  | j :: rest => j.plain && itemsPlain rest

/-- All members are plain. -/
def membersPlain : List (String × Json) → Bool
  | [] => true
  | (_, j) :: rest => j.plain && membersPlain rest

end

theorem plain_int {i : Int} (hle : -9223372036854775808 ≤ i) (hlt : i < 18446744073709551616) :
    (int i).plain = true :=
  decide_eq_true ⟨hle, hlt⟩

theorem itemsPlain_iff {js : List Json} : itemsPlain js = true ↔ ∀ j ∈ js, j.plain = true := by
  induction js with
  | nil => simp [itemsPlain]
  | cons j js ih => rw [itemsPlain, Bool.and_eq_true, ih, List.forall_mem_cons]

theorem membersPlain_iff {ms : List (String × Json)} :
    membersPlain ms = true ↔ ∀ m ∈ ms, m.2.plain = true := by
  induction ms with
  | nil => simp [membersPlain]
  | cons m ms ih => rw [membersPlain, Bool.and_eq_true, ih, List.forall_mem_cons]

/-- Wherever the text stands, the value is read off it, with steps enough for its length. -/
def Prints (j : Json) (text : String) : Prop :=
  ∀ n rest, 2 * text.length ≤ n → Closes rest → value n (text.toList ++ rest) = some (j, rest)

/-- A text is that of a member: its name, and what its value is read off. -/
def PrintsMember (member : String × Json) (text : String) : Prop :=
  ∃ print, text = quoted member.1 ++ ": " ++ print ∧ Prints member.2 print

theorem isNumeric_of_isSpace {c : Char} (h : isSpace c = true) : isNumeric c = false := by
  simp only [isSpace, Bool.or_eq_true, beq_iff_eq] at h
  rcases h with ((rfl | rfl) | rfl) | rfl <;> decide

theorem closes_cons {c : Char} (hc : isNumeric c = false) (rest : List Char) :
    Closes (c :: rest) := by
  rintro d ⟨⟩
  exact hc

theorem closes_blanks {blanks : List Char} (h : ∀ c ∈ blanks, isSpace c = true) {c : Char}
    (hc : isNumeric c = false) (rest : List Char) : Closes (blanks ++ c :: rest) := by
  cases blanks with
  | nil => exact closes_cons hc rest
  | cons b more => exact closes_cons (isNumeric_of_isSpace (h b List.mem_cons_self)) _

/-- A text that begins like a number is read as one. -/
theorem value_eq_number (h : ∀ c ∈ cs.head?, isNumeric c = true) :
    value (n + 1) cs = number cs := by
  cases cs with
  | nil => rfl
  | cons c more =>
      have hc := h c rfl
      have hspace : isSpace c = false := by
        refine Bool.eq_false_iff.mpr fun hspace => ?_
        rw [isNumeric_of_isSpace hspace] at hc
        cases hc
      have hskip : skip (c :: more) = c :: more := by simp [skip, hspace]
      rw [value, hskip]
      split
      all_goals first | rfl | (next heq => cases heq; cases hc)

/-- A print that is not empty is read with at least one step. -/
theorem prints_of_step {text : String} {c : Char} {more : List Char}
    (htext : text.toList = c :: more)
    (h : ∀ n rest, Closes rest → value (n + 1) (text.toList ++ rest) = some (j, rest)) :
    Prints j text := by
  intro n rest hn hrest
  have hlength := String.length_toList (s := text)
  rw [htext, List.length_cons] at hlength
  obtain ⟨m, rfl⟩ : ∃ m, n = m + 1 := ⟨n - 1, by omega⟩
  exact h m rest hrest

/-- A text that is read whatever comes behind. -/
theorem prints_literal (text : String) {c : Char} {more : List Char}
    (htext : text.toList = c :: more)
    (h : ∀ n rest, value (n + 1) (text.toList ++ rest) = some (j, rest)) : Prints j text :=
  prints_of_step htext fun n rest _ => h n rest

theorem prints_int {i : Int} (hle : -9223372036854775808 ≤ i) (hlt : i < 18446744073709551616) :
    Prints (.int i) (toString i) := by
  obtain ⟨c, more, hcons, hc⟩ := exists_cons_toString i
  refine prints_of_step hcons fun n rest hrest => ?_
  have hhead : ∀ d ∈ ((toString i).toList ++ rest).head?, isNumeric d = true := by
    rw [hcons]
    rintro d ⟨⟩
    exact hc
  rw [value_eq_number hhead, number_toString hle hlt hrest]

theorem prints_str (s : String) : Prints (.str s) (quoted s) := by
  refine prints_of_step (toList_quoted s) fun n rest _ => ?_
  have hopen : ∀ cs, skip ('"' :: cs) = '"' :: cs := fun _ => rfl
  simp only [string_quoted, value, hopen, string_escaped, String.ofList_toList]
  rfl

/-- Items are read off their prints with commas between them. -/
theorem items_intercalate {js : List Json} {prints : List String} {blank last : String}
    (h : List.Forall₂ Prints js prints) (hne : js ≠ [])
    (hblank : ∀ c ∈ blank.toList, isSpace c = true) (hlast : ∀ c ∈ last.toList, isSpace c = true)
    (rest : List Char) (hn : 2 * (("," ++ blank).intercalate prints).length + 2 ≤ n) :
    items n ((("," ++ blank).intercalate prints).toList ++ (last.toList ++ ']' :: rest)) =
      some (js, rest) := by
  induction h generalizing n with
  | nil => exact absurd rfl hne
  | @cons j print js prints hj h ih =>
      obtain ⟨m, rfl⟩ : ∃ m, n = m + 1 := ⟨n - 1, by omega⟩
      cases h with
      | nil =>
          rw [String.intercalate_singleton] at hn ⊢
          refine items_last (hj m _ (by omega) (closes_blanks hlast rfl rest)) ?_
          rw [skip_append hlast]
          rfl
      | @cons j' print' js prints hj' h =>
          rw [String.intercalate_cons_cons] at hn ⊢
          have hcomma : ",".length = 1 := rfl
          simp only [String.length_append] at hn
          have hjs := (items_blanks hblank).trans (ih (n := m) (List.cons_ne_nil _ _) (by omega))
          have hitems := items_more (hj m _ (by omega) (closes_cons rfl _)) hjs
          simpa using hitems

/-- Members are read off their prints with commas between them. -/
theorem members_intercalate {ms : List (String × Json)} {prints : List String}
    {blank last : String} (h : List.Forall₂ PrintsMember ms prints) (hne : ms ≠ [])
    (hblank : ∀ c ∈ blank.toList, isSpace c = true) (hlast : ∀ c ∈ last.toList, isSpace c = true)
    (rest : List Char) (hn : 2 * (("," ++ blank).intercalate prints).length + 2 ≤ n) :
    members n ((("," ++ blank).intercalate prints).toList ++ (last.toList ++ '\x7d' :: rest)) =
      some (ms.map fun (name, j) => (some name, j), rest) := by
  induction h generalizing n with
  | nil => exact absurd rfl hne
  | @cons member text ms prints hm h ih =>
      obtain ⟨print, rfl, hj⟩ := hm
      obtain ⟨m, rfl⟩ : ∃ m, n = m + 1 := ⟨n - 1, by omega⟩
      cases h with
      | nil =>
          rw [String.intercalate_singleton] at hn ⊢
          simp only [String.length_append] at hn
          have hvalue := hj m _ (by omega) (closes_blanks hlast (c := '\x7d') rfl rest)
          have hmembers := members_last member.1 hvalue (skip_append hlast _)
          simpa using hmembers
      | @cons member' text' ms prints hm' h =>
          rw [String.intercalate_cons_cons] at hn ⊢
          have hcomma : ",".length = 1 := rfl
          simp only [String.length_append] at hn
          have hms := (members_blanks hblank).trans (ih (n := m) (List.cons_ne_nil _ _) (by omega))
          have hmembers := members_more member.1 (hj m _ (by omega) (closes_cons rfl _)) hms
          simpa using hmembers

/-! ### Documents -/

theorem isSpace_indent (level : Nat) : ∀ c ∈ (indent level).toList, isSpace c = true := by
  intro c hc
  simp only [indent, String.toList_append, String.toList_ofList, List.mem_append] at hc
  rcases hc with hc | hc
  · obtain rfl := List.mem_singleton.mp hc
    rfl
  · rw [List.eq_of_mem_replicate hc]
    rfl

theorem ofMembers_map (ms : List (String × Json)) :
    ofMembers (ms.map fun (name, j) => (some name, j)) = .obj ms := by
  rw [ofMembers, mapM_map_eq_some]
  exact fun _ _ => rfl

theorem prints_arr {js : List Json} {prints : List String} (level : Nat)
    (h : List.Forall₂ Prints js prints) (hne : js ≠ []) :
    Prints (.arr js) ("[" ++ block level prints ++ "]") := by
  intro n rest hn hrest
  have hopen : "[".length = 1 := rfl
  have hclose : "]".length = 1 := rfl
  simp only [String.length_append, block] at hn
  obtain ⟨m, rfl⟩ : ∃ m, n = m + 1 := ⟨n - 1, by omega⟩
  have hitems := items_intercalate (n := m) h hne (isSpace_indent (level + 1))
    (isSpace_indent level) rest (by omega)
  have harr := value_arr ((items_blanks (isSpace_indent (level + 1))).trans hitems)
  simpa [block] using harr

theorem prints_obj {ms : List (String × Json)} {prints : List String} (level : Nat)
    (h : List.Forall₂ PrintsMember ms prints) (hne : ms ≠ []) :
    Prints (.obj ms) ("\x7b" ++ block level prints ++ "\x7d") := by
  intro n rest hn hrest
  have hopen : "\x7b".length = 1 := rfl
  have hclose : "\x7d".length = 1 := rfl
  simp only [String.length_append, block] at hn
  obtain ⟨m, rfl⟩ : ∃ m, n = m + 1 := ⟨n - 1, by omega⟩
  have hmembers := members_intercalate (n := m) h hne (isSpace_indent (level + 1))
    (isSpace_indent level) rest (by omega)
  have hobj := value_obj ((members_blanks (isSpace_indent (level + 1))).trans hmembers)
  rw [ofMembers_map] at hobj
  simpa [block] using hobj

mutual

-- The steps that a value takes are counted by its print, so nothing is said of them here: each case
-- only puts together what is said of the parts.
theorem prints_prettyAt : ∀ (j : Json) (level : Nat), j.plain = true → Prints j (j.prettyAt level)
  | .null, _, _ => prints_literal "null" rfl fun _ _ => rfl
  | .bool true, _, _ => prints_literal "true" rfl fun _ _ => rfl
  | .bool false, _, _ => prints_literal "false" rfl fun _ _ => rfl
  | .int _, _, h => prints_int (of_decide_eq_true h).1 (of_decide_eq_true h).2
  | .decimal _, _, h => nomatch h
  | .str s, _, _ => prints_str s
  | .arr [], _, _ => prints_literal "[]" rfl fun _ _ => rfl
  | .arr (j :: js), level, h =>
    prints_arr level (prints_prettyItems (j :: js) (level + 1) h) (List.cons_ne_nil _ _)
  | .obj [], _, _ => prints_literal "\x7b\x7d" rfl fun _ _ => rfl
  | .obj (m :: ms), level, h =>
    prints_obj level (prints_prettyMembers (m :: ms) (level + 1) h) (List.cons_ne_nil _ _)
  | .void, _, h => nomatch h

theorem prints_prettyItems : ∀ (js : List Json) (level : Nat), itemsPlain js = true →
    List.Forall₂ Prints js (prettyItems level js)
  | [], _, _ => .nil
  | j :: js, level, h => by
    rw [itemsPlain, Bool.and_eq_true] at h
    exact .cons (prints_prettyAt j level h.1) (prints_prettyItems js level h.2)

theorem prints_prettyMembers : ∀ (ms : List (String × Json)) (level : Nat),
    membersPlain ms = true → List.Forall₂ PrintsMember ms (prettyMembers level ms)
  | [], _, _ => .nil
  | (name, j) :: ms, level, h => by
    rw [membersPlain, Bool.and_eq_true] at h
    exact .cons ⟨_, rfl, prints_prettyAt j level h.1⟩ (prints_prettyMembers ms level h.2)

end

/-- **A plain document is read as it is printed.** -/
theorem parse_pretty (h : j.plain = true) : parse j.pretty = some j := by
  have hread := prints_prettyAt j 0 h (2 * j.pretty.length + 2) [] (Nat.le_add_right ..) nofun
  have hvalue : value (2 * j.pretty.toList.length + 2) j.pretty.toList = some (j, []) := by
    rw [List.append_nil] at hread
    rw [String.length_toList, ← hread, pretty]
  simp only [parse, hvalue, Option.bind_eq_bind, Option.bind_some]
  rfl

end Json
end Chronicle
