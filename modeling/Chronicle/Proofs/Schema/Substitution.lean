import Chronicle.Proofs.Except
import Chronicle.Proofs.Keyed
import Chronicle.Proofs.Schema.Sound

/-!
# References are replaced once

A reference is replaced by what its definition gives, and what was put in its place is left alone.
If no definition gives a text that is a reference itself (`Definitions.Plain`), nothing is left to
be replaced: substitution with any definitions, or none, leaves the result as it is
(`Handler.substitute_substituted`, `Location.substitute_substituted`).

Numbers that stand for names are no references, since they begin with a digit or a minus sign.
-/

namespace Chronicle

open Schema (Refusal)

/-! ### Names and literals -/

namespace Definitions

/-- No definition gives a text that is a reference itself. -/
def Plain (d : Definitions) : Prop :=
  ∀ entry ∈ d.entries, ∀ s, entry.2 = .text s → reference? s = none

theorem reference?_eq_none {text : String} (h : text.toList.head? ≠ some mark) :
    reference? text = none := by
  unfold reference?
  cases hc : text.toList with
  | nil => rfl
  | cons c rest =>
      rw [hc] at h
      exact if_neg fun hmark => h (congrArg some hmark)

/-- A number is no reference. -/
theorem reference?_toString (n : Int) : reference? (toString n) = none := by
  refine reference?_eq_none fun h => ?_
  rw [Int.toString_eq_repr, Int.repr_eq_if] at h
  split at h
  · -- It begins with a digit.
    have hmem := List.mem_of_head? h
    rw [Nat.toList_repr] at hmem
    have hdigit := Nat.isDigit_of_mem_toDigits (by decide) (by decide) hmem
    revert hdigit
    decide
  · -- It begins with the minus sign.
    rw [String.toList_append] at h
    revert h
    simp [mark]

variable {d : Definitions}

theorem Plain.reference?_of_find (hd : d.Plain) {key s : String} (h : d.find key = .ok (.text s)) :
    reference? s = none := by
  unfold Definitions.find at h
  split at h
  · next v hv =>
    obtain rfl := Except.ok.inj h
    exact hd _ (Keyed.mem_of_get? hv) s rfl
  · cases h

/-- What stands for a name is no reference. -/
theorem Plain.reference?_of_segment (hd : d.Plain) {name segment : String}
    (h : d.segment name = .ok segment) : reference? segment = none := by
  unfold Definitions.segment at h
  split at h
  · next hname =>
    obtain rfl := Except.ok.inj h
    exact hname
  · next key hname =>
    obtain ⟨v, hv, h⟩ := bind_eq_ok_iff.mp h
    cases v with
    | null => cases h
    | int n =>
        obtain rfl := Except.ok.inj h
        exact reference?_toString _
    | long n =>
        obtain rfl := Except.ok.inj h
        exact reference?_toString _
    | text s =>
        obtain rfl := Except.ok.inj h
        exact hd.reference?_of_find hv

variable (d' : Definitions)

theorem Plain.segment_substituted (hd : d.Plain) {name segment : String}
    (h : d.segment name = .ok segment) : d'.segment segment = .ok segment := by
  rw [Definitions.segment, hd.reference?_of_segment h]

theorem Plain.literal_substituted (hd : d.Plain) {v w : Value} (h : d.literal v = .ok w) :
    d'.literal w = .ok w := by
  have htext : ∀ s, w = .text s → reference? s = none := by
    rintro s rfl
    unfold Definitions.literal at h
    split at h
    · next r =>
      split at h
      · next hr =>
        obtain rfl := Value.text.inj (Except.ok.inj h)
        exact hr
      · exact hd.reference?_of_find h
    · next hne =>
      exact absurd (Except.ok.inj h) (hne s)
  cases w with
  | text s => simp only [Definitions.literal, htext s rfl]
  | _ => rfl

end Definitions

/-! ### Paths, terms, conditions and state changes -/

section

variable {d : Definitions}

namespace Locator

mutual

theorem substitute_substituted (hd : d.Plain) (d' : Definitions) : ∀ (l : Locator) {l' : Locator},
    l.substitute d = .ok l' → l'.substitute d' = .ok l'
  | .constant name, l', h => by
    simp only [substitute, bind_eq_ok_iff, pure_eq_ok_iff] at h
    obtain ⟨segment, hsegment, rfl⟩ := h
    rw [substitute, hd.segment_substituted d' hsegment]
    rfl
  | .query path, l', h => by
    simp only [substitute, bind_eq_ok_iff, pure_eq_ok_iff] at h
    obtain ⟨path', hpath, rfl⟩ := h
    rw [substitute, substituteEach_substituted hd d' path hpath]
    rfl
  | .eventField name, l', h => by
    simp only [substitute, pure_eq_ok_iff] at h
    subst h
    rw [substitute]
    rfl
  | .location name, l', h => by
    simp only [substitute, pure_eq_ok_iff] at h
    subst h
    rw [substitute]
    rfl

theorem substituteEach_substituted (hd : d.Plain) (d' : Definitions) :
    ∀ (path : List Locator) {path' : List Locator},
      substituteEach d path = .ok path' → substituteEach d' path' = .ok path'
  | [], path', h => by
    simp only [substituteEach, pure_eq_ok_iff] at h
    subst h
    rw [substituteEach]
    rfl
  | l :: rest, path', h => by
    simp only [substituteEach, bind_eq_ok_iff, pure_eq_ok_iff] at h
    obtain ⟨l', hl, rest', hrest, rfl⟩ := h
    rw [substituteEach, substitute_substituted hd d' l hl,
      substituteEach_substituted hd d' rest hrest]
    rfl

end

end Locator

variable (hd : d.Plain) (d' : Definitions)

include hd

theorem Location.substitute_substituted {l l' : Location} (h : l.substitute d = .ok l') :
    l'.substitute d' = .ok l' := by
  simp only [substitute, bind_eq_ok_iff, pure_eq_ok_iff] at h
  obtain ⟨path, hpath, rfl⟩ := h
  simp only [substitute, Locator.substituteEach_substituted hd d' l.path hpath]
  rfl

theorem Source.substitute_substituted {source source' : Source}
    (h : source.substitute d = .ok source') : source'.substitute d' = .ok source' := by
  cases source with
  | literal v =>
      simp only [substitute, bind_eq_ok_iff, pure_eq_ok_iff] at h
      obtain ⟨w, hw, rfl⟩ := h
      rw [substitute, hd.literal_substituted d' hw]
      rfl
  | query path =>
      simp only [substitute, bind_eq_ok_iff, pure_eq_ok_iff] at h
      obtain ⟨path', hpath, rfl⟩ := h
      rw [substitute, Locator.substituteEach_substituted hd d' path hpath]
      rfl
  | _ =>
      obtain rfl := Except.ok.inj h
      rfl

theorem Term.substitute_substituted {m m' : Term} (h : m.substitute d = .ok m') :
    m'.substitute d' = .ok m' := by
  simp only [substitute, bind_eq_ok_iff, pure_eq_ok_iff] at h
  obtain ⟨source, hsource, rfl⟩ := h
  simp only [substitute, Source.substitute_substituted hd d' hsource]
  rfl

theorem Operand.substitute_substituted {o o' : Operand} (h : o.substitute d = .ok o') :
    o'.substitute d' = .ok o' := by
  rcases o with path | m
  · simp only [substitute, bind_eq_ok_iff, pure_eq_ok_iff] at h
    obtain ⟨path', hpath, rfl⟩ := h
    rw [substitute, Locator.substituteEach_substituted hd d' path hpath]
    rfl
  · simp only [substitute, bind_eq_ok_iff, pure_eq_ok_iff] at h
    obtain ⟨m', hm, rfl⟩ := h
    rw [substitute, Term.substitute_substituted hd d' hm]
    rfl

omit hd

namespace Condition

mutual

theorem substitute_substituted (hd : d.Plain) (d' : Definitions) :
    ∀ (c : Condition) {c' : Condition}, c.substitute d = .ok c' → c'.substitute d' = .ok c'
  | .leaf operand expected, c', h => by
    simp only [substitute, bind_eq_ok_iff, pure_eq_ok_iff] at h
    obtain ⟨operand', hoperand, expected', hexpected, rfl⟩ := h
    rw [substitute, Operand.substitute_substituted hd d' hoperand,
      Term.substitute_substituted hd d' hexpected]
    rfl
  | .not c, c', h => by
    simp only [substitute, bind_eq_ok_iff, pure_eq_ok_iff] at h
    obtain ⟨inner, hinner, rfl⟩ := h
    rw [substitute, substitute_substituted hd d' c hinner]
    rfl
  | .all cs, c', h => by
    simp only [substitute, bind_eq_ok_iff, pure_eq_ok_iff] at h
    obtain ⟨inner, hinner, rfl⟩ := h
    rw [substitute, substituteEach_substituted hd d' cs hinner]
    rfl
  | .any cs, c', h => by
    simp only [substitute, bind_eq_ok_iff, pure_eq_ok_iff] at h
    obtain ⟨inner, hinner, rfl⟩ := h
    rw [substitute, substituteEach_substituted hd d' cs hinner]
    rfl

theorem substituteEach_substituted (hd : d.Plain) (d' : Definitions) :
    ∀ (cs : List Condition) {cs' : List Condition},
      substituteEach d cs = .ok cs' → substituteEach d' cs' = .ok cs'
  | [], cs', h => by
    simp only [substituteEach, pure_eq_ok_iff] at h
    subst h
    rw [substituteEach]
    rfl
  | c :: rest, cs', h => by
    simp only [substituteEach, bind_eq_ok_iff, pure_eq_ok_iff] at h
    obtain ⟨c', hc, rest', hrest, rfl⟩ := h
    rw [substituteEach, substitute_substituted hd d' c hc,
      substituteEach_substituted hd d' rest hrest]
    rfl

end

end Condition

namespace Change

mutual

theorem substitute_substituted (hd : d.Plain) (d' : Definitions) :
    ∀ (change : Change) {change' : Change},
      change.substitute d = .ok change' → change'.substitute d' = .ok change'
  | .assign path m, change', h => by
    simp only [substitute, bind_eq_ok_iff, pure_eq_ok_iff] at h
    obtain ⟨path', hpath, m', hm, rfl⟩ := h
    rw [substitute, Locator.substituteEach_substituted hd d' path hpath,
      Term.substitute_substituted hd d' hm]
    rfl
  | .conditional c yes no, change', h => by
    simp only [substitute, bind_eq_ok_iff, pure_eq_ok_iff] at h
    obtain ⟨c', hc, yes', hyes, no', hno, rfl⟩ := h
    rw [substitute, Condition.substitute_substituted hd d' c hc,
      substituteBranch_substituted hd d' yes hyes, substituteBranch_substituted hd d' no hno]
    rfl

theorem substituteBranch_substituted (hd : d.Plain) (d' : Definitions) :
    ∀ (branch : Option Change) {branch' : Option Change},
      substituteBranch d branch = .ok branch' → substituteBranch d' branch' = .ok branch'
  | none, branch', h => by
    simp only [substituteBranch, pure_eq_ok_iff] at h
    subst h
    rw [substituteBranch]
    rfl
  | some change, branch', h => by
    simp only [substituteBranch, bind_eq_ok_iff, pure_eq_ok_iff] at h
    obtain ⟨change', hchange, rfl⟩ := h
    rw [substituteBranch, substitute_substituted hd d' change hchange]
    rfl

end

end Change

end

/-! ### Handlers -/

namespace Handler

variable {d : Definitions} {h h' : Handler}

theorem pattern_of_substitute (hh : h.substitute d = .ok h') : h'.pattern = h.pattern := by
  simp only [substitute, bind_eq_ok_iff, pure_eq_ok_iff] at hh
  obtain ⟨changes, -, rfl⟩ := hh
  rfl

theorem substitute_substituted (hd : d.Plain) (d' : Definitions) (hh : h.substitute d = .ok h') :
    h'.substitute d' = .ok h' := by
  simp only [substitute, bind_eq_ok_iff, pure_eq_ok_iff] at hh
  obtain ⟨changes, hchanges, rfl⟩ := hh
  have hself : changes.mapM (Change.substitute d') = .ok changes := by
    refine mapM_eq_self fun change' hmem => ?_
    obtain ⟨change, -, hchange⟩ := exists_of_mem_mapM hchanges change' hmem
    exact change.substitute_substituted hd d' hchange
  simp only [substitute, hself]
  rfl

end Handler
end Chronicle
