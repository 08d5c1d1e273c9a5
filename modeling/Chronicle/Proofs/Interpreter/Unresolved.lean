import Chronicle.Proofs.Except
import Chronicle.Proofs.Interpreter.Causes

/-!
# Comparisons with what is not there

A path can stand in three places of a comparison: as its left side, or in a query on either side. A
path that leads nowhere leaves the left side without a value, and the comparison does not hold
(`Condition.Strays.left`). A query of such a path has the value `null`, as has one of an
attribute that was never written, so the comparison holds if the other side comes to `null` too
(`Condition.Strays.holds_iff`), and a condition that compares such a query with `null` passes its
check (`Condition.holds_of_ghost`).
-/

namespace Chronicle

namespace Value

/-- Only `null` is forced to `null`. -/
theorem coerce_eq_null_iff {v : Value} {k : Kind} : v.coerce k = .ok .null ↔ v = .null := by
  constructor
  · intro h
    cases v with
    | null => rfl
    | int n => cases k <;> cases h
    | long n => cases k <;> cases h
    | text s =>
        cases k with
        | int => obtain ⟨n, -, hn⟩ := map_eq_ok_iff.mp h; cases hn
        | long => obtain ⟨n, -, hn⟩ := map_eq_ok_iff.mp h; cases hn
        | string => cases h
  · rintro rfl
    exact coerce_null k

end Value

/-! ### Sides that come to `null` -/

/-- Nothing but `null` is read at the path: it leads nowhere, or to an attribute that holds
`null`. -/
def Scope.ReadsNull (scope : Scope) (s : Store) (path : List Locator) : Prop :=
  ∀ q, (scope.find s Quark.root path).val = .ok q → s.ongoing q = .null

/-- The value of a source is `null`: of a field that the event lacks, or of a query where nothing
but `null` is read. -/
def Source.ComesToNull (scope : Scope) (s : Store) : Source → Prop
  | .literal v => v = .null
  | .eventField name _ => scope.event.value name = .null
  | .query path => scope.ReadsNull s path
  | .eventName => False
  | .delete => True

/-- The left side of a comparison is `null`; an attribute on the left has to be there for that. -/
def Operand.ComesToNull (scope : Scope) (s : Store) : Operand → Prop
  | .attribute path => scope.ReadsNull s path ∧
      ∃ q, (scope.find s Quark.root path).val = .ok q
  | .term m => m.source.ComesToNull scope s

section

variable {scope : Scope} {s : Store} {path : List Locator} {u : Unresolved}

/-- A name that nothing has leads nowhere. -/
theorem Scope.find_constant_of_none {q : Quark} {name : String}
    (h : s.tree.child? q name = none) :
    (scope.find s q [.constant name]).val = .error .absent := by
  rw [find_cons, findOne_constant, Store.lookup, h]
  rfl

theorem Scope.readsNull_of_unresolved (h : (scope.find s Quark.root path).val = .error u) :
    scope.ReadsNull s path := by
  intro q hq
  rw [h] at hq
  cases hq

theorem Term.comesToNull_of_unresolved {m : Term} (hm : path ∈ m.paths)
    (h : (scope.find s Quark.root path).val = .error u) : m.source.ComesToNull scope s := by
  unfold Term.paths at hm
  split at hm
  · next p hsource =>
    obtain rfl := List.mem_singleton.mp hm
    rw [hsource]
    exact Scope.readsNull_of_unresolved h
  · cases hm

/-- What is read at a path, by where the path leads. -/
theorem Scope.val_valueAt_eq (scope : Scope) (s : Store) (path : List Locator) :
    (scope.valueAt s path).val = (scope.find s Quark.root path).val.toOption.map s.ongoing := by
  unfold valueAt
  rw [Observed.val_bind]
  cases (scope.find s Quark.root path).val <;> rfl

/-- **A source has the value `null` as its kind says.** -/
theorem Source.val_evaluate_eq_null_iff {source : Source} :
    (source.evaluate scope s).val = .ok .null ↔ source.ComesToNull scope s := by
  cases source with
  | literal v => simp [evaluate, ComesToNull]
  | eventField name kind =>
      rw [val_evaluate_eventField, ComesToNull]
      cases kind with
      | none => simp [Event.forced]
      | some kind => exact Value.coerce_eq_null_iff
  | query path =>
      rw [val_evaluate_query, Scope.val_valueAt_eq, ComesToNull, Scope.ReadsNull]
      cases (scope.find s Quark.root path).val <;> simp [Except.toOption]
  | eventName => simp [evaluate, ComesToNull]
  | delete => simp [evaluate, ComesToNull]

theorem Operand.val_evaluate_path : ((Operand.attribute path).evaluate scope s).val =
    (scope.find s Quark.root path).val.toOption.map s.ongoing := by
  rw [← Scope.val_valueAt_eq, evaluate, Observed.val_bind]
  cases (scope.valueAt s path).val <;> rfl

theorem Operand.val_evaluate_term (m : Term) : ((Operand.term m).evaluate scope s).val =
    (m.source.evaluate scope s).val.toOption := by
  rw [evaluate, Observed.val_bind]
  cases (m.source.evaluate scope s).val <;> rfl

theorem Operand.val_evaluate_eq_null_iff {operand : Operand} :
    (operand.evaluate scope s).val = some .null ↔ operand.ComesToNull scope s := by
  rcases operand with path | m
  · rw [val_evaluate_path, ComesToNull, Scope.ReadsNull]
    cases (scope.find s Quark.root path).val <;> simp [Except.toOption]
  · rw [val_evaluate_term, ComesToNull, ← Source.val_evaluate_eq_null_iff]
    cases (m.source.evaluate scope s).val <;> simp [Except.toOption]

end

/-! ### Comparisons that stray -/

namespace Condition

variable {scope : Scope} {s : Store} {operand : Operand} {expected : Term} {path : List Locator}

/-- A comparison holds if both sides have one value. -/
theorem test_leaf_iff : ((leaf operand expected).test scope s).val = true ↔
    ∃ v, (operand.evaluate scope s).val = some v ∧
      (expected.source.evaluate scope s).val = .ok v := by
  rw [test, compare, Observed.val_bind]
  cases (operand.evaluate scope s).val with
  | none => simp
  | some v =>
      simp only [Observed.val_bind]
      cases (expected.source.evaluate scope s).val with
      | error e =>
          constructor
          · exact fun h => absurd h Bool.false_ne_true
          · rintro ⟨_, _, h⟩
            cases h
      | ok w =>
          rw [Observed.val_pure, beq_iff_eq]
          constructor
          · rintro rfl
            exact ⟨v, rfl, rfl⟩
          · rintro ⟨_, ⟨rfl⟩, ⟨rfl⟩⟩
            rfl

/-- What comes of a comparison that reads a path which leads nowhere.

* If the path is the left side, the comparison does not hold, whatever is expected.
* In any place: it holds if and only if both sides come to `null`.
* If the left side is a query of the path, it holds if and only if `null` is expected.
* If a query of the path is expected, it holds if and only if the left side is `null`. -/
structure Strays (scope : Scope) (s : Store) (operand : Operand) (expected : Term)
    (path : List Locator) : Prop where
  left : operand = .attribute path → ((leaf operand expected).test scope s).val = false
  holds_iff : ((leaf operand expected).test scope s).val = true ↔
    operand.ComesToNull scope s ∧ expected.source.ComesToNull scope s
  queried : ∀ m, operand = .term m → m.source = .query path →
    (((leaf operand expected).test scope s).val = true ↔ expected.source.ComesToNull scope s)
  expected : expected.source = .query path →
    (((leaf operand expected).test scope s).val = true ↔ operand.ComesToNull scope s)

/-- A comparison that reads a path which leads nowhere has a side that has no value but `null`. -/
theorem test_leaf_iff_of_unresolved (hpath : path ∈ Comparison.paths ⟨operand, expected⟩)
    {u : Unresolved} (hu : (scope.find s Quark.root path).val = .error u) :
    ((leaf operand expected).test scope s).val = true ↔
      operand.ComesToNull scope s ∧ expected.source.ComesToNull scope s := by
  rw [test_leaf_iff, ← Operand.val_evaluate_eq_null_iff, ← Source.val_evaluate_eq_null_iff]
  have hquery : ∀ m : Term, path ∈ m.paths → (m.source.evaluate scope s).val = .ok .null :=
    fun m hm => Source.val_evaluate_eq_null_iff.mpr (Term.comesToNull_of_unresolved hm hu)
  -- the side that reads the path has no value but `null`, so `null` is what both sides have
  have hside : ∀ v, (operand.evaluate scope s).val = some v →
      (expected.source.evaluate scope s).val = .ok v → v = .null := by
    intro v hv hw
    rcases List.mem_append.mp hpath with hp | hp
    · rcases operand with p | m
      · obtain rfl := List.mem_singleton.mp hp
        rw [Operand.val_evaluate_path, hu] at hv
        cases hv
      · rw [Operand.val_evaluate_term, hquery m hp] at hv
        exact (Option.some.inj hv).symm
    · rw [hquery expected hp] at hw
      exact (Except.ok.inj hw).symm
  constructor
  · rintro ⟨v, hv, hw⟩
    obtain rfl := hside v hv hw
    exact ⟨hv, hw⟩
  · exact fun ⟨hv, hw⟩ => ⟨.null, hv, hw⟩

/-- **A comparison that reads a path which leads nowhere holds only if both sides come to `null`**,
and so does not hold if the path is its left side. -/
theorem strays (hpath : path ∈ Comparison.paths ⟨operand, expected⟩)
    {u : Unresolved} (hu : (scope.find s Quark.root path).val = .error u) :
    Strays scope s operand expected path := by
  have hiff := test_leaf_iff_of_unresolved hpath hu
  refine ⟨?_, hiff, ?_, ?_⟩
  · rintro rfl
    rw [Bool.eq_false_iff, ne_eq, hiff]
    rintro ⟨⟨-, q, hq⟩, -⟩
    rw [hu] at hq
    cases hq
  · rintro m rfl hm
    have hleft : (Operand.term m).ComesToNull scope s := by
      rw [Operand.ComesToNull, hm]
      exact Scope.readsNull_of_unresolved hu
    rw [hiff, and_iff_right hleft]
  · intro hexpected
    have hright : expected.source.ComesToNull scope s := by
      rw [hexpected]
      exact Scope.readsNull_of_unresolved hu
    rw [hiff, and_iff_left hright]

/-- The ghost is not there, the processor was written, and the idle thread was created only. -/
theorem strays_of_ghost :
    let ghost : List Locator := [.constant "Ghost"]
    let cpu : List Locator := [.constant "Cpu"]
    let idle : List Locator := [.constant "Idle"]
    let scope : Scope := { table := {}, event := { name := "tick", timestamp := 9 } }
    let s : Store := Store.callEach {} [.create Quark.root "Cpu", .create Quark.root "Idle",
      .mutate 0 3 (.set (.int 2))]
    let ofGhost : Term := ⟨.query ghost, false, .none⟩
    let null : Term := ⟨.literal .null, false, .none⟩
    s.Reachable ∧ (scope.find s Quark.root ghost).val = .error .absent ∧
      Strays scope s (.attribute ghost) null ghost ∧
      Strays scope s (.attribute cpu) ofGhost ghost ∧
      Strays scope s (.attribute idle) ofGhost ghost ∧
      ((leaf (.attribute ghost) null).test scope s).val = false ∧
      ((leaf (.attribute cpu) ofGhost).test scope s).val = false ∧
      ((leaf (.attribute idle) ofGhost).test scope s).val = true := by
  intro ghost cpu idle scope s ofGhost null
  have hu : (scope.find s Quark.root ghost).val = .error .absent :=
    Scope.find_constant_of_none (by decide +kernel)
  have hleft : ghost ∈ Comparison.paths ⟨.attribute ghost, null⟩ := List.mem_cons_self
  have hright : ∀ path, ghost ∈ Comparison.paths ⟨.attribute path, ofGhost⟩ := fun path =>
    List.mem_cons_of_mem path List.mem_cons_self
  exact ⟨Store.Reachable.empty.callEach _, hu, strays hleft hu, strays (hright _) hu,
    strays (hright _) hu, by decide +kernel, by decide +kernel, by decide +kernel⟩

/-- A query of what is not there passes the check on either side of a comparison, and equals
`null`: in the store that nothing was created in, the comparison holds. -/
theorem holds_of_ghost :
    let ghost : List Locator := [.constant "Ghost"]
    let scope : Scope := { table := {}, event := { name := "tick", timestamp := 1 } }
    let ofGhost : Term := ⟨.query ghost, false, .none⟩
    let null : Term := ⟨.literal .null, false, .none⟩
    Store.Reachable {} ∧ (scope.find {} Quark.root ghost).val = .error .absent ∧
      ∀ sides ∈ [(ofGhost, null), (null, ofGhost)],
        (leaf (.term sides.1) sides.2).check scope.table = .ok () ∧
          ghost ∈ Comparison.paths ⟨.term sides.1, sides.2⟩ ∧
          ((leaf (.term sides.1) sides.2).test scope {}).val = true := by
  intro ghost scope ofGhost null
  refine ⟨.empty, Scope.find_constant_of_none (by decide +kernel), ?_⟩
  rw [List.forall_mem_cons, List.forall_mem_singleton]
  exact ⟨⟨rfl, List.mem_cons_self, by decide +kernel⟩,
    ⟨rfl, List.mem_cons_self, by decide +kernel⟩⟩

end Condition
end Chronicle
