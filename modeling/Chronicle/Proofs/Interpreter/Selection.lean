import Chronicle.Interpreter.Application
import Chronicle.Proofs.Schema.Sound

/-!
# What conditions select

A condition is a boolean function of its comparisons, and to test it is to make all of them from
left to right, whatever comes of them (`Condition.val_test`, `Condition.observation_test`). A state
change selects at most one assignment by its conditions, and does what that assignment does
(`Change.apply_eq`). The assignment that a sound state change selects is sound
(`Change.sound_of_select`).

So what is proved of comparisons and of assignments holds of conditions and of state changes,
however they are nested.
-/

namespace Chronicle

/-! ### Observations one after another -/

namespace Observation

/-- Observations one after another. -/
def join (os : List Observation) : Observation :=
  os.foldr (· ++ ·) {}

theorem join_append (os ps : List Observation) : join (os ++ ps) = join os ++ join ps := by
  induction os with
  | nil => exact (empty_append _).symm
  | cons o rest ih => exact (congrArg (o ++ ·) ih).trans (append_assoc ..).symm

theorem mem_remarks_join {os : List Observation} {r : Remark} :
    r ∈ (join os).remarks ↔ ∃ o ∈ os, r ∈ o.remarks := by
  induction os with
  | nil => simp [join]
  | cons o rest ih =>
      rw [join, List.foldr_cons, remarks_append, List.mem_append]
      exact (or_congr_right ih).trans (by simp)

theorem lookups_join_congr {α : Type} {f g : α → Observation} {as : List α}
    (h : ∀ a ∈ as, (f a).lookups = (g a).lookups) :
    (join (as.map f)).lookups = (join (as.map g)).lookups := by
  induction as with
  | nil => rfl
  | cons a rest ih =>
      obtain ⟨ha, hrest⟩ := List.forall_mem_cons.mp h
      have hjoin : ∀ k : α → Observation, (join ((a :: rest).map k)).lookups =
          (k a).lookups + (join (rest.map k)).lookups := fun _ => rfl
      rw [hjoin, hjoin, ha, ih hrest]

end Observation

/-! ### Conditions -/

namespace Comparison

/-- Whether the two sides of a comparison are equal. -/
def test (scope : Scope) (s : Store) (l : Comparison) : Observed Bool :=
  Condition.compare scope s l.operand l.expected

end Comparison

namespace Condition

mutual

/-- The condition holds, if `p` tells which comparisons hold. -/
def holds (p : Comparison → Bool) : Condition → Bool
  | .leaf operand expected => p ⟨operand, expected⟩
  | .not c => !c.holds p
  | .all cs => (holdsEach p cs).all id
  | .any cs => (holdsEach p cs).any id

/-- Which of the conditions hold. -/
def holdsEach (p : Comparison → Bool) : List Condition → List Bool
  | [] => []
  | c :: rest => c.holds p :: holdsEach p rest

end

mutual

/-- Only the comparisons that a condition makes count. -/
theorem holds_congr {p q : Comparison → Bool} :
    ∀ c : Condition, (∀ l ∈ c.leaves, p l = q l) → c.holds p = c.holds q
  | .leaf _ _, h => h _ List.mem_cons_self
  | .not c, h => congrArg (!·) (holds_congr c h)
  | .all cs, h => congrArg (·.all id) (holdsEach_congr cs h)
  | .any cs, h => congrArg (·.any id) (holdsEach_congr cs h)

theorem holdsEach_congr {p q : Comparison → Bool} :
    ∀ cs : List Condition, (∀ l ∈ leavesOfEach cs, p l = q l) → holdsEach p cs = holdsEach q cs
  | [], _ => rfl
  | c :: rest, h => by
    rw [holdsEach, holdsEach, holds_congr c fun l hl => h l (List.mem_append_left _ hl),
      holdsEach_congr rest fun l hl => h l (List.mem_append_right _ hl)]

end

variable (scope : Scope) (s : Store)

mutual

/-- A condition holds by what its comparisons come to. -/
theorem val_test : ∀ c : Condition, (c.test scope s).val = c.holds fun l => (l.test scope s).val
  | .leaf _ _ => rfl
  | .not c => congrArg (!·) (val_test c)
  | .all cs => congrArg (·.all id) (val_testEach cs)
  | .any cs => congrArg (·.any id) (val_testEach cs)

theorem val_testEach : ∀ cs : List Condition,
    (testEach scope s cs).val = holdsEach (fun l => (l.test scope s).val) cs
  | [] => rfl
  | c :: rest => by rw [testEach, holdsEach, ← val_test c, ← val_testEach rest]; rfl

end

mutual

/-- All comparisons of a condition are made, from left to right. -/
theorem observation_test : ∀ c : Condition, (c.test scope s).toObservation =
    .join (c.leaves.map fun l => (l.test scope s).toObservation)
  | .leaf _ _ => (Observation.append_empty _).symm
  | .not c => (Observation.append_empty _).trans (observation_test c)
  | .all cs => (Observation.append_empty _).trans (observation_testEach cs)
  | .any cs => (Observation.append_empty _).trans (observation_testEach cs)

theorem observation_testEach : ∀ cs : List Condition, (testEach scope s cs).toObservation =
    .join ((leavesOfEach cs).map fun l => (l.test scope s).toObservation)
  | [] => rfl
  | c :: rest => by
    have h : (testEach scope s (c :: rest)).toObservation =
        (c.test scope s).toObservation ++ ((testEach scope s rest).toObservation ++ {}) := rfl
    rw [h, Observation.append_empty, observation_test c, observation_testEach rest, leavesOfEach,
      List.map_append, Observation.join_append]

end

end Condition

/-! ### State changes -/

/-- A term that is assigned to the attribute at a path. -/
structure Assignment where
  target : List Locator
  term : Term

namespace Assignment

/-- The target and the term of an assignment are sound. -/
structure Sound (t : Table) (a : Assignment) : Prop where
  target : Locator.Sound t a.target
  term : a.term.Sound t

/-- Assigns, if there is something to assign. -/
def perform (scope : Scope) (s : Store) : Option Assignment → Effect (Except ChangeError Unit)
  | none => ⟨{}, .ok (), s, []⟩
  | some a => Change.assignTo scope s a.target a.term

end Assignment

namespace Change

mutual

/-- The assignment that the conditions of a state change select, if they select one. -/
def select (scope : Scope) (s : Store) : Change → Observed (Option Assignment)
  | .assign path m => pure (some ⟨path, m⟩)
  | .conditional c yes no => do
    if ← c.test scope s then selectBranch scope s yes else selectBranch scope s no

/-- The assignment that a branch selects, if there is a branch. -/
def selectBranch (scope : Scope) (s : Store) : Option Change → Observed (Option Assignment)
  | none => pure none
  | some change => change.select scope s

end

/-- What the selected assignment does, after what was observed on the way to it. -/
def performSelected (scope : Scope) (s : Store) (selected : Observed (Option Assignment)) :
    Effect (Except ChangeError Unit) :=
  let done := Assignment.perform scope s selected.val
  { done with toObservation := selected.toObservation ++ done.toObservation }

variable {scope : Scope} {s : Store}

theorem performSelected_pure (a : Option Assignment) :
    performSelected scope s (pure a) = Assignment.perform scope s a := by
  have h : (pure a : Observed _).toObservation = {} := rfl
  simp [performSelected, h]

mutual

/-- **A state change does what the assignment that it selects does.** -/
theorem apply_eq : ∀ change : Change,
    change.apply scope s = performSelected scope s (change.select scope s)
  | .assign path m => by
    rw [apply, select, performSelected_pure]
    rfl
  | .conditional c yes no => by
    have hselect : (Change.conditional c yes no).select scope s = (c.test scope s >>= fun b =>
        if b then selectBranch scope s yes else selectBranch scope s no) := by
      rw [select]
    rw [apply, hselect, applyBranch_eq yes, applyBranch_eq no]
    cases hc : (c.test scope s).val with
    | true => simp [performSelected, hc, bind, Observation.append_assoc]
    | false => simp [performSelected, hc, bind, Observation.append_assoc]

theorem applyBranch_eq : ∀ branch : Option Change,
    applyBranch scope s branch = performSelected scope s (selectBranch scope s branch)
  | none => by
    rw [applyBranch, selectBranch, performSelected_pure]
    rfl
  | some change => by
    rw [applyBranch, selectBranch]
    exact apply_eq change

end

section

variable {t : Table} {a : Assignment}

mutual

/-- **The assignment that a sound state change selects is sound.** -/
theorem sound_of_select : ∀ change : Change, change.check t = .ok () →
    (change.select scope s).val = some a → a.Sound t
  | .assign path m, h, ha => by
    obtain rfl := Option.some.inj ha
    obtain ⟨hpath, hm⟩ := check_assign_iff.mp h
    exact ⟨hpath, hm⟩
  | .conditional c yes no, h, ha => by
    obtain ⟨-, -, hyes, hno⟩ := check_conditional_iff.mp h
    rw [select, Observed.val_bind] at ha
    split at ha
    · exact sound_of_selectBranch yes hyes ha
    · exact sound_of_selectBranch no hno ha

theorem sound_of_selectBranch : ∀ branch : Option Change,
    (∀ change ∈ branch, change.check t = .ok ()) →
      (selectBranch scope s branch).val = some a → a.Sound t
  | none, _, ha => by cases ha
  | some change, h, ha => sound_of_select change (h change rfl) ha

end

end

end Change
end Chronicle
