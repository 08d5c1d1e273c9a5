import Chronicle.Proofs.Interpreter.Termination

/-!
# Testing conditions on a store that is handed on

To test a condition is to read the store again and again: for each comparison of it in turn, and
within a comparison for the left side and then for the right. The relations below hand the store on
from each read to the next, and so through the operands of `all` and `any`, all of which are tested
(`Condition.TestsOn`). What comes of it is the same as if each read were of the store at the start,
since no read changes it (`Condition.testsOn_iff`).

So every comparison is made on one store, the condition holds as its tree says, the lookups are
those of all comparisons together (`Condition.lookups_test`), and the order in which operands stand
is of no account (`Condition.Reordered`).
-/

namespace Chronicle

/-! ### Reads one after another -/

/-- What is read at a path from the root, and the store that is handed on. -/
inductive Scope.ReadsOn (scope : Scope) (n : Nat) (s : Store) (path : List Locator) :
    Observed (Option Value) → Store → Prop
  | found {g : Growth} : scope.Resolves n .finding s Quark.root (.path path) g →
      ReadsOn scope n s path g.held g.store

/-- The value of a source, and the store that is handed on. -/
inductive Source.EvaluatesOn (scope : Scope) (n : Nat) (s : Store) :
    Source → Observed (Except CoercionError Value) → Store → Prop
  | aside {source : Source} {x : Observed (Except CoercionError Value)} :
      (∀ path, source ≠ .query path) → source.Evaluates scope n s x →
        EvaluatesOn scope n s source x s
  | query {path : List Locator} {x : Observed (Option Value)} {after : Store} :
      scope.ReadsOn n s path x after →
        EvaluatesOn scope n s (.query path) (do
          match ← x with
          | some v => pure (.ok v)
          | none => do
            Observed.remark (.queryUnresolved path)
            pure (.ok .null)) after

/-- The value on the left side of a comparison, and the store that is handed on. -/
inductive Operand.EvaluatesOn (scope : Scope) (n : Nat) (s : Store) :
    Operand → Observed (Option Value) → Store → Prop
  | attribute {path : List Locator} {x : Observed (Option Value)} {after : Store} :
      scope.ReadsOn n s path x after →
        EvaluatesOn scope n s (.attribute path) (do
          match ← x with
          | some v => pure (some v)
          | none => do
            Observed.remark (.operandUnresolved path)
            pure none) after
  | term {m : Term} {x : Observed (Except CoercionError Value)} {after : Store} :
      m.source.EvaluatesOn scope n s x after →
        EvaluatesOn scope n s (.term m) (do
          match ← x with
          | .ok v => pure (some v)
          | .error e => do
            Observed.remark (.operandUncoercible e)
            pure none) after

/-- Whether a comparison holds, and the store that is handed on. -/
inductive Condition.ComparesOn (scope : Scope) (n : Nat) (s : Store) (operand : Operand)
    (expected : Term) : Observed Bool → Store → Prop
  | missing {x : Observed (Option Value)} {after : Store} :
      operand.EvaluatesOn scope n s x after → x.val = none →
        ComparesOn scope n s operand expected (do
          let _ ← x
          pure false) after
  | told {x : Observed (Option Value)} {v : Value} {y : Observed (Except CoercionError Value)}
      {between after : Store} :
      operand.EvaluatesOn scope n s x between → x.val = some v →
      expected.source.EvaluatesOn scope n between y after →
        ComparesOn scope n s operand expected (do
          let _ ← x
          match ← y with
          | .ok w => pure (v == w)
          | .error e => do
            Observed.remark (.expectedUncoercible e)
            pure false) after

mutual

/-- Whether a condition holds, and the store that is handed on. -/
inductive Condition.TestsOn (scope : Scope) (n : Nat) :
    Store → Condition → Observed Bool → Store → Prop
  | leaf {s after : Store} {operand : Operand} {expected : Term} {x : Observed Bool} :
      Condition.ComparesOn scope n s operand expected x after →
        TestsOn scope n s (.leaf operand expected) x after
  | not {s after : Store} {c : Condition} {x : Observed Bool} :
      TestsOn scope n s c x after → TestsOn scope n s (.not c) (do pure (!(← x))) after
  | all {s after : Store} {cs : List Condition} {xs : Observed (List Bool)} :
      Condition.TestsEachOn scope n s cs xs after →
        TestsOn scope n s (.all cs) (do pure ((← xs).all id)) after
  | any {s after : Store} {cs : List Condition} {xs : Observed (List Bool)} :
      Condition.TestsEachOn scope n s cs xs after →
        TestsOn scope n s (.any cs) (do pure ((← xs).any id)) after

/-- Which of the conditions hold, each tested on the store that the one before handed on. -/
inductive Condition.TestsEachOn (scope : Scope) (n : Nat) :
    Store → List Condition → Observed (List Bool) → Store → Prop
  | nil {s : Store} : TestsEachOn scope n s [] (pure []) s
  | cons {s between after : Store} {c : Condition} {rest : List Condition} {x : Observed Bool}
      {xs : Observed (List Bool)} :
      Condition.TestsOn scope n s c x between → TestsEachOn scope n between rest xs after →
        TestsEachOn scope n s (c :: rest) (do
          let b ← x
          pure (b :: (← xs))) after

end

/-! ### No read changes the store -/

section

variable {scope : Scope} {n : Nat} {s after : Store}

/-- What is found leaves the store as it was, whatever is expanded on the way. -/
theorem Scope.Resolves.store_eq {mode : Mode} {q : Quark} {part : Part} {g : Growth}
    (h : scope.Resolves n mode s q part g) : mode = .finding → g.store = s := by
  induction h with
  | constant => rintro rfl; rfl
  | eventField => rintro rfl; rfl
  | query _ _ => rintro rfl; rfl
  | location _ _ ih => exact ih
  | unknown _ => exact fun _ => rfl
  | nil => exact fun _ => rfl
  | cons _ _ _ ih ih' => exact fun hmode => (ih' hmode).trans (ih hmode)
  | stop _ _ ih => exact ih

theorem Scope.readsOn_iff {path : List Locator} {x : Observed (Option Value)} :
    scope.ReadsOn n s path x after ↔ scope.Reads n s path x ∧ after = s := by
  constructor
  · rintro ⟨hg⟩
    exact ⟨.found hg, hg.store_eq rfl⟩
  · rintro ⟨⟨hg⟩, rfl⟩
    have h := ReadsOn.found hg
    rwa [hg.store_eq rfl] at h

theorem Source.evaluatesOn_iff {source : Source} {x : Observed (Except CoercionError Value)} :
    source.EvaluatesOn scope n s x after ↔ source.Evaluates scope n s x ∧ after = s := by
  constructor
  · rintro (⟨_, hx⟩ | hx)
    · exact ⟨hx, rfl⟩
    · obtain ⟨hx, rfl⟩ := Scope.readsOn_iff.mp hx
      exact ⟨.query hx, rfl⟩
  · rintro ⟨hx, rfl⟩
    cases hx with
    | query hx => exact .query (Scope.readsOn_iff.mpr ⟨hx, rfl⟩)
    | literal => exact .aside nofun .literal
    | eventField => exact .aside nofun .eventField
    | eventName => exact .aside nofun .eventName
    | delete => exact .aside nofun .delete

theorem Operand.evaluatesOn_iff {operand : Operand} {x : Observed (Option Value)} :
    operand.EvaluatesOn scope n s x after ↔ operand.Evaluates scope n s x ∧ after = s := by
  constructor
  · rintro (hx | hx)
    · obtain ⟨hx, rfl⟩ := Scope.readsOn_iff.mp hx
      exact ⟨.attribute hx, rfl⟩
    · obtain ⟨hx, rfl⟩ := Source.evaluatesOn_iff.mp hx
      exact ⟨.term hx, rfl⟩
  · rintro ⟨hx | hx, rfl⟩
    · exact .attribute (Scope.readsOn_iff.mpr ⟨hx, rfl⟩)
    · exact .term (Source.evaluatesOn_iff.mpr ⟨hx, rfl⟩)

theorem Condition.comparesOn_iff {operand : Operand} {expected : Term} {x : Observed Bool} :
    ComparesOn scope n s operand expected x after ↔
      Compares scope n s operand expected x ∧ after = s := by
  constructor
  · rintro (⟨hx, hv⟩ | ⟨hx, hv, hy⟩)
    · obtain ⟨hx, rfl⟩ := Operand.evaluatesOn_iff.mp hx
      exact ⟨.missing hx hv, rfl⟩
    · obtain ⟨hx, rfl⟩ := Operand.evaluatesOn_iff.mp hx
      obtain ⟨hy, rfl⟩ := Source.evaluatesOn_iff.mp hy
      exact ⟨.told hx hv hy, rfl⟩
  · rintro ⟨⟨hx, hv⟩ | ⟨hx, hv, hy⟩, rfl⟩
    · exact .missing (Operand.evaluatesOn_iff.mpr ⟨hx, rfl⟩) hv
    · exact .told (Operand.evaluatesOn_iff.mpr ⟨hx, rfl⟩) hv
        (Source.evaluatesOn_iff.mpr ⟨hy, rfl⟩)

mutual

/-- **A test that hands the store on is a test of the store at the start, and leaves it as it
was.** -/
theorem Condition.testsOn_iff : ∀ (c : Condition) {s after : Store} {x : Observed Bool},
    c.TestsOn scope n s x after ↔ c.Tests scope n s x ∧ after = s
  | .leaf operand expected, s, after, x => by
    have hleaf : TestsOn scope n s (.leaf operand expected) x after ↔
        ComparesOn scope n s operand expected x after := ⟨fun | .leaf h => h, .leaf⟩
    rw [hleaf, comparesOn_iff]
    exact and_congr_left fun _ => ⟨.leaf, fun | .leaf h => h⟩
  | .not c, s, after, x => by
    constructor
    · rintro (_ | hx | _ | _)
      obtain ⟨hx, rfl⟩ := (testsOn_iff c).mp hx
      exact ⟨.not hx, rfl⟩
    · rintro ⟨_ | hx | _ | _, rfl⟩
      exact .not ((testsOn_iff c).mpr ⟨hx, rfl⟩)
  | .all cs, s, after, x => by
    constructor
    · rintro (_ | _ | hx | _)
      obtain ⟨hx, rfl⟩ := (testsEachOn_iff cs).mp hx
      exact ⟨.all hx, rfl⟩
    · rintro ⟨_ | _ | hx | _, rfl⟩
      exact .all ((testsEachOn_iff cs).mpr ⟨hx, rfl⟩)
  | .any cs, s, after, x => by
    constructor
    · rintro (_ | _ | _ | hx)
      obtain ⟨hx, rfl⟩ := (testsEachOn_iff cs).mp hx
      exact ⟨.any hx, rfl⟩
    · rintro ⟨_ | _ | _ | hx, rfl⟩
      exact .any ((testsEachOn_iff cs).mpr ⟨hx, rfl⟩)

theorem Condition.testsEachOn_iff :
    ∀ (cs : List Condition) {s after : Store} {xs : Observed (List Bool)},
      TestsEachOn scope n s cs xs after ↔ TestsEach scope n s cs xs ∧ after = s
  | [], s, after, xs => by
    constructor
    · rintro ⟨⟩
      exact ⟨.nil, rfl⟩
    · rintro ⟨⟨⟩, rfl⟩
      exact .nil
  | c :: rest, s, after, xs => by
    constructor
    · rintro (_ | ⟨hx, hxs⟩)
      obtain ⟨hx, rfl⟩ := (testsOn_iff c).mp hx
      obtain ⟨hxs, rfl⟩ := (testsEachOn_iff rest).mp hxs
      exact ⟨.cons hx hxs, rfl⟩
    · rintro ⟨_ | ⟨hx, hxs⟩, rfl⟩
      exact .cons ((testsOn_iff c).mpr ⟨hx, rfl⟩) ((testsEachOn_iff rest).mpr ⟨hxs, rfl⟩)

end

end

/-! ### The lookups of all comparisons -/

namespace Condition

mutual

/-- The sum of a number for each comparison that the condition makes. -/
def total (k : Comparison → Nat) : Condition → Nat
  | .leaf operand expected => k ⟨operand, expected⟩
  | .not c => c.total k
  | .all cs => totalOfEach k cs
  | .any cs => totalOfEach k cs

/-- The sum of a number for each comparison that the conditions make. -/
def totalOfEach (k : Comparison → Nat) : List Condition → Nat
  | [] => 0
  | c :: rest => c.total k + totalOfEach k rest

end

section

variable (scope : Scope) (s : Store)

mutual

/-- **The lookups of a test are those of all its comparisons**, whatever comes of them. -/
theorem lookups_test : ∀ c : Condition,
    (c.test scope s).lookups = c.total fun l => (l.test scope s).lookups
  | .leaf _ _ => rfl
  | .not c => lookups_test c
  | .all cs => lookups_testEach cs
  | .any cs => lookups_testEach cs

theorem lookups_testEach : ∀ cs : List Condition,
    (testEach scope s cs).lookups = totalOfEach (fun l => (l.test scope s).lookups) cs
  | [] => rfl
  | c :: rest => by
    rw [totalOfEach, ← lookups_test c, ← lookups_testEach rest]
    rfl

end

end

/-! ### Operands in another order -/

/-- The operands of some `all` or `any` within the condition are put in another order. -/
inductive Reordered : Condition → Condition → Prop
  | all {cs ds : List Condition} : cs.Perm ds → Reordered (.all cs) (.all ds)
  | any {cs ds : List Condition} : cs.Perm ds → Reordered (.any cs) (.any ds)
  | inNot {c d : Condition} : Reordered c d → Reordered (.not c) (.not d)
  | inAll {before after : List Condition} {c d : Condition} : Reordered c d →
      Reordered (.all (before ++ c :: after)) (.all (before ++ d :: after))
  | inAny {before after : List Condition} {c d : Condition} : Reordered c d →
      Reordered (.any (before ++ c :: after)) (.any (before ++ d :: after))
  | trans {c d e : Condition} : Reordered c d → Reordered d e → Reordered c e

theorem holdsEach_eq_map (p : Comparison → Bool) (cs : List Condition) :
    holdsEach p cs = cs.map (holds p) := by
  induction cs with
  | nil => rfl
  | cons c rest ih => rw [holdsEach, ih, List.map_cons]

theorem totalOfEach_append (k : Comparison → Nat) (cs ds : List Condition) :
    totalOfEach k (cs ++ ds) = totalOfEach k cs + totalOfEach k ds := by
  induction cs with
  | nil => exact (Nat.zero_add _).symm
  | cons c rest ih => rw [List.cons_append, totalOfEach, totalOfEach, ih, Nat.add_assoc]

theorem totalOfEach_of_perm (k : Comparison → Nat) {cs ds : List Condition} (h : cs.Perm ds) :
    totalOfEach k cs = totalOfEach k ds := by
  induction h with
  | nil => rfl
  | cons c _ ih => rw [totalOfEach, totalOfEach, ih]
  | swap c d rest =>
      simp only [totalOfEach]
      exact Nat.add_left_comm _ _ _
  | trans _ _ ih ih' => exact ih.trans ih'

variable {c d : Condition}

/-- A condition holds in whatever order its operands stand. -/
theorem Reordered.holds_eq (h : c.Reordered d) (p : Comparison → Bool) :
    c.holds p = d.holds p := by
  induction h with
  | all h =>
      simp only [holds, holdsEach_eq_map]
      exact (h.map _).all_eq
  | any h =>
      simp only [holds, holdsEach_eq_map]
      exact (h.map _).any_eq
  | inNot _ ih => exact congrArg (!·) ih
  | inAll _ ih => simp only [holds, holdsEach_eq_map, List.map_append, List.map_cons, ih]
  | inAny _ ih => simp only [holds, holdsEach_eq_map, List.map_append, List.map_cons, ih]
  | trans _ _ ih ih' => exact ih.trans ih'

/-- The sum is the same in whatever order the operands stand. -/
theorem Reordered.total_eq (h : c.Reordered d) (k : Comparison → Nat) :
    c.total k = d.total k := by
  induction h with
  | all h => exact totalOfEach_of_perm k h
  | any h => exact totalOfEach_of_perm k h
  | inNot _ ih => exact ih
  | inAll _ ih => simp only [total, totalOfEach_append, totalOfEach, ih]
  | inAny _ ih => simp only [total, totalOfEach_append, totalOfEach, ih]
  | trans _ _ ih ih' => exact ih.trans ih'

/-! ### Tests throughout -/

/-- What there is to the test of a condition on a store.

* With the store handed on it is `Condition.test`, and the store is left as it was.
* In a table that has not passed its check too, what comes to an end leaves the store as it was.
* The condition holds as its tree says, by what each comparison comes to when it is tested alone on
  that store.
* The lookups are the sum of those of each comparison tested alone on that store.
* In whatever order operands stand, the result and the number of lookups are the same. -/
structure TestedThroughout (scope : Scope) (s : Store) (c : Condition) : Prop where
  handed_on : ∀ x after, c.TestsOn scope scope.table.size s x after ↔
    x = c.test scope s ∧ after = s
  unchanged : ∀ n x after, c.TestsOn scope n s x after → after = s
  val : (c.test scope s).val =
    c.holds fun l => ((leaf l.operand l.expected).test scope s).val
  lookups : (c.test scope s).lookups =
    c.total fun l => ((leaf l.operand l.expected).test scope s).lookups
  reordered : ∀ d, c.Reordered d →
    (d.test scope s).val = (c.test scope s).val ∧
      (d.test scope s).lookups = (c.test scope s).lookups

/-- **A condition is tested throughout**: on one store that it leaves as it was, by its tree, with
the lookups of all its comparisons. -/
theorem testedThroughout {scope : Scope} (ht : scope.table.check = .ok ()) (s : Store)
    (c : Condition) : c.TestedThroughout scope s where
  handed_on x after := by rw [testsOn_iff, tests_iff ht]
  unchanged _ _ _ h := ((testsOn_iff c).mp h).2
  val := val_test scope s c
  lookups := lookups_test scope s c
  reordered d h := by
    rw [val_test, val_test, lookups_test, lookups_test, h.holds_eq, h.total_eq]
    exact ⟨rfl, rfl⟩

/-- The first operand already fails, and the first comparison of the last one already holds. The
comparison with an attribute that is not there is the only one that stops short. -/
theorem testedThroughout_of_settled :
    let ghost : List Locator := [.constant "Ghost"]
    let current : List Locator := [.location "Current"]
    let scope : Scope := {
      table := .ofList [⟨"Current", [.constant "Threads",
        .query [.constant "CPUs", .eventField "cpu"]]⟩]
      event := { name := "sched_switch", timestamp := 9, source := some 0 } }
    let s : Store := Store.callEach {} [.create Quark.root "CPUs", .create 0 "0",
      .create Quark.root "Threads", .create 2 "42", .mutate 1 5 (.set (.int 42)),
      .mutate 3 7 (.set (.int 1))]
    let one : Term := ⟨.literal (.int 1), false, .none⟩
    let ofCurrent : Term := ⟨.query current, false, .none⟩
    let c : Condition := .all [.any [], .not (.leaf (.attribute ghost) ofCurrent),
      .any [.leaf (.attribute current) one, .leaf (.attribute current) ofCurrent]]
    scope.table.check = .ok () ∧ s.Reachable ∧ c.TestedThroughout scope s ∧
      (c.test scope s).val = false ∧ (c.test scope s).lookups = 1 + 4 + (4 + 4) := by
  intro ghost current scope s one ofCurrent c
  have ht : scope.table.check = .ok () := rfl
  exact ⟨ht, Store.Reachable.empty.callEach _, testedThroughout ht s c, by decide +kernel,
    by decide +kernel⟩

end Condition
end Chronicle
