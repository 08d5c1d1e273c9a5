import Chronicle.Proofs.Interpreter.Assignments
import Chronicle.Proofs.Interpreter.Unfolding
import Chronicle.Proofs.Store.Growth

/-!
# What evaluation takes from a store

Paths, terms and conditions look at two things in a store, its tree and the values that attributes
hold, and of an event they look at everything but its time. So on stores that agree on these two
(`Store.Alike`), and at any time, everything is read alike: paths are found (`Scope.find_alike`),
conditions hold (`Condition.test_alike`), state changes select (`Change.select_alike`) and terms
ask (`Term.val_mutation?_alike`) alike. Neither the clock, nor the closed intervals, nor the stacks
have a say.

Growing only adds attributes, so two such stores grow alike, and any relation between stores of
that kind that outlasts new attributes holds of the stores that have grown (`Scope.grow_alike`).
-/

namespace Chronicle

/-- The event, had it come at another time. -/
def Event.atTime (e : Event) (t : Int64) : Event :=
  { e with timestamp := t }

/-- The scope of the same event at another time. -/
def Scope.atTime (scope : Scope) (t : Int64) : Scope :=
  ⟨scope.table, scope.event.atTime t⟩

namespace Store

/-- The stores have the same attributes, which hold the same. -/
structure Alike (s s' : Store) : Prop where
  tree : s'.tree = s.tree
  ongoing : ∀ q, s'.ongoing q = s.ongoing q

variable {s s' : Store}

theorem Alike.lookup (h : s.Alike s') (q : Quark) (name : String) :
    s'.lookup q name = s.lookup q name := by
  rw [Store.lookup, Store.lookup, h.tree]

theorem Alike.lookupNamed (h : s.Alike s') (q : Quark) (name : Option String) :
    s'.lookupNamed q name = s.lookupNamed q name := by
  cases name with
  | none => rfl
  | some name => exact h.lookup q name

end Store

/-! ### Finding -/

section

variable {s s' : Store} (h : s.Alike s') (t : Int64)

include h

theorem Locator.findEachWith_alike (e : Event) (expand : Finder) (path : List Locator) :
    ∀ q, findEachWith s' (e.atTime t) expand q path = findEachWith s e expand q path := by
  induction path using path_induction with
  | nil => exact fun _ => rfl
  | constant name rest ih =>
      intro q
      simp only [findEachWith, findWith, h.lookup, ih]
  | eventField name rest ih =>
      intro q
      have hname : (e.atTime t).nameIn name = e.nameIn name := rfl
      simp only [findEachWith, findWith, hname, h.lookupNamed, ih]
  | query path rest ihp ih =>
      intro q
      simp only [findEachWith, findWith, ihp, h.ongoing, h.lookupNamed, ih]
  | location name rest ih =>
      intro q
      simp only [findEachWith, findWith, ih]

namespace Scope

theorem expandFinding_alike (scope : Scope) (budget : Nat) :
    (scope.atTime t).expandFinding s' budget = scope.expandFinding s budget := by
  induction budget with
  | zero => rfl
  | succ budget ih =>
      funext name q
      have htable : (scope.atTime t).table = scope.table := rfl
      rw [expandFinding, expandFinding, ih, htable]
      cases scope.table.path? name with
      | none => rfl
      | some path => exact Locator.findEachWith_alike h t scope.event _ path q

/-- **A path is found alike.** -/
theorem find_alike (scope : Scope) (q : Quark) (path : List Locator) :
    (scope.atTime t).find s' q path = scope.find s q path := by
  have hbudget : (scope.atTime t).findingBudget s' = scope.findingBudget s := by
    rw [findingBudget, findingBudget, h.tree]
    rfl
  rw [find, hbudget, expandFinding_alike h]
  exact Locator.findEachWith_alike h t scope.event _ path q

theorem valueAt_alike (scope : Scope) (path : List Locator) :
    (scope.atTime t).valueAt s' path = scope.valueAt s path := by
  simp only [valueAt, find_alike h, h.ongoing]

end Scope

/-! ### Terms and conditions -/

variable (scope : Scope)

theorem Source.evaluate_alike (source : Source) :
    source.evaluate (scope.atTime t) s' = source.evaluate scope s := by
  cases source with
  | query path => simp only [evaluate, Scope.valueAt_alike h]
  | eventField name kind => cases kind <;> rfl
  | _ => rfl

/-- A term asks for the same. What is remarked on a removal tells of the time. -/
theorem Term.val_mutation?_alike (m : Term) (q : Quark) :
    (m.mutation? (scope.atTime t) s' q).val = (m.mutation? scope s q).val := by
  rw [val_mutation?, val_mutation?, Source.evaluate_alike h]
  rfl

theorem Operand.evaluate_alike (operand : Operand) :
    operand.evaluate (scope.atTime t) s' = operand.evaluate scope s := by
  rcases operand with path | m
  · simp only [evaluate, Scope.valueAt_alike h]
  · simp only [evaluate, Source.evaluate_alike h]

theorem Condition.compare_alike (operand : Operand) (expected : Term) :
    compare (scope.atTime t) s' operand expected = compare scope s operand expected := by
  simp only [compare, Operand.evaluate_alike h, Source.evaluate_alike h]

end

mutual

/-- **A condition is tested alike.** -/
theorem Condition.test_alike {s s' : Store} (h : s.Alike s') (t : Int64) (scope : Scope) :
    ∀ c : Condition, c.test (scope.atTime t) s' = c.test scope s
  | .leaf operand expected => compare_alike h t scope operand expected
  | .not c => by rw [test, test, test_alike h t scope c]
  | .all cs => by rw [test, test, testEach_alike h t scope cs]
  | .any cs => by rw [test, test, testEach_alike h t scope cs]

theorem Condition.testEach_alike {s s' : Store} (h : s.Alike s') (t : Int64) (scope : Scope) :
    ∀ cs : List Condition, testEach (scope.atTime t) s' cs = testEach scope s cs
  | [] => rfl
  | c :: rest => by
    rw [testEach, testEach, test_alike h t scope c, testEach_alike h t scope rest]

end

mutual

/-- **A state change selects alike.** -/
theorem Change.select_alike {s s' : Store} (h : s.Alike s') (t : Int64) (scope : Scope) :
    ∀ change : Change, change.select (scope.atTime t) s' = change.select scope s
  | .assign _ _ => rfl
  | .conditional c yes no => by
    rw [select, select, Condition.test_alike h, selectBranch_alike h t scope yes,
      selectBranch_alike h t scope no]

theorem Change.selectBranch_alike {s s' : Store} (h : s.Alike s') (t : Int64) (scope : Scope) :
    ∀ branch : Option Change,
      selectBranch (scope.atTime t) s' branch = selectBranch scope s branch
  | none => rfl
  | some change => select_alike h t scope change

end

/-! ### Growing -/

/-- A relation between stores that are read alike, and that it stays between when they get the same
new attributes. -/
structure Outlasts (R : Store → Store → Prop) : Prop where
  alike : ∀ {s s'}, R s s' → s.Alike s'
  withTree : ∀ {s s'} (tree : Tree), R s s' → R (s.withTree tree) (s'.withTree tree)

/-- Two growths come to the same, with as much observed, in stores between which `R` holds. -/
structure Growth.Agrees (R : Store → Store → Prop) (g g' : Growth) : Prop where
  observed : g'.toObservation = g.toObservation
  result : g'.result = g.result
  store : R g.store g'.store

section

variable {R : Store → Store → Prop} (hR : Outlasts R) {s s' : Store}

theorem Growth.Agrees.onward {g g' : Growth} (h : g.Agrees R g') {f f' : Store → Quark → Growth}
    (hf : ∀ {s s'} q, R s s' → (f s q).Agrees R (f' s' q)) :
    (g.onward f).Agrees R (g'.onward f') := by
  unfold Growth.onward
  rw [h.result]
  cases g.result with
  | error u => exact h
  | ok next =>
      have hlast := hf next h.store
      have hobserved : g'.toObservation ++ (f' g'.store next).toObservation =
          g.toObservation ++ (f g.store next).toObservation := by
        rw [h.observed, hlast.observed]
      exact ⟨hobserved, hlast.result, hlast.store⟩

include hR

theorem Store.grow_alike (h : R s s') (q : Quark) (name : Observed (Option String)) :
    (s.grow q name).Agrees R (s'.grow q name) := by
  unfold grow
  cases name.val with
  | none => exact ⟨rfl, rfl, h⟩
  | some segment =>
      simp only [create_eq, (hR.alike h).tree]
      cases s.tree.add q segment with
      | error u => exact ⟨rfl, rfl, h⟩
      | ok added => exact ⟨rfl, rfl, hR.withTree added.2 h⟩

variable (scope : Scope) (t : Int64)

theorem Locator.growEachWith_alike {expand expand' : Grower}
    (hexpand : ∀ name {s s'} q, R s s' → (expand name s q).Agrees R (expand' name s' q))
    (path : List Locator) : ∀ {s s'} q, R s s' →
      (growEachWith scope expand s q path).Agrees R
        (growEachWith (scope.atTime t) expand' s' q path) := by
  induction path with
  | nil => exact fun _ h => ⟨rfl, rfl, h⟩
  | cons l rest ih =>
      intro s s' q h
      have hone : (l.growWith scope expand s q).Agrees R
          (l.growWith (scope.atTime t) expand' s' q) := by
        cases l with
        | constant name => exact Store.grow_alike hR h q (pure (some name))
        | eventField name => exact Store.grow_alike hR h q (scope.event.nameIn name)
        | query path =>
            rw [growWith, growWith, Scope.valueAt_alike (hR.alike h)]
            exact Store.grow_alike hR h q _
        | location name => exact hexpand name q h
      exact hone.onward fun c h => ih c h

namespace Scope

theorem expandGrowing_alike (budget : Nat) : ∀ name {s s'} q, R s s' →
    (scope.expandGrowing budget name s q).Agrees R
      ((scope.atTime t).expandGrowing budget name s' q) := by
  induction budget with
  | zero => exact fun _ _ _ _ h => ⟨rfl, rfl, h⟩
  | succ budget ih =>
      intro name s s' q h
      have htable : (scope.atTime t).table = scope.table := rfl
      rw [expandGrowing, expandGrowing, htable]
      cases scope.table.path? name with
      | none => exact ⟨rfl, rfl, h⟩
      | some path => exact Locator.growEachWith_alike hR scope t ih path q h

/-- **A path is grown alike.** -/
theorem grow_alike (h : R s s') (q : Quark) (path : List Locator) :
    (scope.grow s q path).Agrees R ((scope.atTime t).grow s' q path) :=
  Locator.growEachWith_alike hR scope t (expandGrowing_alike hR scope t _) path q h

end Scope

end
end Chronicle
