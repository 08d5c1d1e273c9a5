import Chronicle.Interpreter.Resolution
import Chronicle.Proofs.Schema.Settled

/-!
# Expanding locations without a budget

Finding and growing expand the locations of a path within a budget. In a table that has passed its
check the budget is never used up: a location that is settled in round `n` is expanded alike within
all budgets from `n` on (`Scope.expandFinding_eq`, `Scope.expandGrowing_eq`), and all locations are
settled after as many rounds as there are locations. So a path is resolved locator by locator
(`Scope.find_cons`, `Scope.grow_cons`), one part after another (`Scope.find_append`,
`Scope.grow_append`), and a location by its path in its place (`Scope.findOne_location`,
`Scope.growOne_location`).
-/

namespace Chronicle

/-! ### Going on -/

namespace Observed

/-- Goes on from the attribute that a search came to, if it came to one. -/
def onward (x : Observed (Except Unresolved Quark))
    (f : Quark → Observed (Except Unresolved Quark)) : Observed (Except Unresolved Quark) := do
  match ← x with
  | .ok q => f q
  | .error u => pure (.error u)

variable {x : Observed (Except Unresolved Quark)} {f g : Quark → Observed (Except Unresolved Quark)}

theorem val_onward : (x.onward f).val = x.val.bind fun q => (f q).val := by
  unfold onward
  rw [val_bind]
  cases x.val <;> rfl

theorem onward_assoc : (x.onward f).onward g = x.onward fun q => (f q).onward g := by
  simp only [onward, bind_assoc]
  congr 1
  funext r
  cases r with
  | ok q => rfl
  | error u => rw [pure_bind]

theorem onward_pure_ok (q : Quark) : (pure (.ok q) : Observed _).onward f = f q := by
  rw [onward, pure_bind]

end Observed

namespace Growth

/-- Goes on from the attribute that growing came to, if it came to one. -/
def onward (g : Growth) (f : Store → Quark → Growth) : Growth :=
  match g.result with
  | .ok next =>
    let last := f g.store next
    { last with toObservation := g.toObservation ++ last.toObservation }
  | .error _ => g

theorem onward_assoc (g : Growth) (f h : Store → Quark → Growth) :
    (g.onward f).onward h = g.onward fun s q => (f s q).onward h := by
  cases hg : g.result with
  | error u => simp [onward, hg]
  | ok next =>
      cases hf : (f g.store next).result with
      | error u => simp [onward, hg, hf]
      | ok last => simp [onward, hg, hf, Observation.append_assoc]

theorem onward_arrived (s : Store) (q : Quark) (f : Store → Quark → Growth) :
    (⟨{}, .ok q, s⟩ : Growth).onward f = f s q := by
  simp [onward]

end Growth

namespace Locator

/-- Only the expansion of the locations that a path names counts. -/
theorem findEachWith_congr {s : Store} {e : Event} {f g : Finder} (path : List Locator) :
    (∀ name ∈ referencesEach path, f name = g name) →
      ∀ q, findEachWith s e f q path = findEachWith s e g q path := by
  induction path using path_induction with
  | nil => exact fun _ _ => rfl
  | constant name rest ih =>
      intro h q
      simp only [findEachWith, findWith, ih h]
  | eventField name rest ih =>
      intro h q
      simp only [findEachWith, findWith, ih h]
  | query path rest ihp ih =>
      intro h q
      simp only [findEachWith, findWith, ihp fun n hn => h n (List.mem_append_left _ hn),
        ih fun n hn => h n (List.mem_append_right _ hn)]
  | location name rest ih =>
      intro h q
      simp only [findEachWith, findWith, h name (List.mem_append_left _ List.mem_cons_self),
        ih fun n hn => h n (List.mem_append_right _ hn)]

/-- Only the expansion of the locations that a path names counts. -/
theorem growEachWith_congr {scope : Scope} {f g : Grower} (path : List Locator) :
    (∀ name ∈ referencesEach path, f name = g name) →
      ∀ s q, growEachWith scope f s q path = growEachWith scope g s q path := by
  induction path using path_induction with
  | nil => exact fun _ _ _ => rfl
  | constant name rest ih =>
      intro h s q
      simp only [growEachWith, growWith, ih h]
  | eventField name rest ih =>
      intro h s q
      simp only [growEachWith, growWith, ih h]
  | query path rest _ ih =>
      intro h s q
      simp only [growEachWith, growWith, ih fun n hn => h n (List.mem_append_right _ hn)]
  | location name rest ih =>
      intro h s q
      simp only [growEachWith, growWith, h name (List.mem_append_left _ List.mem_cons_self),
        ih fun n hn => h n (List.mem_append_right _ hn)]

end Locator

namespace Scope

variable {scope : Scope} {s : Store}

/-! ### Finding -/

theorem expandFinding_of_not_defines {name : String} (h : scope.table.defines name = false)
    (a : Nat) : scope.expandFinding s a name = fun _ => scope.unexpanded name := by
  funext q
  cases a with
  | zero => rfl
  | succ a => rw [expandFinding, Table.defines_eq_false_iff.mp h]

theorem unexpanded_of_not_defines {name : String} (h : scope.table.defines name = false) :
    scope.unexpanded name = { remarks := [.locationUnknown name], val := .error .absent } := by
  rw [unexpanded, h]
  rfl

/-- A location that is settled in round `n` is expanded alike within all budgets from `n` on. -/
theorem expandFinding_eq {n a b : Nat} (ha : n ≤ a) (hb : n ≤ b) {name : String}
    (h : name ∈ scope.table.settled n) :
    scope.expandFinding s a name = scope.expandFinding s b name := by
  induction n generalizing a b name with
  | zero => cases h
  | succ n ih =>
      obtain ⟨a, rfl⟩ := Nat.exists_eq_add_of_lt ha
      obtain ⟨b, rfl⟩ := Nat.exists_eq_add_of_lt hb
      funext q
      rw [expandFinding, expandFinding]
      cases hp : scope.table.path? name with
      | none => rfl
      | some path =>
          refine Locator.findEachWith_congr path (fun r hr => ?_) q
          cases hd : scope.table.defines r with
          | false => rw [expandFinding_of_not_defines hd, expandFinding_of_not_defines hd]
          | true =>
              exact ih (Nat.le_add_right ..) (Nat.le_add_right ..)
                (Table.mem_settled_of_reference h hp hr hd)

/-- The attribute that one locator leads to from `q`. -/
def findOne (scope : Scope) (s : Store) (q : Quark) (l : Locator) :
    Observed (Except Unresolved Quark) :=
  l.findWith s scope.event (scope.expandFinding s (scope.findingBudget s)) q

theorem find_nil (q : Quark) : scope.find s q [] = pure (.ok q) := rfl

theorem find_cons (q : Quark) (l : Locator) (rest : List Locator) :
    scope.find s q (l :: rest) =
      (scope.findOne s q l).onward fun next => scope.find s next rest := by
  rw [find, Locator.findEachWith]
  rfl

/-- A path is found one part after another. -/
theorem find_append (q : Quark) (path more : List Locator) :
    scope.find s q (path ++ more) = (scope.find s q path).onward fun c => scope.find s c more := by
  induction path generalizing q with
  | nil => rw [List.nil_append, find_nil, Observed.onward_pure_ok]
  | cons l rest ih => simp only [List.cons_append, find_cons, Observed.onward_assoc, ih]

theorem findOne_constant (q : Quark) (name : String) :
    scope.findOne s q (.constant name) = s.lookup q name := by
  rw [findOne, Locator.findWith]

theorem findOne_eventField (q : Quark) (name : String) :
    scope.findOne s q (.eventField name) =
      (scope.event.nameIn name >>= fun segment => s.lookupNamed q segment) := by
  rw [findOne, Locator.findWith]

theorem findOne_query (q : Quark) (path : List Locator) :
    scope.findOne s q (.query path) =
      (scope.find s Quark.root path).onward fun target =>
        s.lookupNamed q (s.ongoing target).segment? := by
  rw [findOne, Locator.findWith]
  rfl

/-- A location leads where its path leads. -/
theorem findOne_location (ht : scope.table.check = .ok ()) (q : Quark) (name : String) :
    scope.findOne s q (.location name) =
      match scope.table.path? name with
      | some path => scope.find s q path
      | none => scope.unexpanded name := by
  rw [findOne, Locator.findWith]
  cases hp : scope.table.path? name with
  | none => rw [expandFinding_of_not_defines (Table.defines_eq_false_iff.mpr hp)]
  | some path =>
      have hsettled : name ∈ scope.table.settled scope.table.size :=
        Table.mem_settled_of_check ht (Table.defines_iff.mpr ⟨path, hp⟩)
      have hle : scope.table.size ≤ scope.findingBudget s :=
        Nat.le_mul_of_pos_right _ (Nat.succ_pos _)
      rw [expandFinding_eq hle (Nat.le_succ_of_le hle) hsettled, expandFinding, hp]
      rfl

/-! ### Growing -/

theorem expandGrowing_of_not_defines {name : String} (h : scope.table.defines name = false)
    (a : Nat) : scope.expandGrowing a name = fun s _ => scope.ungrown name s := by
  funext s q
  cases a with
  | zero => rfl
  | succ a => rw [expandGrowing, Table.defines_eq_false_iff.mp h]

/-- A location that is settled in round `n` is expanded alike within all budgets from `n` on. -/
theorem expandGrowing_eq {n a b : Nat} (ha : n ≤ a) (hb : n ≤ b) {name : String}
    (h : name ∈ scope.table.settled n) :
    scope.expandGrowing a name = scope.expandGrowing b name := by
  induction n generalizing a b name with
  | zero => cases h
  | succ n ih =>
      obtain ⟨a, rfl⟩ := Nat.exists_eq_add_of_lt ha
      obtain ⟨b, rfl⟩ := Nat.exists_eq_add_of_lt hb
      funext s q
      rw [expandGrowing, expandGrowing]
      cases hp : scope.table.path? name with
      | none => rfl
      | some path =>
          refine Locator.growEachWith_congr path (fun r hr => ?_) s q
          cases hd : scope.table.defines r with
          | false => rw [expandGrowing_of_not_defines hd, expandGrowing_of_not_defines hd]
          | true =>
              exact ih (Nat.le_add_right ..) (Nat.le_add_right ..)
                (Table.mem_settled_of_reference h hp hr hd)

/-- The attribute that one locator leads to from `q`, created if it is not there. -/
def growOne (scope : Scope) (s : Store) (q : Quark) (l : Locator) : Growth :=
  l.growWith scope (scope.expandGrowing scope.table.size) s q

theorem grow_nil (q : Quark) : scope.grow s q [] = ⟨{}, .ok q, s⟩ := rfl

theorem grow_cons (q : Quark) (l : Locator) (rest : List Locator) :
    scope.grow s q (l :: rest) =
      (scope.growOne s q l).onward fun s next => scope.grow s next rest := by
  rw [grow, Locator.growEachWith]
  rfl

/-- A path is grown one part after another. -/
theorem grow_append (q : Quark) (path more : List Locator) :
    scope.grow s q (path ++ more) =
      (scope.grow s q path).onward fun s c => scope.grow s c more := by
  induction path generalizing s q with
  | nil => rw [List.nil_append, grow_nil, Growth.onward_arrived]
  | cons l rest ih => simp only [List.cons_append, grow_cons, Growth.onward_assoc, ih]

theorem growOne_constant (q : Quark) (name : String) :
    scope.growOne s q (.constant name) = s.grow q (pure (some name)) := rfl

theorem growOne_eventField (q : Quark) (name : String) :
    scope.growOne s q (.eventField name) = s.grow q (scope.event.nameIn name) := rfl

theorem growOne_query (q : Quark) (path : List Locator) :
    scope.growOne s q (.query path) =
      s.grow q (do pure ((← scope.valueAt s path).bind Value.segment?)) := rfl

/-- A location leads where its path leads. -/
theorem growOne_location (ht : scope.table.check = .ok ()) (q : Quark) (name : String) :
    scope.growOne s q (.location name) =
      match scope.table.path? name with
      | some path => scope.grow s q path
      | none => scope.ungrown name s := by
  rw [growOne, Locator.growWith]
  cases hp : scope.table.path? name with
  | none => rw [expandGrowing_of_not_defines (Table.defines_eq_false_iff.mpr hp)]
  | some path =>
      have hsettled : name ∈ scope.table.settled scope.table.size :=
        Table.mem_settled_of_check ht (Table.defines_iff.mpr ⟨path, hp⟩)
      rw [expandGrowing_eq (Nat.le_refl _) (Nat.le_succ _) hsettled, expandGrowing, hp]
      rfl

end Scope
end Chronicle
