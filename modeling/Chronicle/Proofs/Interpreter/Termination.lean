import Chronicle.Interpreter.Run
import Chronicle.Proofs.Interpreter.Assignments
import Chronicle.Proofs.Interpreter.Derivations

/-!
# Evaluation comes to an end

Whatever reads or changes a store on behalf of a schema resolves paths on its way. The relations
below derive what comes of it from derivations of what its paths lead to, so again to have a
derivation is to come to an end.

| relation | what is derived |
| --- | --- |
| `Source.Evaluates`, `Operand.Evaluates` | a value |
| `Condition.Tests` | whether a condition holds |
| `Term.Asks`, `Assignment.Assigns` | what a term asks for, what an assignment does |
| `Change.Applies`, `Schema.Gives` | what a state change does, what handlers do |

If the table of a schema has passed its check, everything has a derivation, and what is derived is
what the interpreter does (`Schema.terminates`).
-/

namespace Chronicle

/-! ### Terms and conditions by rules -/

/-- What is read at a path from the root, with room for `n` expansions of locations inside one
another. -/
inductive Scope.Reads (scope : Scope) (n : Nat) (s : Store) (path : List Locator) :
    Observed (Option Value) → Prop
  | found {g : Growth} : scope.Resolves n .finding s Quark.root (.path path) g →
      Reads scope n s path g.held

/-- The value of a source. -/
inductive Source.Evaluates (scope : Scope) (n : Nat) (s : Store) :
    Source → Observed (Except CoercionError Value) → Prop
  | literal {v : Value} : Evaluates scope n s (.literal v) (pure (.ok v))
  | eventField {name : String} {kind : Option Kind} :
      Evaluates scope n s (.eventField name kind) (pure (scope.event.forced name kind))
  | query {path : List Locator} {x : Observed (Option Value)} : scope.Reads n s path x →
      Evaluates scope n s (.query path) do
        match ← x with
        | some v => pure (.ok v)
        | none => do
          Observed.remark (.queryUnresolved path)
          pure (.ok .null)
  | eventName : Evaluates scope n s .eventName (pure (.ok (.text scope.event.name)))
  | delete : Evaluates scope n s .delete (pure (.ok .null))

/-- The value on the left side of a comparison. -/
inductive Operand.Evaluates (scope : Scope) (n : Nat) (s : Store) :
    Operand → Observed (Option Value) → Prop
  | attribute {path : List Locator} {x : Observed (Option Value)} : scope.Reads n s path x →
      Evaluates scope n s (.attribute path) do
        match ← x with
        | some v => pure (some v)
        | none => do
          Observed.remark (.operandUnresolved path)
          pure none
  | term {m : Term} {x : Observed (Except CoercionError Value)} :
      m.source.Evaluates scope n s x →
        Evaluates scope n s (.term m) do
          match ← x with
          | .ok v => pure (some v)
          | .error e => do
            Observed.remark (.operandUncoercible e)
            pure none

/-- Whether a comparison holds. The right side is evaluated only if the left side has a value. -/
inductive Condition.Compares (scope : Scope) (n : Nat) (s : Store) (operand : Operand)
    (expected : Term) : Observed Bool → Prop
  | missing {x : Observed (Option Value)} : operand.Evaluates scope n s x → x.val = none →
      Compares scope n s operand expected do
        let _ ← x
        pure false
  | told {x : Observed (Option Value)} {v : Value} {y : Observed (Except CoercionError Value)} :
      operand.Evaluates scope n s x → x.val = some v → expected.source.Evaluates scope n s y →
        Compares scope n s operand expected do
          let _ ← x
          match ← y with
          | .ok w => pure (v == w)
          | .error e => do
            Observed.remark (.expectedUncoercible e)
            pure false

mutual

/-- Whether a condition holds. -/
inductive Condition.Tests (scope : Scope) (n : Nat) (s : Store) : Condition → Observed Bool → Prop
  | leaf {operand : Operand} {expected : Term} {x : Observed Bool} :
      Condition.Compares scope n s operand expected x →
        Tests scope n s (.leaf operand expected) x
  | not {c : Condition} {x : Observed Bool} :
      Tests scope n s c x → Tests scope n s (.not c) do pure (!(← x))
  | all {cs : List Condition} {xs : Observed (List Bool)} :
      Condition.TestsEach scope n s cs xs → Tests scope n s (.all cs) do pure ((← xs).all id)
  | any {cs : List Condition} {xs : Observed (List Bool)} :
      Condition.TestsEach scope n s cs xs → Tests scope n s (.any cs) do pure ((← xs).any id)

/-- Which of the conditions hold. All are tested. -/
inductive Condition.TestsEach (scope : Scope) (n : Nat) (s : Store) :
    List Condition → Observed (List Bool) → Prop
  | nil : TestsEach scope n s [] (pure [])
  | cons {c : Condition} {rest : List Condition} {x : Observed Bool} {xs : Observed (List Bool)} :
      Condition.Tests scope n s c x → TestsEach scope n s rest xs →
        TestsEach scope n s (c :: rest) do
          let b ← x
          pure (b :: (← xs))

end

/-! ### State changes by rules -/

/-- What a term asks to be done to `q`. -/
inductive Term.Asks (scope : Scope) (n : Nat) (s : Store) (q : Quark) (m : Term) :
    Observed (Except ChangeError (Option Mutation)) → Prop
  | remove : m.source.isDelete = true →
      Asks scope n s q m do
        Observed.remark (.removal (s.tree.pathText q) scope.event.timestamp)
        pure (.ok (some .remove))
  | increment : m.source.isDelete = false → m.increment = true →
      Asks scope n s q m
        (pure ((m.source.delta scope.event).map fun delta => some (.increment delta)))
  | use {x : Observed (Except CoercionError Value)} :
      m.source.isDelete = false → m.increment = false → m.source.Evaluates scope n s x →
        Asks scope n s q m do
          match ← x with
          | .error fault => pure (.error (.uncoercible fault))
          | .ok v =>
            match m.stack with
            | .none => pure (.ok (some (.set v)))
            | .push => pure (.ok (some (.push v)))
            | .pop => pure (.ok (some .pop))
            | .peek => do
              Observed.remark (.peek (s.tree.pathText q) v)
              pure (.ok none)

/-- What an assignment does: it grows its target, and fails if that fails; or it asks its term, and
mutates the target if the term asks for a mutation. -/
inductive Assignment.Assigns (scope : Scope) (n : Nat) (s : Store) (a : Assignment) :
    Effect (Except ChangeError Unit) → Prop
  | lost {g : Growth} {u : Unresolved} :
      scope.Resolves n .growing s Quark.root (.path a.target) g → g.result = .error u →
        Assigns scope n s a
          ⟨g.toObservation, .error (.attributeNotFound a.target), g.store, []⟩
  | failed {g : Growth} {q : Quark} {x : Observed (Except ChangeError (Option Mutation))}
      {e : ChangeError} :
      scope.Resolves n .growing s Quark.root (.path a.target) g → g.result = .ok q →
      a.term.Asks scope n g.store q x → x.val = .error e →
        Assigns scope n s a ⟨g.toObservation ++ x.toObservation, .error e, g.store, []⟩
  | looked {g : Growth} {q : Quark} {x : Observed (Except ChangeError (Option Mutation))} :
      scope.Resolves n .growing s Quark.root (.path a.target) g → g.result = .ok q →
      a.term.Asks scope n g.store q x → x.val = .ok none →
        Assigns scope n s a ⟨g.toObservation ++ x.toObservation, .ok (), g.store, []⟩
  | done {g : Growth} {q : Quark} {x : Observed (Except ChangeError (Option Mutation))}
      {m : Mutation} {after : Store} :
      scope.Resolves n .growing s Quark.root (.path a.target) g → g.result = .ok q →
      a.term.Asks scope n g.store q x → x.val = .ok (some m) →
      g.store.mutate q scope.event.timestamp m = .ok after →
        Assigns scope n s a
          ⟨g.toObservation ++ x.toObservation ++ { remarks := g.store.remarks q m }, .ok (), after,
            [q]⟩
  | refused {g : Growth} {q : Quark} {x : Observed (Except ChangeError (Option Mutation))}
      {m : Mutation} {r : Store.Refusal} :
      scope.Resolves n .growing s Quark.root (.path a.target) g → g.result = .ok q →
      a.term.Asks scope n g.store q x → x.val = .ok (some m) →
      g.store.mutate q scope.event.timestamp m = .error r →
        Assigns scope n s a
          ⟨g.toObservation ++ x.toObservation, .error (.refused r), g.store, [q]⟩

namespace Change

/-- What a state change does, if there is one. -/
inductive Applies (scope : Scope) (n : Nat) (s : Store) :
    Option Change → Effect (Except ChangeError Unit) → Prop
  | nothing : Applies scope n s none ⟨{}, .ok (), s, []⟩
  | assign {path : List Locator} {m : Term} {effect : Effect (Except ChangeError Unit)} :
      Assignment.Assigns scope n s ⟨path, m⟩ effect →
        Applies scope n s (some (.assign path m)) effect
  | conditional {c : Condition} {yes no : Option Change} {x : Observed Bool}
      {effect : Effect (Except ChangeError Unit)} :
      c.Tests scope n s x → Applies scope n s (if x.val then yes else no) effect →
        Applies scope n s (some (.conditional c yes no))
          { effect with toObservation := x.toObservation ++ effect.toObservation }

/-- What state changes do, each on the store that the one before left. -/
inductive AppliesEach (scope : Scope) (n : Nat) :
    Store → Nat → List Change → Effect (List (Nat × ChangeError)) → Prop
  | nil {s : Store} {index : Nat} : AppliesEach scope n s index [] ⟨{}, [], s, []⟩
  | cons {s : Store} {index : Nat} {change : Change} {rest : List Change}
      {first : Effect (Except ChangeError Unit)} {later : Effect (List (Nat × ChangeError))} :
      Applies scope n s (some change) first →
      AppliesEach scope n first.store (index + 1) rest later →
        AppliesEach scope n s index (change :: rest)
          ⟨first.toObservation ++ later.toObservation,
            (match first.failures with
              | .ok () => []
              | .error e => [(index, e)]) ++ later.failures,
            later.store, first.tried ++ later.tried⟩

end Change

/-- The journal and the store after an event was given to handlers in order. -/
inductive Schema.Gives (scope : Scope) (n : Nat) : Store → List Handler → Journal × Store → Prop
  | nil {s : Store} : Gives scope n s [] ([], s)
  | cons {s after : Store} {h : Handler} {rest : List Handler}
      {first : Effect (List (Nat × ChangeError))} {later : Journal} :
      Change.AppliesEach scope n s 0 h.changes first →
      Gives scope n first.store rest (later, after) →
        Gives scope n s (h :: rest)
          (first.remarks.map .remark ++
            (first.failures.map fun (index, error) =>
              ⟨scope.event.name, scope.event.timestamp, h.pattern.text, index, error⟩).map
                .failure ++ later, after)

/-! ### What is derived -/

/-- What comes next only takes the result. -/
theorem Observed.bind_of_val {α β : Type} {x : Observed α} {a : α} (h : x.val = a)
    (f : α → Observed β) : x >>= f = x >>= fun _ => f a := by
  rw [← h]
  rfl

variable {scope : Scope} {s : Store}

section

variable (ht : scope.table.check = .ok ())

include ht

theorem Scope.reads_iff {path : List Locator} {x : Observed (Option Value)} :
    scope.Reads scope.table.size s path x ↔ x = scope.valueAt s path := by
  rw [← held_found]
  constructor
  · rintro ⟨hg⟩
    rw [(resolves_iff ht).mp hg, resolve]
  · rintro rfl
    exact .found ((resolves_iff ht).mpr rfl)

theorem Source.evaluates_iff {source : Source} {x : Observed (Except CoercionError Value)} :
    source.Evaluates scope scope.table.size s x ↔ x = source.evaluate scope s := by
  constructor
  · rintro (_ | @⟨_, kind⟩ | hx | _ | _)
    · rfl
    · cases kind <;> rfl
    · rw [(Scope.reads_iff ht).mp hx]
      rfl
    · rfl
    · rfl
  · rintro rfl
    cases source with
    | literal v => exact .literal
    | eventField name kind => cases kind <;> exact .eventField
    | query path => exact .query ((Scope.reads_iff ht).mpr rfl)
    | eventName => exact .eventName
    | delete => exact .delete

theorem Operand.evaluates_iff {operand : Operand} {x : Observed (Option Value)} :
    operand.Evaluates scope scope.table.size s x ↔ x = operand.evaluate scope s := by
  constructor
  · rintro (hx | hx)
    · rw [(Scope.reads_iff ht).mp hx]
      rfl
    · rw [(Source.evaluates_iff ht).mp hx]
      rfl
  · rintro rfl
    rcases operand with path | m
    · exact .attribute ((Scope.reads_iff ht).mpr rfl)
    · exact .term ((Source.evaluates_iff ht).mpr rfl)

theorem Condition.compares_iff {operand : Operand} {expected : Term} {x : Observed Bool} :
    Compares scope scope.table.size s operand expected x ↔
      x = compare scope s operand expected := by
  constructor
  · rintro (⟨hx, hv⟩ | ⟨hx, hv, hy⟩)
    · obtain rfl := (Operand.evaluates_iff ht).mp hx
      symm
      exact Observed.bind_of_val hv _
    · obtain rfl := (Operand.evaluates_iff ht).mp hx
      obtain rfl := (Source.evaluates_iff ht).mp hy
      symm
      exact Observed.bind_of_val hv _
  · rintro rfl
    have hx : operand.Evaluates scope scope.table.size s _ := (Operand.evaluates_iff ht).mpr rfl
    cases hv : (operand.evaluate scope s).val with
    | none =>
        rw [compare, Observed.bind_of_val hv]
        exact .missing hx hv
    | some v =>
        rw [compare, Observed.bind_of_val hv]
        exact .told hx hv ((Source.evaluates_iff ht).mpr rfl)

end

mutual

/-- **A condition is tested as the rules say.** -/
theorem Condition.tests_iff (ht : scope.table.check = .ok ()) :
    ∀ (c : Condition) {x : Observed Bool},
      c.Tests scope scope.table.size s x ↔ x = c.test scope s
  | .leaf operand expected, x => by
    rw [test, ← compares_iff ht]
    exact ⟨fun | .leaf h => h, .leaf⟩
  | .not c, x => by
    rw [test]
    constructor
    · intro h
      cases h with
      | not hx => rw [(tests_iff ht c).mp hx]
    · rintro rfl
      exact .not ((tests_iff ht c).mpr rfl)
  | .all cs, x => by
    rw [test]
    constructor
    · intro h
      cases h with
      | all hx => rw [(testsEach_iff ht cs).mp hx]
    · rintro rfl
      exact .all ((testsEach_iff ht cs).mpr rfl)
  | .any cs, x => by
    rw [test]
    constructor
    · intro h
      cases h with
      | any hx => rw [(testsEach_iff ht cs).mp hx]
    · rintro rfl
      exact .any ((testsEach_iff ht cs).mpr rfl)

theorem Condition.testsEach_iff (ht : scope.table.check = .ok ()) :
    ∀ (cs : List Condition) {xs : Observed (List Bool)},
      TestsEach scope scope.table.size s cs xs ↔ xs = testEach scope s cs
  | [], xs => by
    rw [testEach]
    constructor
    · intro h
      cases h with
      | nil => rfl
    · rintro rfl
      exact .nil
  | c :: rest, xs => by
    rw [testEach]
    constructor
    · intro h
      cases h with
      | cons hx hxs => rw [(tests_iff ht c).mp hx, (testsEach_iff ht rest).mp hxs]
    · rintro rfl
      exact .cons ((tests_iff ht c).mpr rfl) ((testsEach_iff ht rest).mpr rfl)

end

section

variable (ht : scope.table.check = .ok ())

include ht

theorem Term.asks_iff {m : Term} {q : Quark}
    {x : Observed (Except ChangeError (Option Mutation))} :
    m.Asks scope scope.table.size s q x ↔ x = m.mutation? scope s q := by
  unfold mutation?
  constructor
  · rintro (hd | ⟨hd, hi⟩ | ⟨hd, hi, hx⟩)
    · rw [if_pos hd]
    · rw [if_neg (by simp [hd]), if_pos hi]
    · obtain rfl := (Source.evaluates_iff ht).mp hx
      exact ((if_neg (by simp [hd])).trans (if_neg (by simp [hi]))).symm
  · rintro rfl
    cases hd : m.source.isDelete with
    | true => exact .remove hd
    | false =>
        cases hi : m.increment with
        | true => exact .increment hd hi
        | false => exact .use hd hi ((Source.evaluates_iff ht).mpr rfl)

theorem Scope.grows_iff {path : List Locator} {g : Growth} :
    scope.Resolves scope.table.size .growing s Quark.root (.path path) g ↔
      g = scope.grow s Quark.root path :=
  resolves_iff ht

theorem Assignment.assigns_iff {a : Assignment} {effect : Effect (Except ChangeError Unit)} :
    a.Assigns scope scope.table.size s effect ↔
      effect = Change.assignTo scope s a.target a.term := by
  unfold Change.assignTo
  constructor
  · rintro (⟨hg, hq⟩ | ⟨hg, hq, hx, hv⟩ | ⟨hg, hq, hx, hv⟩ | ⟨hg, hq, hx, hv, hm⟩ |
      ⟨hg, hq, hx, hv, hm⟩)
    all_goals obtain rfl := (Scope.grows_iff ht).mp hg
    · simp only [hq]
    all_goals obtain rfl := (Term.asks_iff ht).mp hx
    · simp only [hq, hv]
    · simp only [hq, hv]
    · simp only [hq, hv, hm]
    · simp only [hq, hv, hm]
  · rintro rfl
    have hg : scope.Resolves scope.table.size .growing s Quark.root (.path a.target) _ :=
      (Scope.grows_iff ht).mpr rfl
    cases hq : (scope.grow s Quark.root a.target).result with
    | error u => simpa only [hq] using .lost hg hq
    | ok q =>
        have hx : a.term.Asks scope scope.table.size (scope.grow s Quark.root a.target).store q _ :=
          (Term.asks_iff ht).mpr rfl
        cases hv : (a.term.mutation? scope (scope.grow s Quark.root a.target).store q).val with
        | error e => simpa only [hq, hv] using .failed hg hq hx hv
        | ok asked =>
            cases asked with
            | none => simpa only [hq, hv] using .looked hg hq hx hv
            | some m => 
                cases hm : (scope.grow s Quark.root a.target).store.mutate q
                    scope.event.timestamp m with
                | ok after => simpa only [hq, hv, hm] using .done hg hq hx hv hm
                | error r => simpa only [hq, hv, hm] using .refused hg hq hx hv hm

end

mutual

/-- **A state change is applied as the rules say.** -/
theorem Change.applies_iff (ht : scope.table.check = .ok ()) :
    ∀ (change : Change) {effect : Effect (Except ChangeError Unit)},
      Applies scope scope.table.size s (some change) effect ↔ effect = change.apply scope s
  | .assign path m, effect => by
    rw [apply, ← Assignment.assigns_iff ht (a := ⟨path, m⟩)]
    exact ⟨fun | .assign h => h, .assign⟩
  | .conditional c yes no, effect => by
    have hbranch : ∀ {effect : Effect (Except ChangeError Unit)},
        Applies scope scope.table.size s (if (c.test scope s).val then yes else no) effect ↔
          effect = if (c.test scope s).val then applyBranch scope s yes
            else applyBranch scope s no := by
      intro effect
      split
      · exact applies_branch_iff ht yes
      · exact applies_branch_iff ht no
    rw [apply]
    constructor
    · intro h
      cases h with
      | conditional hx heffect =>
          obtain rfl := (c.tests_iff ht).mp hx
          rw [hbranch.mp heffect]
    · rintro rfl
      exact .conditional ((c.tests_iff ht).mpr rfl) (hbranch.mpr rfl)

theorem Change.applies_branch_iff (ht : scope.table.check = .ok ()) :
    ∀ (branch : Option Change) {effect : Effect (Except ChangeError Unit)},
      Applies scope scope.table.size s branch effect ↔ effect = applyBranch scope s branch
  | none, effect => by
    rw [applyBranch]
    exact ⟨fun | .nothing => rfl, fun h => h ▸ .nothing⟩
  | some change, effect => by
    rw [applyBranch]
    exact applies_iff ht change

end

theorem Change.appliesEach_iff (ht : scope.table.check = .ok ()) {index : Nat}
    {changes : List Change} {effect : Effect (List (Nat × ChangeError))} :
    AppliesEach scope scope.table.size s index changes effect ↔
      effect = applyFrom scope s index changes := by
  induction changes generalizing s index effect with
  | nil => exact ⟨fun | .nil => rfl, fun h => h ▸ .nil⟩
  | cons change rest ih =>
      rw [applyFrom]
      constructor
      · intro h
        cases h with
        | cons hfirst hlater =>
            obtain rfl := (change.applies_iff ht).mp hfirst
            obtain rfl := ih.mp hlater
            rfl
      · rintro rfl
        exact .cons ((change.applies_iff ht).mpr rfl) (ih.mpr rfl)

/-- **Handlers are given an event as the rules say.** -/
theorem Schema.gives_iff (ht : scope.table.check = .ok ()) {handlers : List Handler}
    {given : Journal × Store} :
    Gives scope scope.table.size s handlers given ↔ given = processWith scope s handlers := by
  induction handlers generalizing s given with
  | nil => exact ⟨fun | .nil => rfl, fun h => h ▸ .nil⟩
  | cons h rest ih =>
      rw [processWith]
      constructor
      · intro hgiven
        cases hgiven with
        | cons hfirst hlater =>
            obtain rfl := (Change.appliesEach_iff ht).mp hfirst
            rw [Handler.handle, ← ih.mp hlater]
      · rintro rfl
        exact .cons ((Change.appliesEach_iff ht).mpr rfl) (ih.mpr rfl)

/-! ### Termination -/

namespace Schema

/-- Everything that a schema evaluates comes to an end, whatever the event and the store: each path
from each attribute, found or grown, each source, condition and state change, and each event that is
processed.

* `resolves`: a path has a derivation of what is found and grown.
* `resolves_only`: nothing else is derived, whatever the room.
* `opens_le`: along any chain of calls no more expansions of locations are open at once than the
  table has locations.
* `evaluates`, `tests`, `applies`, `processes`: what is derived is what the interpreter does. -/
structure Terminates (schema : Schema) : Prop where
  resolves : ∀ (e : Event) (mode : Mode) (s : Store) (q : Quark) (path : List Locator),
    Scope.Resolves ⟨schema.table, e⟩ schema.table.size mode s q (.path path)
      (Scope.resolve ⟨schema.table, e⟩ s q mode (.path path))
  resolves_only : ∀ (e : Event) (n : Nat) (mode : Mode) (s : Store) (q : Quark)
    (path : List Locator) (g : Growth),
    Scope.Resolves ⟨schema.table, e⟩ n mode s q (.path path) g →
      g = Scope.resolve ⟨schema.table, e⟩ s q mode (.path path)
  opens_le : ∀ (e : Event) (mode : Mode) (s : Store) (q : Quark) (path : List Locator)
    (names : List String), Scope.Opens ⟨schema.table, e⟩ mode s q (.path path) names →
      names.length ≤ schema.table.size
  evaluates : ∀ (e : Event) (s : Store) (source : Source) x,
    source.Evaluates ⟨schema.table, e⟩ schema.table.size s x ↔
      x = source.evaluate ⟨schema.table, e⟩ s
  tests : ∀ (e : Event) (s : Store) (c : Condition) x,
    c.Tests ⟨schema.table, e⟩ schema.table.size s x ↔ x = c.test ⟨schema.table, e⟩ s
  applies : ∀ (e : Event) (s : Store) (change : Change) x,
    Change.Applies ⟨schema.table, e⟩ schema.table.size s (some change) x ↔
      x = change.apply ⟨schema.table, e⟩ s
  processes : ∀ (e : Event) (s : Store) x,
    Gives ⟨schema.table, e⟩ schema.table.size s (schema.handlersFor e.name) x ↔
      x = schema.process s e

/-- **A schema terminates if its table has passed its check.** -/
theorem terminates {schema : Schema} (ht : schema.table.check = .ok ()) : schema.Terminates where
  resolves _ _ _ _ _ := (Scope.resolves_iff ht).mpr rfl
  resolves_only _ _ _ _ _ _ _ h := h.eq ht
  opens_le _ _ _ _ _ _ ho := Scope.length_le_size_of_opens ht ho
  evaluates _ _ _ _ := Source.evaluates_iff ht
  tests _ _ c _ := c.tests_iff ht
  applies _ _ change _ := change.applies_iff ht
  processes _ _ _ := gives_iff ht

/-- A location in a query of another: both expansions are open at once. The condition reads a
location that the table does not have. -/
theorem terminates_of_nested :
    let nowhere : List Locator := [.location "Nowhere"]
    let schema : Schema := {
      handlers := [⟨.ofText "sched*", [.conditional
        (.leaf (.attribute nowhere) ⟨.literal (.int 0), false, .none⟩)
        none (some (.assign [.location "Thread"] ⟨.query [.location "Cpu"], false, .none⟩))]⟩]
      table := .ofList [⟨"Cpu", [.constant "CPUs", .eventField "cpu"]⟩,
        ⟨"Thread", [.query [.location "Cpu"], .constant "State"]⟩] }
    schema.table.check = .ok () ∧ schema.Terminates ∧ schema.table.size = 2 ∧
      ∀ e mode s q,
        Scope.Opens ⟨schema.table, e⟩ mode s q (.path [.location "Thread"]) ["Thread", "Cpu"] := by
  intro nowhere schema
  have ht : schema.table.check = .ok () := rfl
  refine ⟨ht, terminates ht, rfl, fun e mode s q => ?_⟩
  exact .first (.location rfl (.first (.query (.first (.location rfl .here)))))

end Schema
end Chronicle
