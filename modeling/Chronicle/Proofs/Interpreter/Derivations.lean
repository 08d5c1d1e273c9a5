import Chronicle.Proofs.Interpreter.Names

/-!
# Resolving by rules

`Scope.Resolves` tells by rules what a path is resolved to, without a budget. A derivation is the
tree of the calls that are made, so to have one is to come to an end, and its index is the room that
there is for expansions of locations inside one another: so many are open at once, at most, along
any chain of calls (`Scope.Resolves.length_le_of_opens`, `Scope.length_le_size_of_opens`).

In a table that has passed its check everything that is resolved has a derivation, with room for as
many expansions as the table has locations (`Scope.exists_resolves`), and what is derived is what
is found or grown within the budgets (`Scope.Resolves.eq`). A location whose path starts with itself
has no derivation, whatever the room (`Scope.not_resolves_of_loop`).
-/

namespace Chronicle

/-- The ways of resolving: to find what is there, or to grow what is not. -/
inductive Mode
  | finding
  | growing

/-- What is resolved: one locator, or a path. -/
inductive Part
  | one (l : Locator)
  | path (path : List Locator)

namespace Growth

/-- What a search comes to; it leaves the store alone. -/
def found (s : Store) (x : Observed (Except Unresolved Quark)) : Growth :=
  ⟨x.toObservation, x.val, s⟩

/-- What the attribute holds that was come to, if one was. -/
def held (g : Growth) : Observed (Option Value) :=
  { toObservation := g.toObservation
    val :=
      match g.result with
      | .ok q => some (g.store.ongoing q)
      | .error _ => none }

/-- To find and go on is to go on from what is found. -/
theorem found_onward (s : Store) (x : Observed (Except Unresolved Quark))
    (f : Quark → Observed (Except Unresolved Quark)) :
    found s (x.onward f) = (found s x).onward fun s q => found s (f q) := by
  cases hx : x.val <;> simp [found, onward, Observed.onward, bind, pure, hx]

/-- The name that comes of what is held. -/
def heldName (g : Growth) : Observed (Option String) := do
  pure ((← g.held).bind Value.segment?)

end Growth

/-- The child whose name is given, if a name is given. -/
def Mode.child (s : Store) (q : Quark) (name : Observed (Option String)) : Mode → Growth
  | .finding => .found s do s.lookupNamed q (← name)
  | .growing => s.grow q name

namespace Scope

/-- What a part leads to from an attribute of a store, with room for `n` expansions of locations
inside one another.

* The name of a query is found from the root, whatever the mode.
* To expand a location takes one from the room, while its path is being resolved.
* A path is resolved from left to right, until a locator fails. -/
inductive Resolves (scope : Scope) : (n : Nat) → Mode → Store → Quark → Part → Growth → Prop
  | constant {n : Nat} {mode : Mode} {s : Store} {q : Quark} {name : String} :
      Resolves scope n mode s q (.one (.constant name)) (mode.child s q (pure (some name)))
  | eventField {n : Nat} {mode : Mode} {s : Store} {q : Quark} {name : String} :
      Resolves scope n mode s q (.one (.eventField name))
        (mode.child s q (scope.event.nameIn name))
  | query {n : Nat} {mode : Mode} {s : Store} {q : Quark} {path : List Locator} {g : Growth} :
      Resolves scope n .finding s Quark.root (.path path) g →
        Resolves scope n mode s q (.one (.query path)) (mode.child s q g.heldName)
  | location {n : Nat} {mode : Mode} {s : Store} {q : Quark} {name : String}
      {path : List Locator} {g : Growth} :
      scope.table.path? name = some path → Resolves scope n mode s q (.path path) g →
        Resolves scope (n + 1) mode s q (.one (.location name)) g
  | unknown {n : Nat} {mode : Mode} {s : Store} {q : Quark} {name : String} :
      scope.table.path? name = none →
        Resolves scope n mode s q (.one (.location name))
          ⟨{ remarks := [.locationUnknown name] }, .error .absent, s⟩
  | nil {n : Nat} {mode : Mode} {s : Store} {q : Quark} :
      Resolves scope n mode s q (.path []) ⟨{}, .ok q, s⟩
  | cons {n : Nat} {mode : Mode} {s : Store} {q next : Quark} {l : Locator}
      {rest : List Locator} {first last : Growth} :
      Resolves scope n mode s q (.one l) first → first.result = .ok next →
      Resolves scope n mode first.store next (.path rest) last →
        Resolves scope n mode s q (.path (l :: rest))
          ⟨first.toObservation ++ last.toObservation, last.result, last.store⟩
  | stop {n : Nat} {mode : Mode} {s : Store} {q : Quark} {l : Locator} {rest : List Locator}
      {first : Growth} {u : Unresolved} :
      Resolves scope n mode s q (.one l) first → first.result = .error u →
        Resolves scope n mode s q (.path (l :: rest)) first

/-- A chain of calls, each made by the one before, from the call that resolves a part on; the names
are those of the locations whose expansions are open at its end. -/
inductive Opens (scope : Scope) : Mode → Store → Quark → Part → List String → Prop
  | here {mode : Mode} {s : Store} {q : Quark} {part : Part} : Opens scope mode s q part []
  | query {mode : Mode} {s : Store} {q : Quark} {path : List Locator} {names : List String} :
      Opens scope .finding s Quark.root (.path path) names →
        Opens scope mode s q (.one (.query path)) names
  | location {mode : Mode} {s : Store} {q : Quark} {name : String} {path : List Locator}
      {names : List String} :
      scope.table.path? name = some path → Opens scope mode s q (.path path) names →
        Opens scope mode s q (.one (.location name)) (name :: names)
  | first {mode : Mode} {s : Store} {q : Quark} {l : Locator} {rest : List Locator}
      {names : List String} :
      Opens scope mode s q (.one l) names → Opens scope mode s q (.path (l :: rest)) names
  | later {n : Nat} {mode : Mode} {s : Store} {q next : Quark} {l : Locator}
      {rest : List Locator} {first : Growth} {names : List String} :
      Resolves scope n mode s q (.one l) first → first.result = .ok next →
      Opens scope mode first.store next (.path rest) names →
        Opens scope mode s q (.path (l :: rest)) names

/-- What a part leads to, as it is found and grown within the budgets. -/
def resolve (scope : Scope) (s : Store) (q : Quark) : Mode → Part → Growth
  | .finding, .one l => .found s (scope.findOne s q l)
  | .finding, .path path => .found s (scope.find s q path)
  | .growing, .one l => scope.growOne s q l
  | .growing, .path path => scope.grow s q path

variable {scope : Scope} {n : Nat} {mode : Mode} {s : Store} {q : Quark}

/-! ### What is derived -/

theorem held_found (path : List Locator) :
    (Growth.found s (scope.find s Quark.root path)).held = scope.valueAt s path := by
  unfold Growth.held Growth.found valueAt
  cases hv : (scope.find s Quark.root path).val with
  | ok c => simp [bind, hv, pure]
  | error u => simp [bind, hv, pure]

/-- In a sound table a search fails for one reason only. -/
theorem eq_absent_of_find (ht : scope.table.check = .ok ()) {path : List Locator} {u : Unresolved}
    (h : (scope.find s q path).val = .error u) : u = .absent := by
  obtain ⟨ns, hns⟩ := exists_spells ht s path
  rw [hns.val_find ht, Store.arrive] at h
  split at h
  · cases h
  · exact (Except.error.inj h).symm

/-- A query is found, and grown, by the name that it finds. -/
theorem resolve_query (ht : scope.table.check = .ok ()) (path : List Locator) :
    scope.resolve s q mode (.one (.query path)) =
      mode.child s q (scope.resolve s Quark.root .finding (.path path)).heldName := by
  rw [resolve, Growth.heldName, held_found]
  cases mode with
  | growing => exact growOne_query q path
  | finding =>
      rw [resolve, findOne_query, Mode.child, valueAt]
      congr 1
      cases hv : (scope.find s Quark.root path).val with
      | ok target => simp [Observed.onward, bind, pure, hv]
      | error u =>
          obtain rfl := eq_absent_of_find ht hv
          simp [Observed.onward, Store.lookupNamed, bind, pure, hv]

/-- A path is resolved locator by locator. -/
theorem resolve_cons (l : Locator) (rest : List Locator) :
    scope.resolve s q mode (.path (l :: rest)) =
      (scope.resolve s q mode (.one l)).onward fun s next =>
        scope.resolve s next mode (.path rest) := by
  cases mode with
  | growing => exact grow_cons q l rest
  | finding =>
      simp only [resolve, find_cons, Growth.found_onward]
      rfl

/-- **What is derived is what is found and grown.** -/
theorem Resolves.eq (ht : scope.table.check = .ok ()) {part : Part} {g : Growth}
    (h : scope.Resolves n mode s q part g) : g = scope.resolve s q mode part := by
  induction h with
  | @constant n mode s q name =>
      cases mode with
      | finding => rfl
      | growing => rfl
  | @eventField n mode s q name =>
      cases mode with
      | finding => rw [resolve, findOne_eventField]; rfl
      | growing => rfl
  | query _ ih => rw [resolve_query ht, ih]
  | @location n mode s q name path g hp _ ih =>
      rw [ih]
      cases mode with
      | finding => simp only [resolve, findOne_location ht, hp]
      | growing => simp only [resolve, growOne_location ht, hp]
  | @unknown n mode s q name hp =>
      have hnot := unexpanded_of_not_defines (Table.defines_eq_false_iff.mpr hp)
      cases mode with
      | finding => simp only [resolve, findOne_location ht, hp, hnot]; rfl
      | growing => simp only [resolve, growOne_location ht, hp, ungrown, hnot]
  | @nil n mode s q => cases mode <;> rfl
  | cons _ hnext _ ih ih' => simp only [resolve_cons, ← ih, Growth.onward, hnext, ← ih']
  | stop _ hu ih => rw [resolve_cons, ← ih, Growth.onward, hu]

/-- **No more expansions are open at once than there is room for**, along any chain of calls. -/
theorem Resolves.length_le_of_opens (ht : scope.table.check = .ok ()) {part : Part} {g : Growth}
    {names : List String} (h : scope.Resolves n mode s q part g)
    (ho : scope.Opens mode s q part names) : names.length ≤ n := by
  induction ho generalizing n g with
  | here => exact Nat.zero_le n
  | query _ ih =>
      cases h with
      | query h => exact ih h
  | location hp _ ih =>
      cases h with
      | location hp' h =>
          obtain rfl := Option.some.inj (hp.symm.trans hp')
          exact Nat.succ_le_succ (ih h)
      | unknown hnone => cases hp.symm.trans hnone
  | first _ ih =>
      cases h with
      | cons h _ _ => exact ih h
      | stop h _ => exact ih h
  | later hfirst hnext _ ih =>
      cases h with
      | cons h hnext' hlast =>
          obtain rfl := (hfirst.eq ht).trans (h.eq ht).symm
          obtain rfl := Except.ok.inj (hnext.symm.trans hnext')
          exact ih hlast
      | stop h hu =>
          obtain rfl := (hfirst.eq ht).trans (h.eq ht).symm
          cases hnext.symm.trans hu

/-! ### What has a derivation -/

/-- A path has a derivation if the locations have one that it names. -/
theorem exists_resolves_of_references (path : List Locator) :
    (∀ name ∈ Locator.referencesEach path, ∀ mode s q,
      ∃ g, scope.Resolves n mode s q (.one (.location name)) g) →
        ∀ mode s q, ∃ g, scope.Resolves n mode s q (.path path) g := by
  -- the rest is resolved from where the first locator leads
  have hcons : ∀ {l : Locator} {rest : List Locator},
      (∀ mode s q, ∃ g, scope.Resolves n mode s q (.one l) g) →
      (∀ mode s q, ∃ g, scope.Resolves n mode s q (.path rest) g) →
        ∀ mode s q, ∃ g, scope.Resolves n mode s q (.path (l :: rest)) g := by
    intro l rest hl hrest mode s q
    obtain ⟨first, hfirst⟩ := hl mode s q
    cases hresult : first.result with
    | error u => exact ⟨_, .stop hfirst hresult⟩
    | ok next =>
        obtain ⟨last, hlast⟩ := hrest mode first.store next
        exact ⟨_, .cons hfirst hresult hlast⟩
  induction path using Locator.path_induction with
  | nil => exact fun _ _ _ _ => ⟨_, .nil⟩
  | constant name rest ih => exact fun h => hcons (fun _ _ _ => ⟨_, .constant⟩) (ih h)
  | eventField name rest ih => exact fun h => hcons (fun _ _ _ => ⟨_, .eventField⟩) (ih h)
  | query path rest ihp ih =>
      intro h
      refine hcons (fun mode s q => ?_) (ih fun r hr => h r (List.mem_append_right _ hr))
      obtain ⟨g, hg⟩ := ihp (fun r hr => h r (List.mem_append_left _ hr)) .finding s Quark.root
      exact ⟨_, .query hg⟩
  | location name rest ih =>
      intro h
      exact hcons (h name (List.mem_append_left _ List.mem_cons_self))
        (ih fun r hr => h r (List.mem_append_right _ hr))

/-- A location that is settled in round `n` has a derivation with room for `n` expansions. -/
theorem exists_resolves_of_settled {name : String}
    (h : scope.table.defines name = true → name ∈ scope.table.settled n) (mode : Mode) (s : Store)
    (q : Quark) : ∃ g, scope.Resolves n mode s q (.one (.location name)) g := by
  induction n generalizing name mode s q with
  | zero =>
      cases hd : scope.table.defines name with
      | false => exact ⟨_, .unknown (Table.defines_eq_false_iff.mp hd)⟩
      | true => cases h hd
  | succ n ih =>
      cases hp : scope.table.path? name with
      | none => exact ⟨_, .unknown hp⟩
      | some path =>
          have hsettled := h (Table.defines_iff.mpr ⟨path, hp⟩)
          obtain ⟨g, hg⟩ := exists_resolves_of_references path
            (fun r hr => ih (Table.mem_settled_of_reference hsettled hp hr)) mode s q
          exact ⟨g, .location hp hg⟩

/-- **In a sound table everything that is resolved has a derivation**, with room for as many
expansions inside one another as there are locations. -/
theorem exists_resolves (ht : scope.table.check = .ok ()) (mode : Mode) (s : Store) (q : Quark)
    (path : List Locator) :
    ∃ g, scope.Resolves scope.table.size mode s q (.path path) g :=
  exists_resolves_of_references path
    (fun _ _ => exists_resolves_of_settled (Table.mem_settled_of_check ht)) mode s q

theorem resolves_iff (ht : scope.table.check = .ok ()) {path : List Locator} {g : Growth} :
    scope.Resolves scope.table.size mode s q (.path path) g ↔
      g = scope.resolve s q mode (.path path) := by
  refine ⟨fun h => h.eq ht, ?_⟩
  rintro rfl
  obtain ⟨g, hg⟩ := exists_resolves ht mode s q path
  exact hg.eq ht ▸ hg

/-- **In a sound table no more expansions are open at once than there are locations.** -/
theorem length_le_size_of_opens (ht : scope.table.check = .ok ()) {path : List Locator}
    {names : List String} (ho : scope.Opens mode s q (.path path) names) :
    names.length ≤ scope.table.size := by
  obtain ⟨g, hg⟩ := exists_resolves ht mode s q path
  exact hg.length_le_of_opens ht ho

/-- A location whose path starts with itself has no derivation, whatever the room. -/
theorem not_resolves_of_loop {name : String} {rest : List Locator}
    (hp : scope.table.path? name = some (.location name :: rest)) (g : Growth) :
    ¬scope.Resolves n mode s q (.one (.location name)) g := by
  intro h
  induction n generalizing g with
  | zero =>
      cases h with
      | unknown hnone => rw [hp] at hnone; cases hnone
  | succ n ih =>
      cases h with
      | unknown hnone => rw [hp] at hnone; cases hnone
      | location hpath h =>
          obtain rfl := Option.some.inj (hp.symm.trans hpath)
          cases h with
          | cons h _ _ => exact ih _ h
          | stop h _ => exact ih _ h

end Scope
end Chronicle
