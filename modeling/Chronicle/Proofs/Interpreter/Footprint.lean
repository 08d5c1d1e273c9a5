import Chronicle.Proofs.Interpreter.Reach
import Chronicle.Proofs.Store.Chain

/-!
# What a state change touches

All that a state change leaves behind comes from the assignment that its conditions select. To grow
its target adds a chain of attributes that were never written (`Store.GrownAlong`), and then there
is at most one call, a mutation of the target at the time of the event (`Assignment.Touches`). So
everything else keeps what is recorded of it, and if the state change fails, everything does.

| end of the assignment | what is left behind |
| --- | --- |
| the target has no name, or the term has nothing to ask | the chain |
| a look at the stack | the chain |
| the mutation is refused | the chain |
| the mutation is accepted | the chain, and what was done to the target, or to all below too |

Main statements: `Change.intact_of_fails`, `Change.touches_selected`.
-/

namespace Chronicle

/-! ### Growing along names -/

/-- A store has grown along names from the root on, and nothing else has changed.

* `clock`, `kept`: the clock stays, and what is there keeps its name, its parent and its track.
* `created`: what is new is one chain, of those names that were missing.
* `unwritten`: what is new was never written. -/
structure Store.GrownAlong (s s' : Store) (names : List String) : Prop where
  clock : s'.clock = s.clock
  kept : ∀ q, s.tree.contains q = true → s'.tree.node? q = s.tree.node? q ∧ s'.track q = s.track q
  created : ∃ old new e, s.tree.Adds s'.tree Quark.root names old new e
  unwritten : ∀ q, s.tree.contains q = false → s'.track q = {}

namespace Scope

variable {scope : Scope} {s : Store} {path : List Locator} {ns : Spelling}

theorem Spells.grownAlong (ht : scope.table.check = .ok ()) (hs : s.Reachable)
    (h : scope.Spells s path ns) :
    s.GrownAlong (scope.grow s Quark.root path).store ns.leading := by
  have hgrown := growsTo_grow ht hs path
  refine ⟨hgrown.clock, fun q hq => ⟨hgrown.tree.node?_eq hq, hgrown.track q⟩, ?_, fun q hq => ?_⟩
  · rw [(h.grow_root ht hs).store]
    exact Tree.plant_eq_chain hs.grounded (.inl rfl) ns.leading
  · rw [hgrown.track, Store.track_of_not_contains hs.tracks_size hq]

end Scope

/-! ### What terms ask for -/

namespace Term

variable {scope : Scope} {s : Store} {q : Quark} {m : Term}

/-- Only a term that removes asks to remove. -/
theorem isDelete_of_mutation? (h : (m.mutation? scope s q).val = .ok (some .remove)) :
    m.source.isDelete = true := by
  cases wants_of_mutation? h with
  | remove hd => exact hd

/-- The term looks at the stack, and does nothing else. -/
def looks (m : Term) : Bool :=
  !m.source.isDelete && !m.increment && m.stack == .peek

/-- A look asks for no mutation. -/
theorem ne_some_of_looks (hm : m.looks = true) (mutation : Mutation) :
    (m.mutation? scope s q).val ≠ .ok (some mutation) := by
  obtain ⟨⟨hdelete, hinc⟩, hpeek⟩ : (m.source.isDelete = false ∧ m.increment = false) ∧
      m.stack = .peek := by
    simpa [looks] using hm
  intro h
  cases wants_of_mutation? h <;> simp_all

end Term

/-! ### What assignments touch -/

namespace Store

/-- A mutation of `q` leaves the tracks of all others alone, but for those below if it removes. -/
theorem track_call_mutate_of_ne {s : Store} (hs : s.tracks.size = s.tree.size) {q d : Quark}
    {t : Int64} {m : Mutation} (hne : d ≠ q) (hbelow : m = .remove → d ∉ s.tree.descendants q) :
    (s.call (.mutate q t m)).track d = s.track d := by
  have hd : d ∉ m.reach s.tree q := by
    cases m with
    | remove => simpa [Mutation.reach, hne] using hbelow rfl
    | _ => simpa [Mutation.reach] using hne
  exact track_call_mutate hs hd

end Store

namespace Assignment

/-- What an assignment touches, by the store that it leaves and the attributes that it tried to
mutate.

* `called`: it grows its target and then makes at most one call, which mutates the attribute that
  the target leads to at the time of the event.
* `looked`: a look makes no call.
* `named`: what was there keeps its name and its parent.
* `kept`: what was there and is not the target keeps its track, unless the assignment removes and it
  lies below the target.
* `created`: what is new is a chain along the target. -/
structure Touches (scope : Scope) (s : Store) (a : Assignment) (after : Store)
    (tried : List Quark) : Prop where
  called : (tried = [] ∧ after = (scope.grow s Quark.root a.target).store) ∨
    ∃ q m, tried = [q] ∧ (scope.grow s Quark.root a.target).result = .ok q ∧
      (a.term.mutation? scope (scope.grow s Quark.root a.target).store q).val = .ok (some m) ∧
        after = (scope.grow s Quark.root a.target).store.call
          (.mutate q scope.event.timestamp m)
  looked : a.term.looks = true → tried = []
  named : ∀ d, s.tree.contains d = true → after.tree.node? d = s.tree.node? d
  kept : ∀ d, s.tree.contains d = true →
    (∀ q, (scope.grow s Quark.root a.target).result = .ok q →
      d ≠ q ∧ (a.term.source.isDelete = true → d ∉ s.tree.descendants q)) →
    after.track d = s.track d
  created : ∃ ns old new e, scope.Spells s a.target ns ∧
    s.tree.Adds after.tree Quark.root ns.leading old new e

variable {scope : Scope} {s : Store} {a : Assignment}

/-- An assignment that fails has grown its target, and no more. -/
theorem Comes.grown_of_fails {e : ChangeError} {after : Store} {tried : List Quark}
    (h : a.Comes scope s (.error e) after tried) :
    after = (scope.grow s Quark.root a.target).store := by
  cases h <;> rfl

/-- Each end of an assignment is the growth of its target and at most one call. -/
theorem Comes.called {result : Except ChangeError Unit} {after : Store} {tried : List Quark}
    (h : a.Comes scope s result after tried) :
    (tried = [] ∧ after = (scope.grow s Quark.root a.target).store) ∨
      ∃ q m, tried = [q] ∧ (scope.grow s Quark.root a.target).result = .ok q ∧
        (a.term.mutation? scope (scope.grow s Quark.root a.target).store q).val = .ok (some m) ∧
          after = (scope.grow s Quark.root a.target).store.call
            (.mutate q scope.event.timestamp m) := by
  cases h with
  | done hq hm hdone => exact .inr ⟨_, _, rfl, hq, hm, by rw [Store.call, hdone]⟩
  | refused hq hm hrefused => exact .inr ⟨_, _, rfl, hq, hm, by rw [Store.call, hrefused]⟩
  | _ => exact .inl ⟨rfl, rfl⟩

/-- **An assignment touches its target only.** -/
theorem Comes.touches (ht : scope.table.check = .ok ()) (hs : s.Reachable)
    {result : Except ChangeError Unit} {after : Store} {tried : List Quark}
    (h : a.Comes scope s result after tried) : a.Touches scope s after tried := by
  obtain ⟨ns, hns⟩ := Scope.exists_spells ht s a.target
  have hgrown := hns.grownAlong ht hs
  obtain ⟨old, new, e, hadds⟩ := hgrown.created
  rcases h.called with ⟨rfl, rfl⟩ | ⟨q, m, rfl, hq, hm, rfl⟩
  · exact ⟨.inl ⟨rfl, rfl⟩, fun _ => rfl, fun d hd => (hgrown.kept d hd).1,
      fun d hd _ => (hgrown.kept d hd).2, ns, old, new, e, hns, hadds⟩
  · refine ⟨h.called, fun hlooks => absurd hm (Term.ne_some_of_looks hlooks m),
      fun d hd => ?_, fun d hd hfar => ?_, ns, old, new, e, hns, ?_⟩
    · rw [Store.call_mutate_tree]
      exact (hgrown.kept d hd).1
    · obtain ⟨hne, hbelow⟩ := hfar q hq
      rw [Store.track_call_mutate_of_ne (Scope.reachable_grow ht hs a.target).tracks_size hne,
        (hgrown.kept d hd).2]
      rintro rfl
      rw [(Scope.growsTo_grow ht hs a.target).tree.mem_descendants_iff hs.grounded hd]
      exact hbelow (Term.isDelete_of_mutation? hm)
    · rwa [Store.call_mutate_tree]

end Assignment

/-! ### State changes -/

namespace Change

variable {scope : Scope} {s : Store} {change : Change}

theorem apply_of_select {a : Assignment} (h : (change.select scope s).val = some a) :
    (change.apply scope s).failures = (Assignment.perform scope s (some a)).failures ∧
      (change.apply scope s).store = (Assignment.perform scope s (some a)).store ∧
        (change.apply scope s).tried = (Assignment.perform scope s (some a)).tried := by
  rw [apply_eq, performSelected, h]
  exact ⟨rfl, rfl, rfl⟩

theorem apply_of_select_eq_none (h : (change.select scope s).val = none) :
    (change.apply scope s).failures = .ok () ∧ (change.apply scope s).store = s ∧
      (change.apply scope s).tried = [] := by
  rw [apply_eq, performSelected, h]
  exact ⟨rfl, rfl, rfl⟩

/-- What a state change selects, and that it does no more than that.

* `nothing`: if its conditions select nothing, nothing happens.
* `direct`: otherwise it does what the assignment does that they select.
* `touches`: so it touches what that assignment touches. -/
structure Confined (scope : Scope) (s : Store) (change : Change) : Prop where
  nothing : (change.select scope s).val = none → (change.apply scope s).failures = .ok () ∧
    (change.apply scope s).store = s ∧ (change.apply scope s).tried = []
  direct : ∀ a, (change.select scope s).val = some a →
    (change.apply scope s).failures = ((Change.assign a.target a.term).apply scope s).failures ∧
      (change.apply scope s).store = ((Change.assign a.target a.term).apply scope s).store ∧
        (change.apply scope s).tried = ((Change.assign a.target a.term).apply scope s).tried
  touches : ∀ a, (change.select scope s).val = some a →
    a.Touches scope s (change.apply scope s).store (change.apply scope s).tried

/-- **A state change touches only the target of the assignment that its conditions select.** -/
theorem touches_selected (ht : scope.table.check = .ok ()) (hs : s.Reachable) (change : Change) :
    change.Confined scope s where
  nothing := apply_of_select_eq_none
  direct a ha := apply_of_select ha
  touches a ha := by
    obtain ⟨-, hstore, htried⟩ := apply_of_select ha
    rw [hstore, htried]
    exact (a.comes scope s).touches ht hs

/-- The condition does not hold, so what is taken is the other branch. It removes `CPUs/1` with what
is below; `CPUs` and `CPUs/2` stay, and `Never` is not created. -/
theorem touches_selected_of_removal :
    let scope : Scope := {
      table := .ofList [⟨"Cpu", [.constant "CPUs", .eventField "cpu"]⟩]
      event := { name := "cpu_down", timestamp := 20, source := some 1 } }
    let s := ({} : Store).callEach [.create .root "CPUs", .create 0 "1", .create 1 "Load",
      .create 0 "2", .mutate 0 10 (.set (.int 2)), .mutate 2 10 (.set (.int 7)),
      .mutate 3 10 (.push (.int 8))]
    let cpus : List Locator := [.constant "CPUs"]
    let change : Change := .conditional
      (.leaf (.attribute cpus) ⟨.literal (.int 1), false, .none⟩)
      (some (.assign [.constant "Never"] ⟨.eventName, false, .none⟩))
      (some (.assign [.location "Cpu"] ⟨.delete, false, .none⟩))
    scope.table.check = .ok () ∧ s.Reachable ∧ change.Confined scope s ∧
      (change.apply scope s).tried = [1] ∧ s.ongoing 2 = .int 7 ∧
      (change.apply scope s).store.ongoing 2 = .null ∧
      (change.apply scope s).store.track 3 = s.track 3 ∧
      (change.apply scope s).store.tree = s.tree := by
  intro scope s cpus change
  have ht : scope.table.check = .ok () := rfl
  have hs : s.Reachable := Store.Reachable.empty.callEach _
  exact ⟨ht, hs, touches_selected ht hs change, by decide +kernel, by decide +kernel,
    by decide +kernel, by decide +kernel, by decide +kernel⟩

/-- **A state change that fails leaves everything recorded as it was.** The store has grown at most,
along the target of the assignment that was selected: the clock stays, every attribute keeps its
name, its parent and its track, and what is new is a chain of attributes that were never written. -/
theorem intact_of_fails (ht : scope.table.check = .ok ()) (hs : s.Reachable) {e : ChangeError}
    (h : (change.apply scope s).failures = .error e) :
    ∃ a ns, (change.select scope s).val = some a ∧ scope.Spells s a.target ns ∧
      s.GrownAlong (change.apply scope s).store ns.leading := by
  cases ha : (change.select scope s).val with
  | none =>
      obtain ⟨hok, -⟩ := apply_of_select_eq_none ha
      rw [hok] at h
      cases h
  | some a =>
      obtain ⟨hfailures, hstore, -⟩ := apply_of_select ha
      obtain ⟨ns, hns⟩ := Scope.exists_spells ht s a.target
      refine ⟨a, ns, rfl, hns, ?_⟩
      have hcomes := a.comes scope s
      rw [← hfailures, h, ← hstore] at hcomes
      rw [hcomes.grown_of_fails]
      exact hns.grownAlong ht hs

/-- What is to be added is a text, which shows only when `CPUs/1/Ticks` has been created. -/
theorem intact_of_fails_of_text :
    let scope : Scope := {
      table := .ofList [⟨"Cpu", [.constant "CPUs", .eventField "cpu"]⟩]
      event := { name := "tick", timestamp := 20, source := some 1, fields := [("n", .text "a")] } }
    let s := ({} : Store).callEach [.create .root "CPUs", .mutate 0 10 (.set (.int 2))]
    let cpus : List Locator := [.constant "CPUs"]
    let change : Change := .conditional
      (.leaf (.attribute cpus) ⟨.literal (.int 2), false, .none⟩)
      (some (.assign [.location "Cpu", .constant "Ticks"] ⟨.eventField "n", true, .none⟩)) none
    let after := (change.apply scope s).store
    scope.table.check = .ok () ∧ s.Reachable ∧
      (∃ e, (change.apply scope s).failures = .error e) ∧
      (∃ a ns, (change.select scope s).val = some a ∧ scope.Spells s a.target ns ∧
        s.GrownAlong after ns.leading) ∧
      after.tree.nodes = s.tree.nodes ++ #[⟨"1", 0⟩, ⟨"Ticks", 1⟩] := by
  intro scope s cpus change after
  have ht : scope.table.check = .ok () := rfl
  have hs : s.Reachable := Store.Reachable.empty.callEach _
  have hfails : (change.apply scope s).failures.toOption = none := by decide +kernel
  cases he : (change.apply scope s).failures with
  | ok u =>
      rw [he] at hfails
      cases hfails
  | error e => exact ⟨ht, hs, ⟨e, rfl⟩, intact_of_fails ht hs he, by decide +kernel⟩

end Change
end Chronicle
