import Chronicle.Proofs.Store.Calls

/-!
# The present of a store

The present of a store is its attributes, what each of them holds, the stacks and the clock. Its past
is what it has recorded: the closed intervals, and since when an attribute holds what it holds.

A mutation looks at the present only, though what it records depends on the past. So two stores of
one present accept and refuse the same, in the same words, and have one present afterwards
(`Store.SamePresent.mutate`).
-/

namespace Chronicle

namespace Track

/-- The tracks hold the same, now and on the stack. -/
structure SamePresent (k k' : Track) : Prop where
  ongoing : k'.ongoing = k.ongoing
  stack : k'.stack = k.stack

variable {k k' : Track}

instance : Decidable (k.SamePresent k') :=
  decidable_of_iff (k'.ongoing = k.ongoing ∧ k'.stack = k.stack)
    ⟨fun h => ⟨h.1, h.2⟩, fun h => ⟨h.ongoing, h.stack⟩⟩

/-- Whatever is closed by a write, and since whenever, it is the past. -/
theorem SamePresent.write (t : Int64) (v : Value) (stack : List Value) :
    ({ k.write t v with stack } : Track).SamePresent { k'.write t v with stack } :=
  ⟨rfl, rfl⟩

theorem SamePresent.sum (h : k.SamePresent k') (delta : Int32) : k'.sum delta = k.sum delta := by
  rw [Track.sum, Track.sum, h.ongoing]

/-- A mutation acts alike on one present. -/
theorem SamePresent.act (h : k.SamePresent k') (t : Int64) (m : Mutation) :
    (m.act t k).SamePresent (m.act t k') := by
  cases m with
  | set v => exact .write t v []
  | increment delta =>
      rw [Mutation.act, Mutation.act, increment, increment, h.sum]
      cases k.sum delta with
      | ok n => exact ⟨rfl, h.stack⟩
      | error e => exact h
  | push v =>
      rw [Mutation.act, Mutation.act, push, push, h.stack]
      exact .write t v _
  | pop =>
      rw [Mutation.act, Mutation.act, pop, pop, h.stack]
      cases k.stack with
      | nil => exact h
      | cons v rest => exact .write t _ rest
  | remove =>
      have hongoing := h.ongoing
      rw [Mutation.act, Mutation.act, clear, clear]
      simp only [hongoing]
      split
      · exact ⟨rfl, rfl⟩
      · exact .write t .null []

end Track

namespace Store

/-- The stores have the same attributes, values, stacks and clock; what they have recorded may
differ. -/
structure SamePresent (s s' : Store) : Prop where
  tree : s'.tree = s.tree
  ongoing : ∀ q, s'.ongoing q = s.ongoing q
  stack : ∀ q, (s'.track q).stack = (s.track q).stack
  clock : s'.clock = s.clock

variable {s s' : Store}

theorem SamePresent.track (h : s.SamePresent s') (q : Quark) :
    (s.track q).SamePresent (s'.track q) :=
  ⟨h.ongoing q, h.stack q⟩

/-- Stores have one present if each track does. -/
theorem samePresent_of_track (htree : s'.tree = s.tree) (hclock : s'.clock = s.clock)
    (h : ∀ q, (s.track q).SamePresent (s'.track q)) : s.SamePresent s' where
  tree := htree
  ongoing q := (h q).ongoing
  stack q := (h q).stack
  clock := hclock

/-- An attribute that is not there has no past. -/
theorem samePresent_of_quarks (hs : s.tracks.size = s.tree.size)
    (hs' : s'.tracks.size = s'.tree.size) (htree : s'.tree = s.tree) (hclock : s'.clock = s.clock)
    (h : ∀ q ∈ s.tree.quarks, (s.track q).SamePresent (s'.track q)) : s.SamePresent s' := by
  refine samePresent_of_track htree hclock fun q => ?_
  cases hq : s.tree.contains q with
  | true => exact h q (Tree.mem_quarks.mpr hq)
  | false =>
      rw [track_of_not_contains hs hq, track_of_not_contains hs' (htree ▸ hq)]
      exact ⟨rfl, rfl⟩

/-- What is new was never written, and so has no past. -/
theorem SamePresent.withTree (h : s.SamePresent s') (tree : Tree) :
    (s.withTree tree).SamePresent (s'.withTree tree) :=
  samePresent_of_track rfl h.clock fun q => by
    rw [track_withTree, track_withTree]
    exact h.track q

variable (h : s.SamePresent s') (q : Quark) (t : Int64) (m : Mutation)

include h

theorem SamePresent.permit : s'.permit q t = s.permit q t := by
  rw [Store.permit, Store.permit, h.tree, h.clock]

theorem SamePresent.addsUp : s'.addsUp q m = s.addsUp q m := by
  cases m with
  | increment delta => rw [Store.addsUp, Store.addsUp, (h.track q).sum, h.tree]
  | _ => rfl

variable (hs : s.tracks.size = s.tree.size) (hs' : s'.tracks.size = s'.tree.size)

include hs hs'

theorem SamePresent.perform (hq : s.tree.contains q = true) :
    (s.perform q t m).SamePresent (s'.perform q t m) := by
  refine samePresent_of_track ?_ ?_ fun d => ?_
  · rw [perform_tree, perform_tree, h.tree]
  · rw [perform_clock, perform_clock]
  · rw [track_perform hs hq, track_perform hs' (h.tree ▸ hq), h.tree]
    split
    · exact (h.track d).act t m
    · exact h.track d

/-- **A mutation that one store accepts is accepted on its present, and one that it refuses is
refused in the same words.** -/
theorem SamePresent.mutate :
    (∃ r, s.mutate q t m = .error r ∧ s'.mutate q t m = .error r) ∨
      ∃ after after', s.mutate q t m = .ok after ∧ s'.mutate q t m = .ok after' ∧
        after.SamePresent after' := by
  rw [mutate_eq, mutate_eq, h.permit, h.addsUp]
  cases hp : s.permit q t with
  | error r => exact .inl ⟨r, rfl, rfl⟩
  | ok u =>
      cases s.addsUp q m with
      | error r => exact .inl ⟨r, rfl, rfl⟩
      | ok u =>
          exact .inr ⟨_, _, rfl, rfl, h.perform q t m hs hs' (permit_eq_ok_iff.mp hp).1⟩

end Store
end Chronicle
