import Chronicle.Proofs.Store.Chain
import Chronicle.Proofs.Store.Log

/-!
# What is recorded stands

Whatever calls follow, what a store has recorded of the past stands (`Store.Continues`): no closed
interval is changed or lost, those that are closed later come after them, and the value at a time
before the clock stays what it was.

The ongoing interval is not closed, and a write at its own start replaces its value. That does not
reach back: no write is earlier than the clock, so an interval that is replaced begins at the clock.
-/

namespace Chronicle

namespace Track

/-- One track goes on from another, which knows the time up to the clock.

* `since_le`: the ongoing interval does not begin earlier.
* `closed`: the closed intervals stay in front, and those that are new begin no earlier than the
  ongoing interval did.
* `valueAt`: the values before the clock stay. -/
structure Continues (clock : Option Int64) (k k' : Track) : Prop where
  since_le : ∀ b ∈ k.since, ∃ b' ∈ k'.since, b ≤ b'
  closed : ∃ more, k'.closed.toList = k.closed.toList ++ more ∧
    ∀ i ∈ more, ∀ b ∈ k.since, b ≤ i.start
  valueAt : ∀ w ∈ clock, ∀ t < w, k'.valueAt t = k.valueAt t

variable {clock : Option Int64} {k k₁ k₂ k₃ : Track}

/-- Nothing counts but the intervals. -/
theorem Continues.of_eq {k' : Track} (hongoing : k'.ongoing = k.ongoing)
    (hsince : k'.since = k.since) (hclosed : k'.closed = k.closed) : k.Continues clock k' where
  since_le b hb := ⟨b, hsince ▸ hb, Int64.le_refl b⟩
  closed := ⟨[], by rw [hclosed, List.append_nil], by simp⟩
  valueAt _ _ t _ := by rw [Track.valueAt, hongoing, hsince, hclosed, Track.valueAt]

theorem Continues.refl (clock : Option Int64) (k : Track) : k.Continues clock k :=
  .of_eq rfl rfl rfl

theorem Continues.trans {later : Option Int64} (h₁ : k₁.Continues clock k₂)
    (h₂ : k₂.Continues later k₃) (hclock : ∀ w ∈ clock, ∃ w' ∈ later, w ≤ w') :
    k₁.Continues clock k₃ where
  since_le b hb := by
    obtain ⟨b₁, hb₁, hle₁⟩ := h₁.since_le b hb
    obtain ⟨b₂, hb₂, hle₂⟩ := h₂.since_le b₁ hb₁
    exact ⟨b₂, hb₂, Int64.le_trans hle₁ hle₂⟩
  closed := by
    obtain ⟨more₁, hmore₁, hstart₁⟩ := h₁.closed
    obtain ⟨more₂, hmore₂, hstart₂⟩ := h₂.closed
    refine ⟨more₁ ++ more₂, by rw [hmore₂, hmore₁, List.append_assoc], fun i hi b hb => ?_⟩
    rcases List.mem_append.mp hi with hi | hi
    · exact hstart₁ i hi b hb
    · obtain ⟨b₁, hb₁, hle⟩ := h₁.since_le b hb
      exact Int64.le_trans hle (hstart₂ i hi b₁ hb₁)
  valueAt w hw t ht := by
    obtain ⟨w', hw', hle⟩ := hclock w hw
    rw [h₂.valueAt w' hw' t (Int64.lt_of_lt_of_le ht hle), h₁.valueAt w hw t ht]

/-- A mutation that is not late does not reach back. -/
theorem Tiled.continues_act {t : Int64} {m : Mutation} (h : k.Tiled (some t))
    (hclock : ∀ w ∈ clock, w ≤ t)
    (hsum : ∀ delta, m = .increment delta → ∃ n, k.sum delta = .ok n) :
    k.Continues clock (m.act t k) := by
  rcases Mutation.act_cases t hsum with ⟨v, stack, -, ha⟩ | ⟨-, -, ha⟩ | ⟨-, -, ha⟩
  · have hwrite : (m.act t k).since = some t ∧ (m.act t k).closed = (k.write t v).closed := by
      rw [ha]
      exact ⟨rfl, rfl⟩
    refine ⟨fun b hb => ⟨t, hwrite.1, h.since_le_of_some b hb⟩, ?_, fun w hw u hu => ?_⟩
    · rw [hwrite.2]
      rcases write_closed k t v with ⟨hc, -⟩ | ⟨s, hs, -, hc⟩
      · exact ⟨[], by rw [hc, List.append_nil], by simp⟩
      · refine ⟨[⟨s, t, k.ongoing⟩], hc, fun i hi b hb => ?_⟩
        obtain rfl := List.mem_singleton.mp hi
        exact Int64.le_of_eq (Option.some.inj (hb.symm.trans hs))
    · -- A value changes from the time of the mutation on, which is not before the clock.
      have hut := Int64.lt_of_lt_of_le hu (hclock w hw)
      rw [h.valueAt_act hsum, if_neg (Int64.not_le.mpr hut)]
  · rw [ha]
    exact .of_eq rfl rfl rfl
  · rw [ha]
    exact .refl clock k

end Track

namespace Store

/-- One store goes on from another: attributes keep their quarks, names and parents, the clock does
not go back, and each track goes on from what was recorded up to the clock. -/
structure Continues (s s' : Store) : Prop where
  tree : s.tree.GrowsTo s'.tree
  clock_le : ∀ w ∈ s.clock, ∃ w' ∈ s'.clock, w ≤ w'
  track : ∀ q, (s.track q).Continues s.clock (s'.track q)

variable {s s₁ s₂ s₃ : Store}

theorem Continues.refl (s : Store) : s.Continues s where
  tree := .refl s.tree
  clock_le w hw := ⟨w, hw, Int64.le_refl w⟩
  track _ := .refl _ _

theorem Continues.trans (h₁ : s₁.Continues s₂) (h₂ : s₂.Continues s₃) : s₁.Continues s₃ where
  tree := h₁.tree.trans h₂.tree
  clock_le w hw := by
    obtain ⟨w₁, hw₁, hle₁⟩ := h₁.clock_le w hw
    obtain ⟨w₂, hw₂, hle₂⟩ := h₂.clock_le w₁ hw₁
    exact ⟨w₂, hw₂, Int64.le_trans hle₁ hle₂⟩
  track q := (h₁.track q).trans (h₂.track q) h₁.clock_le

theorem GrowsTo.continues (h : s₁.GrowsTo s₂) : s₁.Continues s₂ where
  tree := h.tree
  clock_le w hw := ⟨w, h.clock.trans hw, Int64.le_refl w⟩
  track q := by rw [h.track]; exact .refl _ _

/-- A mutation that is accepted goes on from what is recorded. -/
theorem Accepts.continues {q : Quark} {t : Int64} {m : Mutation} (ha : s.Accepts q t m)
    (hs : s.Reachable) : s.Continues (s.perform q t m) where
  tree := by rw [perform_tree]; exact .refl _
  clock_le w hw := ⟨t, perform_clock, ha.clock_le w hw⟩
  track d := by
    rw [track_perform hs.tracks_size ha.contains]
    split
    · next hd =>
      have htiled := (hs.tiled d).advance ha.clock_le
      exact htiled.continues_act ha.clock_le (ha.sum_of_mem_reach hd)
    · exact .refl _ _

theorem Reachable.continues_call (hs : s.Reachable) (c : Call) : s.Continues (s.call c) := by
  rcases s.call_cases hs.tracks_size c with hc | ⟨parent, name, -, -, hc⟩ | ⟨q, t, m, -, ha, hc⟩
  · rw [hc]
    exact .refl s
  · rw [hc]
    exact (GrowsTo.withTree s (s.tree.growsTo_push _)).continues
  · rw [hc]
    exact ha.continues hs

/-- **Calls go on from what is recorded.** -/
theorem Reachable.continues {after : Store} (hs : s.Reachable) (h : s.LeadsTo after) :
    s.Continues after := by
  obtain ⟨calls, rfl⟩ := h
  induction calls generalizing s with
  | nil => exact .refl s
  | cons c rest ih => exact (hs.continues_call c).trans (ih (hs.call c))

end Store
end Chronicle
