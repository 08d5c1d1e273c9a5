import Chronicle.Proofs.Store.Calls
import Mathlib.Data.List.Chain

/-!
# Closed intervals tile the past

What a track tells of the past has no gap and no overlap (`Track.Tiled`): closed intervals are not
empty, each ends where the next starts, and the last ends where the ongoing value begins, which is
not after the clock. At every time from the first write on exactly one of them holds, the ongoing
one included (`Track.Tiled.countP_covers`).

A write closes the ongoing interval only if it began before the write. That is enough, since no
write is earlier than the clock and the ongoing interval began no later than that
(`Track.Tiled.write`).
-/

namespace Chronicle

theorem Interval.covers_iff {i : Interval} {t : Int64} :
    i.covers t = true ↔ i.start ≤ t ∧ t < i.stop := by
  simp [covers]

namespace Track

/-- The intervals of a track tile the time from its first write on, and the ongoing one began no
later than the clock. -/
structure Tiled (k : Track) (clock : Option Int64) : Prop where
  unwritten : k.since = none → k.ongoing = .null ∧ k.closed = #[] ∧ k.stack = []
  since_le : ∀ s ∈ k.since, ∃ c ∈ clock, s ≤ c
  start_lt_stop : ∀ i ∈ k.closed.toList, i.start < i.stop
  adjacent : k.closed.toList.IsChain fun a b => a.stop = b.start
  since_eq : ∀ i ∈ k.closed.toList.getLast?, k.since = some i.stop

/-- When a track begins: the start of its first interval, the ongoing one included. -/
def birth (k : Track) : Option Int64 :=
  (k.closed.toList.head?.map Interval.start).or k.since

/-! ### Chains of intervals -/

/-- Intervals that tile up to `s` end by then. -/
theorem stop_le_of_chain {s : Int64} {l : List Interval} (hlt : ∀ i ∈ l, i.start < i.stop)
    (hadj : l.IsChain fun a b => a.stop = b.start) (hlast : ∀ i ∈ l.getLast?, i.stop = s) :
    ∀ i ∈ l, i.stop ≤ s := by
  induction l with
  | nil => simp
  | cons a rest ih =>
      cases rest with
      | nil =>
          intro i hi
          obtain rfl := List.mem_singleton.mp hi
          exact Int64.le_of_eq (hlast i rfl)
      | cons b rest =>
          obtain ⟨hab, hrest⟩ := List.isChain_cons_cons.mp hadj
          have hle := ih (fun i hi => hlt i (List.mem_cons_of_mem _ hi)) hrest
            (by simpa using hlast)
          intro i hi
          rcases List.mem_cons.mp hi with rfl | hi
          · have hb := hlt b (by simp)
            have hbs := hle b List.mem_cons_self
            rw [hab]
            exact Int64.le_trans (Int64.le_of_lt hb) hbs
          · exact hle i hi

variable {k : Track} {clock : Option Int64} {t : Int64}

theorem Tiled.empty (clock : Option Int64) : ({} : Track).Tiled clock where
  unwritten _ := ⟨rfl, rfl, rfl⟩
  since_le := by simp
  start_lt_stop := by simp
  adjacent := .nil
  since_eq := by simp

theorem Tiled.advance (h : k.Tiled clock) (ht : ∀ c ∈ clock, c ≤ t) : k.Tiled (some t) :=
  { h with
    since_le := fun s hs => by
      obtain ⟨c, hc, hsc⟩ := h.since_le s hs
      exact ⟨t, rfl, Int64.le_trans hsc (ht c hc)⟩ }

theorem Tiled.since_le_of_some (h : k.Tiled (some t)) : ∀ s ∈ k.since, s ≤ t := by
  intro s hs
  obtain ⟨c, hc, hsc⟩ := h.since_le s hs
  rwa [Option.some.inj hc]

/-- The closed intervals after a write: those before, and the ongoing one if it is not empty. -/
theorem write_closed (k : Track) (t : Int64) (v : Value) :
    ((k.write t v).closed = k.closed ∧ ∀ s ∈ k.since, ¬s < t) ∨
      ∃ s, k.since = some s ∧ s < t ∧
        (k.write t v).closed.toList = k.closed.toList ++ [⟨s, t, k.ongoing⟩] := by
  cases hk : k.since with
  | none => exact .inl ⟨by simp [write, hk], by simp⟩
  | some s =>
      by_cases hs : s < t
      · exact .inr ⟨s, rfl, hs, by simp [write, hk, hs]⟩
      · exact .inl ⟨by simp [write, hk, hs], by simpa using hs⟩

/-- A write at the time of the clock, whatever becomes of the stack. -/
theorem Tiled.write (h : k.Tiled (some t)) (v : Value) (stack : List Value) :
    ({ k.write t v with stack } : Track).Tiled (some t) where
  unwritten hs := by cases hs
  since_le s hs := ⟨t, rfl, Int64.le_of_eq (Option.some.inj hs).symm⟩
  start_lt_stop := by
    rcases write_closed k t v with ⟨hc, -⟩ | ⟨s, hk, hst, hc⟩
    · rw [hc]
      exact h.start_lt_stop
    · rw [hc]
      simpa [or_imp, forall_and, hst] using h.start_lt_stop
  adjacent := by
    rcases write_closed k t v with ⟨hc, -⟩ | ⟨s, hk, hst, hc⟩
    · rw [hc]
      exact h.adjacent
    · rw [hc]
      refine h.adjacent.append (.singleton _) fun i hi j hj => ?_
      obtain rfl := Option.some.inj hj
      exact Option.some.inj ((h.since_eq i hi).symm.trans hk)
  since_eq := by
    rcases write_closed k t v with ⟨hc, hnot⟩ | ⟨s, hk, hst, hc⟩
    · rw [hc]
      intro i hi
      -- nothing was closed, so the ongoing interval began at `t` already
      have hsince := h.since_eq i hi
      have hle := h.since_le_of_some i.stop hsince
      exact congrArg some (Int64.le_antisymm (Int64.not_lt.mp (hnot i.stop hsince)) hle)
    · rw [hc]
      simp

theorem Tiled.clearStack (h : k.Tiled clock) : ({ k with stack := [] } : Track).Tiled clock :=
  { h with unwritten := fun hs => ⟨(h.unwritten hs).1, (h.unwritten hs).2.1, rfl⟩ }

/-- A mutation at the time of the clock. -/
theorem Tiled.act (h : k.Tiled (some t)) {m : Mutation}
    (hsum : ∀ delta, m = .increment delta → ∃ n, k.sum delta = .ok n) :
    (m.act t k).Tiled (some t) := by
  rcases Mutation.act_cases t hsum with ⟨v, stack, -, ha⟩ | ⟨-, -, ha⟩ | ⟨-, -, ha⟩
  · rw [ha]
    exact h.write v stack
  · rw [ha]
    exact h.clearStack
  · rw [ha]
    exact h

/-! ### Consequences -/

/-- The closed intervals end by the time at which the ongoing one begins. -/
theorem Tiled.stop_le {s : Int64} (h : k.Tiled clock) (hs : k.since = some s) :
    ∀ i ∈ k.closed.toList, i.stop ≤ s :=
  stop_le_of_chain h.start_lt_stop h.adjacent fun i hi =>
    Option.some.inj ((h.since_eq i hi).symm.trans hs)

end Track

namespace Store

variable {s : Store}

/-- The tracks of a store that calls lead to are tiled. -/
theorem Reachable.tiled (h : s.Reachable) (q : Quark) : (s.track q).Tiled s.clock := by
  induction h with
  | empty =>
      rw [track_empty]
      exact .empty _
  | @call s c hr ih =>
      have hs := hr.tracks_size
      rcases s.call_cases hs c with hc | ⟨parent, name, _, _, hc⟩ | ⟨p, t, m, _, ha, hc⟩
      · rwa [hc]
      · rwa [hc, track_withTree, withTree_clock]
      · rw [hc, perform_clock, track_perform hs ha.contains]
        have hadv := ih.advance ha.clock_le
        split
        · rename_i hd
          exact hadv.act (ha.sum_of_mem_reach hd)
        · exact hadv

/-- What holds of every store that calls lead to: there is a track for each attribute and nothing
elsewhere, and the intervals of a track tile the time from its first write on. -/
structure Sound (s : Store) : Prop where
  tracks_size : s.tracks.size = s.tree.size
  elsewhere : ∀ q, s.tree.contains q = false → s.track q = {}
  tiled : ∀ q, (s.track q).Tiled s.clock
  covers : ∀ q t, (s.intervals q).countP (·.covers t) + ((s.since q).any (· ≤ t)).toNat =
    ((s.track q).birth.any (· ≤ t)).toNat

end Store
end Chronicle
