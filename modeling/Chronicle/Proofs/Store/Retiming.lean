import Chronicle.Proofs.Store.Tiling
import Mathlib.Data.List.Find

/-!
# Times under another name

Let `f` give other names to times, and let it keep the order of those that occur
(`IncreasingOn`). A store whose times are renamed by `f` (`Store.retime`) tells at renamed times
what the store told (`Store.valueAt_retime`), and a mutation at a renamed time does to it what the
mutation did to the store (`Store.mutate_retime`): all that a store does with times is to compare
those that it has with the one that comes, and to keep them.
-/

namespace Chronicle

/-- The function keeps the order of the times in `T`. -/
def IncreasingOn (f : Int64 → Int64) (T : Int64 → Prop) : Prop :=
  ∀ a b, T a → T b → a < b → f a < f b

namespace IncreasingOn

variable {f : Int64 → Int64} {T : Int64 → Prop} {a b : Int64}

theorem lt_iff (hf : IncreasingOn f T) (ha : T a) (hb : T b) : f a < f b ↔ a < b := by
  refine ⟨fun h => ?_, hf a b ha hb⟩
  by_cases hlt : a < b
  · exact hlt
  · exfalso
    by_cases heq : b = a
    · exact Int64.lt_irrefl (heq ▸ h)
    · have hba := hf b a hb ha (Int64.lt_of_le_of_ne (Int64.not_lt.mp hlt) heq)
      exact Int64.lt_irrefl (Int64.lt_trans h hba)

theorem le_iff (hf : IncreasingOn f T) (ha : T a) (hb : T b) : f a ≤ f b ↔ a ≤ b := by
  rw [← Int64.not_lt, ← Int64.not_lt, hf.lt_iff hb ha]

end IncreasingOn

/-! ### Tracks -/

/-- The interval with its ends renamed. -/
def Interval.retime (f : Int64 → Int64) (i : Interval) : Interval :=
  ⟨f i.start, f i.stop, i.value⟩

namespace Track

/-- The track with its times renamed. -/
def retime (f : Int64 → Int64) (k : Track) : Track :=
  { k with
    since := k.since.map f
    closed := k.closed.map (Interval.retime f) }

/-- The times that the track knows of are in `T`. -/
structure TimesIn (T : Int64 → Prop) (k : Track) : Prop where
  since : ∀ s ∈ k.since, T s
  closed : ∀ i ∈ k.closed, T i.start ∧ T i.stop

variable {f : Int64 → Int64} {T : Int64 → Prop} {k : Track} {t : Int64}

theorem retime_empty (f : Int64 → Int64) : ({} : Track).retime f = {} := by
  simp [retime]

theorem TimesIn.empty (T : Int64 → Prop) : ({} : Track).TimesIn T :=
  ⟨by simp, by simp⟩

theorem TimesIn.write (hk : k.TimesIn T) (ht : T t) (v : Value) (stack : List Value) :
    ({ k.write t v with stack } : Track).TimesIn T := by
  refine ⟨?_, ?_⟩
  · rintro s ⟨rfl⟩
    exact ht
  · intro i hi
    rcases write_closed k t v with ⟨hc, -⟩ | ⟨s, hs, -, hc⟩
    · exact hk.closed i (hc ▸ hi)
    · have hmem : i ∈ k.closed.toList ++ [⟨s, t, k.ongoing⟩] := hc ▸ Array.mem_toList_iff.mpr hi
      rcases List.mem_append.mp hmem with hmem | hmem
      · exact hk.closed i (Array.mem_toList_iff.mp hmem)
      · obtain rfl := List.mem_singleton.mp hmem
        exact ⟨hk.since s hs, ht⟩

/-- A mutation adds its own time at most. -/
theorem TimesIn.act (hk : k.TimesIn T) (ht : T t) (m : Mutation) : (m.act t k).TimesIn T := by
  cases m with
  | set v => exact hk.write ht v []
  | increment delta =>
      rw [Mutation.act, increment]
      cases k.sum delta with
      | ok n => exact hk.write ht (.int n) k.stack
      | error e => exact hk
  | push v => exact hk.write ht v (v :: k.stack)
  | pop =>
      rw [Mutation.act, pop]
      cases k.stack with
      | nil => exact hk
      | cons v rest => exact hk.write ht (rest.headD .null) rest
  | remove =>
      rw [Mutation.act, clear]
      split
      · exact ⟨hk.since, hk.closed⟩
      · exact hk.write ht .null []

/-- What is closed by a write is closed by the renamed write. -/
theorem retime_write (hf : IncreasingOn f T) (hk : k.TimesIn T) (ht : T t) (v : Value) :
    (k.write t v).retime f = (k.retime f).write (f t) v := by
  cases hs : k.since with
  | none => simp [write, retime, hs]
  | some s =>
      have hlt := hf.lt_iff (hk.since s hs) ht
      by_cases hst : s < t
      · simp [write, retime, hs, hst, hlt, Interval.retime]
      · simp [write, retime, hs, hst, hlt]

/-- **A mutation acts at a renamed time as it acted.** -/
theorem retime_act (hf : IncreasingOn f T) (hk : k.TimesIn T) (ht : T t) (m : Mutation) :
    (m.act t k).retime f = m.act (f t) (k.retime f) := by
  have hwrite : ∀ v stack, ({ k.write t v with stack } : Track).retime f =
      { (k.retime f).write (f t) v with stack } := by
    intro v stack
    rw [← retime_write hf hk ht]
    rfl
  cases m with
  | set v => exact hwrite v []
  | increment delta =>
      have hsum : (k.retime f).sum delta = k.sum delta := rfl
      rw [Mutation.act, Mutation.act, increment, increment, hsum]
      cases k.sum delta with
      | ok n => exact retime_write hf hk ht (.int n)
      | error e => rfl
  | push v => exact hwrite v (v :: k.stack)
  | pop =>
      have hstack : (k.retime f).stack = k.stack := rfl
      rw [Mutation.act, Mutation.act, pop, pop, hstack]
      cases k.stack with
      | nil => rfl
      | cons v rest => exact hwrite (rest.headD .null) rest
  | remove =>
      have hongoing : (k.retime f).ongoing = k.ongoing := rfl
      rw [Mutation.act, Mutation.act, clear, clear]
      simp only [hongoing]
      split
      · rfl
      · exact hwrite .null []

theorem covers_retime (hf : IncreasingOn f T) {i : Interval} (hi : T i.start ∧ T i.stop)
    (ht : T t) : (i.retime f).covers (f t) = i.covers t := by
  rw [Bool.eq_iff_iff, Interval.covers_iff, Interval.covers_iff]
  exact and_congr (hf.le_iff hi.1 ht) (hf.lt_iff ht hi.2)

/-- A renamed track tells at a renamed time what the track told. -/
theorem valueAt_retime (hf : IncreasingOn f T) (hk : k.TimesIn T) (ht : T t) :
    (k.retime f).valueAt (f t) = k.valueAt t := by
  have hfind : (k.retime f).closed.find? (·.covers (f t)) =
      (k.closed.find? (·.covers t)).map (Interval.retime f) := by
    have hmem : ∀ i ∈ k.closed.toList,
        ((·.covers (f t)) ∘ Interval.retime f) i = i.covers t := fun i hi =>
      covers_retime hf (hk.closed i (Array.mem_toList_iff.mp hi)) ht
    rw [retime, Array.find?_map, ← Array.find?_toList, ← Array.find?_toList,
      List.find?_congr hmem]
  unfold valueAt
  rw [hfind]
  cases k.closed.find? (·.covers t) with
  | some i => rfl
  | none =>
      cases hs : k.since with
      | none => simp [retime, hs]
      | some s => simp [retime, hs, hf.le_iff (hk.since s hs) ht]

end Track

/-! ### Stores -/

namespace Store

/-- The store with all its times renamed. -/
def retime (f : Int64 → Int64) (s : Store) : Store :=
  { s with
    tracks := s.tracks.map (Track.retime f)
    clock := s.clock.map f }

/-- The refusal with its times renamed. -/
def Refusal.retime (f : Int64 → Int64) : Refusal → Refusal
  | .late t c => .late (f t) (f c)
  | r => r

/-- The times that the store knows of are in `T`. -/
structure TimesIn (T : Int64 → Prop) (s : Store) : Prop where
  clock : ∀ c ∈ s.clock, T c
  track : ∀ q, (s.track q).TimesIn T

variable {f : Int64 → Int64} {T : Int64 → Prop} {s : Store} {q : Quark} {t : Int64} {m : Mutation}

/-- A store is its tree, its clock and what is recorded of each attribute. -/
theorem ext_track {s s' : Store} (hs : s.tracks.size = s.tree.size)
    (hs' : s'.tracks.size = s'.tree.size) (htree : s.tree = s'.tree) (hclock : s.clock = s'.clock)
    (htrack : ∀ q, s.track q = s'.track q) : s = s' := by
  have htracks : s.tracks = s'.tracks := by
    refine Array.ext (by rw [hs, hs', htree]) fun i hi hi' => ?_
    have hq := htrack (Int.ofNat i)
    simpa [track, Int.toNat?, hi, hi'] using hq
  obtain ⟨tree, tracks, clock⟩ := s
  obtain rfl : tree = s'.tree := htree
  obtain rfl : tracks = s'.tracks := htracks
  obtain rfl : clock = s'.clock := hclock
  rfl

theorem track_retime (f : Int64 → Int64) (s : Store) (q : Quark) :
    (s.retime f).track q = (s.track q).retime f := by
  unfold track retime
  cases q.toNat? with
  | none => simp [Track.retime_empty]
  | some i =>
      simp only [Option.bind_some, Array.getElem?_map]
      cases s.tracks[i]? with
      | none => simp [Track.retime_empty]
      | some k => rfl

@[simp] theorem retime_tree : (s.retime f).tree = s.tree := rfl

theorem retime_tracks_size (hs : s.tracks.size = s.tree.size) :
    (s.retime f).tracks.size = (s.retime f).tree.size := by
  simpa [retime] using hs

theorem retime_withTree (f : Int64 → Int64) (s : Store) (tree : Tree) :
    (s.withTree tree).retime f = (s.retime f).withTree tree := by
  simp [retime, withTree, Track.retime_empty]

theorem TimesIn.perform (hs : s.tracks.size = s.tree.size) (hq : s.tree.contains q = true)
    (h : s.TimesIn T) (ht : T t) (m : Mutation) : (s.perform q t m).TimesIn T := by
  refine ⟨fun c hc => ?_, fun d => ?_⟩
  · rw [perform_clock] at hc
    exact Option.some.inj hc ▸ ht
  · rw [track_perform hs hq]
    split
    · exact (h.track d).act ht m
    · exact h.track d

/-- **A mutation is performed at a renamed time as it was performed.** -/
theorem retime_perform (hs : s.tracks.size = s.tree.size) (hf : IncreasingOn f T)
    (h : s.TimesIn T) (ht : T t) (hq : s.tree.contains q = true) (m : Mutation) :
    (s.perform q t m).retime f = (s.retime f).perform q (f t) m := by
  have hs' := retime_tracks_size (f := f) hs
  refine ext_track (retime_tracks_size ?_) ?_ ?_ ?_ fun d => ?_
  · rw [perform_tracks_size, perform_tree, hs]
  · rw [perform_tracks_size, perform_tree, hs']
  · simp only [retime_tree, perform_tree]
  · rw [perform_clock]
    exact congrArg (Option.map f) perform_clock
  · rw [track_retime, track_perform hs hq, track_perform hs' hq, track_retime, retime_tree]
    split
    · exact Track.retime_act hf (h.track d) ht m
    · rfl

theorem permit_retime (hf : IncreasingOn f T) (h : s.TimesIn T) (ht : T t) :
    (s.retime f).permit q (f t) = (s.permit q t).mapError (Refusal.retime f) := by
  unfold permit
  rw [retime_tree]
  split
  · cases hc : s.clock with
    | none => simp [retime, hc, Except.mapError]
    | some c =>
        have hlt := hf.lt_iff ht (h.clock c hc)
        by_cases htc : t < c
        · simp [retime, hc, htc, hlt, Except.mapError, Refusal.retime]
        · simp [retime, hc, htc, hlt, Except.mapError]
  · rfl

theorem addsUp_retime :
    (s.retime f).addsUp q m = (s.addsUp q m).mapError (Refusal.retime f) := by
  cases m with
  | increment delta =>
      have hsum : ((s.retime f).track q).sum delta = (s.track q).sum delta := by
        rw [track_retime]
        rfl
      rw [addsUp, addsUp, hsum]
      cases (s.track q).sum delta with
      | ok n => rfl
      | error e => cases e <;> rfl
  | _ => rfl

/-- **A mutation is accepted at a renamed time as it was accepted, and refused as it was
refused.** -/
theorem mutate_retime (hs : s.tracks.size = s.tree.size) (hf : IncreasingOn f T)
    (h : s.TimesIn T) (ht : T t) (m : Mutation) :
    (s.retime f).mutate q (f t) m =
      ((s.mutate q t m).map (retime f)).mapError (Refusal.retime f) := by
  rw [mutate_eq, mutate_eq, permit_retime hf h ht, addsUp_retime]
  cases hp : s.permit q t with
  | error r => rfl
  | ok u =>
      obtain ⟨hq, -⟩ := permit_eq_ok_iff.mp hp
      rw [← retime_perform hs hf h ht hq]
      cases s.addsUp q m <;> rfl

theorem valueAt_retime (hf : IncreasingOn f T) (h : s.TimesIn T) (ht : T t) (q : Quark) :
    (s.retime f).valueAt q (f t) = s.valueAt q t := by
  rw [valueAt, valueAt, track_retime]
  exact Track.valueAt_retime hf (h.track q) ht

end Store
end Chronicle
