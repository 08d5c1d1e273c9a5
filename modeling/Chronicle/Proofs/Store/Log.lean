import Chronicle.Proofs.Store.Tiling

/-!
# A store answers from its log

A log lists the values that mutations wrote, in order, each with its attribute and its time
(`Store.log`). It knows nothing of intervals: the value at a time is that of the last write at or
before it. A store tells the same (`Store.Answers`), though it keeps intervals, forgets what a
second write at the same time replaces, and leaves an attribute alone that holds nothing when it is
removed.

The log takes from the store only what a mutation is told: the value that is held where something is
added to it, the stack where a value is taken off it, and the attributes that are there.
-/

namespace Chronicle

/-- A value that was written to an attribute. -/
structure Write where
  quark : Quark
  time : Int64
  value : Value
deriving DecidableEq, Repr

/-- The value of the last write to `q` among those at the times `during`; `null` if there is
none. -/
def latest (log : List Write) (q : Quark) (during : Int64 → Bool) : Value :=
  match log.reverse.find? fun w => w.quark == q && during w.time with
  | some w => w.value
  | none => .null

/-- One more write is the latest if it is to the attribute and at one of the times. -/
theorem latest_concat (log : List Write) (w : Write) (q : Quark) (during : Int64 → Bool) :
    latest (log ++ [w]) q during =
      if w.quark = q ∧ during w.time = true then w.value else latest log q during := by
  unfold latest
  rw [List.reverse_concat, List.find?_cons]
  by_cases h : w.quark = q ∧ during w.time = true
  · simp [h]
  · rw [if_neg h]
    have hf : (w.quark == q && during w.time) = false := by simpa using h
    rw [hf]

/-- Writes at one time to attributes without repetition: for each of them the latest is its own. -/
theorem latest_append_filterMap (t : Int64) (written? : Quark → Option Value) (q : Quark)
    (during : Int64 → Bool) (ds : List Quark) (hn : ds.Nodup) (log : List Write) :
    latest (log ++ ds.filterMap fun d => (written? d).map fun v => ⟨d, t, v⟩) q during =
      if q ∈ ds ∧ during t = true then (written? q).getD (latest log q during)
      else latest log q during := by
  induction ds generalizing log with
  | nil => simp
  | cons d rest ih =>
      obtain ⟨hd, hn⟩ := List.nodup_cons.mp hn
      cases hw : written? d with
      | none =>
          rw [List.filterMap_cons_none (by rw [hw]; rfl), ih hn]
          by_cases hq : q = d
          · subst hq
            simp [hw]
          · simp [hq]
      | some v =>
          rw [List.filterMap_cons_some (b := ⟨d, t, v⟩) (by rw [hw]; rfl), List.append_cons, ih hn,
            latest_concat]
          by_cases hq : q = d
          · subst hq
            simp [hd, hw]
          · simp [hq, Ne.symm hq]

namespace Track

variable {k : Track} {clock : Option Int64} {t u : Int64} {m : Mutation}

/-- From the time on at which the ongoing value began it is the value. -/
theorem Tiled.valueAt_of_since_le (h : k.Tiled clock) (hu : ∀ s ∈ k.since, s ≤ u) :
    k.valueAt u = k.ongoing := by
  unfold valueAt
  cases hs : k.since with
  | none => simp [(h.unwritten hs).2.1, (h.unwritten hs).1]
  | some s =>
      have hsu := hu s hs
      have hnone : k.closed.find? (·.covers u) = none := by
        rw [← Array.find?_toList, List.find?_eq_none]
        intro i hi hc
        have hstop := h.stop_le hs i hi
        have hlt := (Interval.covers_iff.mp hc).2
        exact Int64.lt_irrefl (Int64.lt_of_lt_of_le hlt (Int64.le_trans hstop hsu))
      simp [hnone, hsu]

/-- A write changes the value from its time on, and at no time before. -/
theorem Tiled.valueAt_write (h : k.Tiled (some t)) (v : Value) (stack : List Value) (u : Int64) :
    ({ k.write t v with stack } : Track).valueAt u = if t ≤ u then v else k.valueAt u := by
  by_cases htu : t ≤ u
  · rw [if_pos htu, (h.write v stack).valueAt_of_since_le]
    · rfl
    · intro s hs
      rwa [← Option.some.inj hs]
  · rw [if_neg htu]
    have hopen : ({ k.write t v with stack } : Track).valueAt u =
        ((k.write t v).closed.toList.find? (·.covers u)).elim .null Interval.value := by
      unfold valueAt
      rw [← Array.find?_toList]
      cases (k.write t v).closed.toList.find? (·.covers u) <;> simp [htu]
    rw [hopen]
    unfold valueAt
    rw [← Array.find?_toList]
    rcases write_closed k t v with ⟨hc, hnot⟩ | ⟨s, hk, hst, hc⟩
    · rw [hc]
      cases k.closed.toList.find? (·.covers u) with
      | some i => rfl
      | none =>
          cases hs : k.since with
          | none => rfl
          | some s =>
              -- the ongoing interval began at `t`, which is after `u`
              have hsu : ¬s ≤ u := fun hsu =>
                htu (Int64.le_trans (Int64.not_lt.mp (hnot s hs)) hsu)
              simp [hsu]
    · rw [hc, List.find?_append]
      cases k.closed.toList.find? (·.covers u) with
      | some i => rfl
      | none =>
          have hut : u < t := Int64.not_le.mp htu
          by_cases hsu : s ≤ u <;> simp [hk, hsu, hut, Interval.covers]

/-- What a mutation does to the values that a track tells. -/
theorem Tiled.valueAt_act (h : k.Tiled (some t))
    (hsum : ∀ delta, m = .increment delta → ∃ n, k.sum delta = .ok n) (u : Int64) :
    (m.act t k).valueAt u =
      if t ≤ u then (m.written? k).getD (k.valueAt u) else k.valueAt u := by
  rcases Mutation.act_cases t hsum with ⟨v, stack, hw, ha⟩ | ⟨rfl, hk, ha⟩ | ⟨rfl, hk, ha⟩
  · rw [ha, hw, h.valueAt_write, Option.getD_some]
  · have hstack : ({ k with stack := [] } : Track).valueAt u = k.valueAt u := rfl
    rw [ha, hstack]
    by_cases htu : t ≤ u
    · -- nothing is held from `t` on, with or without the write
      rw [if_pos htu, h.valueAt_of_since_le fun s hs =>
        Int64.le_trans (h.since_le_of_some s hs) htu, hk]
      rfl
    · rw [if_neg htu]
  · rw [ha]
    simp [Mutation.written?, hk]

theorem ongoing_act (hsum : ∀ delta, m = .increment delta → ∃ n, k.sum delta = .ok n) :
    (m.act t k).ongoing = (m.written? k).getD k.ongoing := by
  rcases Mutation.act_cases t hsum with ⟨v, stack, hw, ha⟩ | ⟨rfl, hk, ha⟩ | ⟨rfl, hk, ha⟩
  · rw [ha, hw]
    rfl
  · rw [ha]
    exact hk
  · rw [ha]
    simp [Mutation.written?, hk]

end Track

namespace Store

/-- What a call writes: nothing if it is refused or creates an attribute, and otherwise what the
mutation writes to each attribute that it reaches. -/
def writes (s : Store) : Call → List Write
  | .create _ _ => []
  | .mutate q t m =>
    if (s.mutate q t m).isOk then
      (m.reach s.tree q).filterMap fun d => (m.written? (s.track d)).map fun v => ⟨d, t, v⟩
    else []

/-- The writes of calls in order. -/
def log (s : Store) : List Call → List Write
  | [] => []
  | c :: rest => s.writes c ++ (s.call c).log rest

/-- The store tells the values that the log tells. -/
structure Answers (s : Store) (log : List Write) : Prop where
  valueAt : ∀ q t, s.valueAt q t = latest log q (· ≤ t)
  ongoing : ∀ q, s.ongoing q = latest log q fun _ => true

variable {s : Store} {log : List Write}

theorem Answers.of_track_eq {after : Store} (h : s.Answers log)
    (ht : ∀ q, after.track q = s.track q) : after.Answers log where
  valueAt q t := by rw [Store.valueAt, ht, ← h.valueAt, Store.valueAt]
  ongoing q := by rw [Store.ongoing, ht, ← h.ongoing, Store.ongoing]

theorem writes_of_accepts {q : Quark} {t : Int64} {m : Mutation} (h : s.Accepts q t m) :
    s.writes (.mutate q t m) =
      (m.reach s.tree q).filterMap fun d => (m.written? (s.track d)).map fun v => ⟨d, t, v⟩ := by
  rw [writes, mutate_eq_ok_iff.mpr ⟨h, rfl⟩]
  rfl

theorem writes_of_not_accepts {q : Quark} {t : Int64} {m : Mutation} (h : ¬s.Accepts q t m) :
    s.writes (.mutate q t m) = [] := by
  obtain ⟨e, he⟩ := mutate_error_of_not_accepts h
  rw [writes, he]
  rfl

/-- A mutation that is accepted changes the values as its writes change the log. -/
theorem Answers.perform (h : s.Answers log) (hr : s.Reachable) {q : Quark} {t : Int64}
    {m : Mutation} (ha : s.Accepts q t m) :
    (s.perform q t m).Answers (log ++ s.writes (.mutate q t m)) := by
  rw [writes_of_accepts ha]
  have hn := m.nodup_reach s.tree q
  have htiled := fun d => (hr.tiled d).advance ha.clock_le
  constructor
  · intro d u
    rw [latest_append_filterMap t _ d _ _ hn, ← h.valueAt, Store.valueAt,
      track_perform hr.tracks_size ha.contains]
    by_cases hd : d ∈ m.reach s.tree q
    · rw [if_pos hd, (htiled d).valueAt_act (ha.sum_of_mem_reach hd)]
      simp only [hd, true_and, decide_eq_true_eq]
      rfl
    · simp only [hd, false_and, if_false]
      rfl
  · intro d
    rw [latest_append_filterMap t _ d _ _ hn, ← h.ongoing, Store.ongoing,
      track_perform hr.tracks_size ha.contains]
    by_cases hd : d ∈ m.reach s.tree q
    · rw [if_pos hd, Track.ongoing_act (ha.sum_of_mem_reach hd)]
      simp only [hd, true_and, if_true]
      rfl
    · simp only [hd, false_and, if_false]
      rfl

theorem Answers.call (h : s.Answers log) (hr : s.Reachable) (c : Call) :
    (s.call c).Answers (log ++ s.writes c) := by
  cases c with
  | create parent name =>
      rw [writes, List.append_nil]
      exact h.of_track_eq (s.track_call_create parent name)
  | mutate q t m =>
      by_cases ha : s.Accepts q t m
      · rw [call_mutate_of_accepts ha]
        exact h.perform hr ha
      · rw [call_mutate_of_not_accepts ha, writes_of_not_accepts ha, List.append_nil]
        exact h

/-- Calls add their writes to what the store answers. -/
theorem Answers.callEach (h : s.Answers log) (hr : s.Reachable) (calls : List Call) :
    (s.callEach calls).Answers (log ++ s.log calls) := by
  induction calls generalizing s log with
  | nil => simpa [Store.callEach, Store.log] using h
  | cons c rest ih =>
      have hrest := ih (h.call hr c) (hr.call c)
      rwa [List.append_assoc] at hrest

theorem answers_empty : ({} : Store).Answers [] where
  valueAt q t := by
    rw [Store.valueAt, track_empty]
    rfl
  ongoing q := by
    rw [Store.ongoing, track_empty]
    rfl

/-- **A store answers from its log.** After any calls, refused ones included, the value of an
attribute at a time is that of the last write to it that the calls logged at or before that time,
the value it holds is that of the last write to it, and both are `null` if there is no such
write. -/
theorem log_answers (calls : List Call) (q : Quark) (t : Int64) :
    (({} : Store).callEach calls).valueAt q t = latest (({} : Store).log calls) q (· ≤ t) ∧
      (({} : Store).callEach calls).ongoing q =
        latest (({} : Store).log calls) q fun _ => true := by
  have h := answers_empty.callEach .empty calls
  rw [List.nil_append] at h
  exact ⟨h.valueAt q t, h.ongoing q⟩

end Store
end Chronicle
