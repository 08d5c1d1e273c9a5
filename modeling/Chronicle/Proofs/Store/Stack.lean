import Chronicle.Proofs.Store.Tiling

/-!
# The value held and the top of the stack

An attribute with a stack was last written with the value on top of it, by a `push` or a `pop`,
unless something was added to it since: an `increment` changes the value that is held and leaves the
stack as it is. So the value held is the top exactly if nothing was added, or what was added comes
to 0 (`Track.Drifted.ongoing_eq_iff`). A `pop` brings the top back in any case.
-/

namespace Chronicle

/-- What integers come to. -/
def total (ds : List Int32) : Int :=
  ds.foldl (fun n d => n + d.toInt) 0

theorem total_concat (ds : List Int32) (d : Int32) : total (ds ++ [d]) = total ds + d.toInt := by
  simp [total]

namespace Track

/-- An increment that adds up adds to an integer, `null` counting as 0, and does not wrap. -/
theorem toInt_of_sum {k : Track} {delta n : Int32} (h : k.sum delta = .ok n) :
    n.toInt = (k.ongoing.int?.getD 0).toInt + delta.toInt := by
  unfold sum at h
  cases hk : k.ongoing with
  | null =>
      rw [hk] at h
      obtain rfl := Except.ok.inj h
      exact (Int.zero_add _).symm
  | int i =>
      simp only [hk] at h
      split at h
      · rename_i hrange
        obtain rfl := Except.ok.inj h
        have hbmod : (i + delta).toInt = (i.toInt + delta.toInt).bmod 4294967296 :=
          Int32.toInt_add i delta
        rw [hbmod, Int.bmod_eq_of_le (by omega) (by omega)]
        rfl
      · cases h
  | long i => simp [hk] at h
  | text s => simp [hk] at h

/-- The value held is the top of the stack with `ds` added. -/
def Drifted (k : Track) (ds : List Int32) : Prop :=
  ∀ v ∈ k.stack.head?, (ds = [] ∧ k.ongoing = v) ∨
    ∃ n, k.ongoing = .int n ∧ ds ≠ [] ∧ n.toInt = (v.int?.getD 0).toInt + total ds

theorem Drifted.of_top {k : Track} (h : ∀ v ∈ k.stack.head?, k.ongoing = v) : k.Drifted [] :=
  fun v hv => .inl ⟨rfl, h v hv⟩

/-- Adding to an attribute leaves its stack behind. -/
theorem Drifted.increment {k : Track} {ds : List Int32} (h : k.Drifted ds) {delta n : Int32}
    (hn : k.sum delta = .ok n) (t : Int64) : (k.increment t delta).Drifted (ds ++ [delta]) := by
  have hk : k.increment t delta = k.write t (.int n) := by simp [Track.increment, hn]
  rw [hk]
  intro v hv
  refine .inr ⟨n, rfl, by simp, ?_⟩
  rw [total_concat, toInt_of_sum hn]
  rcases h v hv with ⟨rfl, hv⟩ | ⟨i, hi, -, hsum⟩
  · rw [hv, total, List.foldl_nil, Int.zero_add]
  · rw [hi, Value.int?, Option.getD_some, hsum, Int.add_assoc]

/-- Every other mutation leaves the top of the stack as the value held, if it leaves a stack. -/
theorem top_of_act {k : Track} {m : Mutation} (hm : ∀ delta, m ≠ .increment delta) (t : Int64) :
    ∀ v ∈ (m.act t k).stack.head?, (m.act t k).ongoing = v := by
  cases m with
  | set v => simp [Mutation.act, set]
  | increment delta => exact absurd rfl (hm delta)
  | push v => simp [Mutation.act, push]
  | pop =>
      cases hk : k.stack with
      | nil => simp [Mutation.act, pop, hk]
      | cons w rest => cases rest <;> simp [Mutation.act, pop, hk]
  | remove =>
      by_cases hk : k.ongoing.isNull = true <;> simp [Mutation.act, clear, hk]

/-- The value held is the top of the stack exactly if what was added comes to nothing. -/
theorem Drifted.ongoing_eq_iff {k : Track} {ds : List Int32} (h : k.Drifted ds) {v : Value}
    (hv : k.stack.head? = some v) :
    k.ongoing = v ↔ ds = [] ∨ (v.int?.isSome = true ∧ total ds = 0) := by
  rcases h v hv with ⟨rfl, hk⟩ | ⟨n, hn, hds, hsum⟩
  · simp [hk]
  · rw [hn]
    constructor
    · rintro rfl
      refine .inr ⟨rfl, ?_⟩
      rw [Value.int?, Option.getD_some] at hsum
      omega
    · rintro (rfl | ⟨hi, htotal⟩)
      · exact absurd rfl hds
      · cases v with
        | int i =>
            rw [htotal, Int.add_zero, Value.int?, Option.getD_some] at hsum
            rw [Int32.toInt_inj.mp hsum]
        | _ => simp [Value.int?] at hi

end Track

/-- What stands added to an attribute after a mutation, with `ds` before it: a mutation that does
not add starts anew. -/
def Mutation.addTo (ds : List Int32) : Mutation → List Int32
  | .increment delta => ds ++ [delta]
  | _ => []

theorem Track.Drifted.act {k : Track} {ds : List Int32} (h : k.Drifted ds) {m : Mutation}
    (hsum : ∀ delta, m = .increment delta → ∃ n, k.sum delta = .ok n) (t : Int64) :
    (m.act t k).Drifted (m.addTo ds) := by
  cases m with
  | increment delta =>
      obtain ⟨n, hn⟩ := hsum delta rfl
      exact h.increment hn t
  | _ => exact .of_top (top_of_act (by simp) t)

namespace Store

/-- What stands added to `q` after a call, with `ds` before it. -/
def addedBy (s : Store) (q : Quark) (ds : List Int32) : Call → List Int32
  | .create _ _ => ds
  | .mutate p t m =>
    if (s.mutate p t m).isOk && (m.reach s.tree p).contains q then m.addTo ds else ds

/-- What stands added to `q` after calls, with `ds` before them. -/
def added (s : Store) (q : Quark) (ds : List Int32) : List Call → List Int32
  | [] => ds
  | c :: rest => (s.call c).added q (s.addedBy q ds c) rest

variable {s : Store} {q : Quark} {ds : List Int32}

theorem drifted_perform (hr : s.Reachable) (h : (s.track q).Drifted ds) {p : Quark} {t : Int64}
    {m : Mutation} (ha : s.Accepts p t m) :
    ((s.perform p t m).track q).Drifted (s.addedBy q ds (.mutate p t m)) := by
  rw [track_perform hr.tracks_size ha.contains, addedBy, mutate_eq_ok_iff.mpr ⟨ha, rfl⟩]
  by_cases hq : q ∈ m.reach s.tree p
  · rw [if_pos hq, if_pos (by simpa [Except.isOk, Except.toBool] using hq)]
    exact h.act (ha.sum_of_mem_reach hq) t
  · rw [if_neg hq, if_neg (by simpa [Except.isOk, Except.toBool] using hq)]
    exact h

theorem drifted_call (hr : s.Reachable) (h : (s.track q).Drifted ds) (c : Call) :
    ((s.call c).track q).Drifted (s.addedBy q ds c) := by
  cases c with
  | create parent name =>
      rw [track_call_create]
      exact h
  | mutate p t m =>
      by_cases ha : s.Accepts p t m
      · rw [call_mutate_of_accepts ha]
        exact drifted_perform hr h ha
      · obtain ⟨e, he⟩ := mutate_error_of_not_accepts ha
        rw [call_mutate_of_not_accepts ha]
        simpa [addedBy, he, Except.isOk, Except.toBool] using h

/-- Whatever the calls, the value held is the top of the stack with what they added. -/
theorem drifted_callEach (hr : s.Reachable) (h : (s.track q).Drifted ds) (calls : List Call) :
    ((s.callEach calls).track q).Drifted (s.added q ds calls) := by
  induction calls generalizing s ds with
  | nil => exact h
  | cons c rest ih => exact ih (hr.call c) (drifted_call hr h c)

theorem pop_eq_ok {t : Int64} {after : Store} (h : s.mutate q t .pop = .ok after) :
    s.pop q t = .ok ((s.track q).stack.head?, after) := by
  rw [pop, h]
  rfl

/-- A `push` and then a `pop` that are not late lead back to the stack and hold its top. -/
theorem track_push_pop (hs : s.tracks.size = s.tree.size) (hq : s.tree.contains q = true)
    {t₁ t₂ : Int64} (ht₁ : ∀ c ∈ s.clock, c ≤ t₁) (ht₂ : t₁ ≤ t₂) (w : Value) :
    ∃ s₁ s₂, s.mutate q t₁ (.push w) = .ok s₁ ∧ s₁.pop q t₂ = .ok (some w, s₂) ∧
      (s₂.track q).stack = (s.track q).stack ∧
        s₂.ongoing q = (s.track q).stack.headD .null := by
  have hpush : s.Accepts q t₁ (.push w) := ⟨hq, ht₁, by simp⟩
  have htrack₁ : (s.perform q t₁ (.push w)).track q = (s.track q).push t₁ w := by
    rw [track_perform hs hq, if_pos (Mutation.self_mem_reach ..)]
    rfl
  have hpop : (s.perform q t₁ (.push w)).Accepts q t₂ .pop :=
    ⟨by rwa [perform_tree], by simpa using ht₂, by simp⟩
  refine ⟨s.perform q t₁ (.push w), (s.perform q t₁ (.push w)).perform q t₂ .pop,
    mutate_eq_ok_iff.mpr ⟨hpush, rfl⟩, ?_, ?_⟩
  · rw [pop_eq_ok (mutate_eq_ok_iff.mpr ⟨hpop, rfl⟩), htrack₁]
    rfl
  · rw [ongoing, track_perform (by simpa using hs) hpop.contains,
      if_pos (Mutation.self_mem_reach ..), htrack₁]
    exact ⟨rfl, rfl⟩

/-- **The value held is the top of the stack, but for what was added to it.** After any calls,
refused ones included, an attribute whose stack is not empty holds the value on top of it exactly if
the calls added nothing to the attribute since its last other mutation, or what they added to the
integer on top comes to 0. A `push` and then a `pop` that are not late are accepted, the `pop` tells
the value pushed, and the attribute then holds the value on top. -/
theorem ongoing_eq_top_iff (calls : List Call) (q : Quark) (v : Value)
    (hv : ((({} : Store).callEach calls).track q).stack.head? = some v) :
    let s := ({} : Store).callEach calls
    (s.ongoing q = v ↔ ({} : Store).added q [] calls = [] ∨
      (v.int?.isSome = true ∧ total (({} : Store).added q [] calls) = 0)) ∧
      ∀ t₁ t₂ w, (∀ c ∈ s.clock, c ≤ t₁) → t₁ ≤ t₂ →
        ∃ s₁ s₂, s.mutate q t₁ (.push w) = .ok s₁ ∧ s₁.pop q t₂ = .ok (some w, s₂) ∧
          s₂.ongoing q = v := by
  intro s
  have hr : s.Reachable := Reachable.empty.callEach calls
  have hempty : (({} : Store).track q).Drifted [] := by
    rw [track_empty]
    exact .of_top (by simp)
  refine ⟨(drifted_callEach .empty hempty calls).ongoing_eq_iff hv, fun t₁ t₂ w ht₁ ht₂ => ?_⟩
  have hq : s.tree.contains q = true := by
    by_contra hq
    have hnone := track_of_not_contains hr.tracks_size (Bool.not_eq_true _ ▸ hq)
    rw [hnone] at hv
    cases hv
  obtain ⟨s₁, s₂, hpush, hpop, -, hheld⟩ := track_push_pop hr.tracks_size hq ht₁ ht₂ w
  refine ⟨s₁, s₂, hpush, hpop, ?_⟩
  rw [hheld, List.headD_eq_head?_getD, hv]
  rfl

/-- What is added and taken away again leaves the top as the value held. -/
theorem ongoing_eq_top_of_undone :
    let s := ({} : Store).callEach [.create .root "S", .mutate 0 1 (.push (.int 5)),
      .mutate 0 2 (.increment 1), .mutate 0 3 (.increment (-1))]
    (s.track 0).stack.head? = some (.int 5) ∧ s.ongoing 0 = .int 5 ∧
      ∃ s₁ s₂, s.mutate 0 4 (.push (.int 9)) = .ok s₁ ∧
        s₁.pop 0 4 = .ok (some (.int 9), s₂) ∧ s₂.ongoing 0 = .int 5 := by
  have h := ongoing_eq_top_iff [.create .root "S", .mutate 0 1 (.push (.int 5)),
    .mutate 0 2 (.increment 1), .mutate 0 3 (.increment (-1))] 0 (.int 5) (by decide +kernel)
  intro s
  have hle : ∀ c ∈ s.clock, c ≤ 4 := clock_le_of_eq (c := 3) (by decide +kernel) (by decide)
  exact ⟨by decide +kernel, h.1.mpr (.inr ⟨rfl, by decide +kernel⟩),
    h.2 4 4 (.int 9) hle (by decide)⟩

/-- What is added is lost by a later `push` and `pop`: the attribute holds 6 over a stack with 5 on
top, and then 5. -/
theorem ongoing_ne_top_of_increment :
    let s := ({} : Store).callEach [.create .root "S", .mutate 0 1 (.push (.int 5)),
      .mutate 0 2 (.increment 1)]
    (s.track 0).stack.head? = some (.int 5) ∧ s.ongoing 0 = .int 6 ∧
      (s.callEach [.mutate 0 3 (.push (.int 9)), .mutate 0 4 .pop]).ongoing 0 = .int 5 := by
  decide +kernel

end Store
end Chronicle
