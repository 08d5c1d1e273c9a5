import Chronicle.Proofs.Store.Retiming

/-!
# Mutations that do not meet

Two mutations at one time do not meet if no attribute is reached by both (`Store.Apart`). They share
the tree and the clock all the same. But the first leaves the tree as it is, and it does not make
the second late: if it is accepted, the clock stands at the time of both, and if it is refused,
nothing has changed. So the second is permitted as it was before the first
(`Store.permit_call_mutate`), adds up as it did (`Store.addsUp_call_mutate`), tells what it told
(`Store.answer_call_mutate`) and finds on the attributes that it reaches what was there. Hence it
makes no difference which of the two comes first (`Store.mutations_commute`).

What a mutation tells is its answer (`Store.answer`): the sum of an increment, the value that a
`pop` took off the stack, or why it is refused.
-/

namespace Chronicle

/-- What an accepted mutation tells: that it is done, the sum, or what was on top of the stack. -/
inductive Answer
  | done
  | sum (v : Value)
  | popped (top : Option Value)
deriving DecidableEq, Repr

/-- What an accepted mutation at time `t` tells of the track of the attribute that it names. -/
def Mutation.told (t : Int64) (k : Track) : Mutation → Answer
  | .increment delta => .sum (k.increment t delta).ongoing
  | .pop => .popped k.stack.head?
  | _ => .done

theorem Mutation.told_increment (t : Int64) (k : Track) (delta : Int32) :
    (Mutation.increment delta).told t k = .sum (k.increment t delta).ongoing := rfl

theorem Mutation.told_pop (t : Int64) (k : Track) :
    Mutation.pop.told t k = .popped k.stack.head? := rfl

namespace Store

/-- What a mutation of `q` at time `t` tells, or why it is refused. -/
def answer (s : Store) (q : Quark) (t : Int64) : Mutation → Except Refusal Answer
  | .increment delta => (s.increment q t delta).map fun told => .sum told.1
  | .pop => (s.pop q t).map fun told => .popped told.1
  | m => (s.mutate q t m).map fun _ => .done

/-- The mutation `m` of `p` and the mutation `n` of `q` reach no attribute in common. -/
def Apart (s : Store) (p : Quark) (m : Mutation) (q : Quark) (n : Mutation) : Prop :=
  ∀ d ∈ m.reach s.tree p, d ∉ n.reach s.tree q

instance (s : Store) (p : Quark) (m : Mutation) (q : Quark) (n : Mutation) :
    Decidable (s.Apart p m q n) :=
  inferInstanceAs (Decidable (∀ d ∈ m.reach s.tree p, d ∉ n.reach s.tree q))

variable {s s' : Store} {p q : Quark} {t : Int64} {m n : Mutation}

theorem Apart.symm (h : s.Apart p m q n) : s.Apart q n p m :=
  fun d hd hd' => h d hd' hd

/-! ### What a mutation hangs on -/

theorem answer_increment (s : Store) (q : Quark) (t : Int64) (delta : Int32) :
    s.answer q t (.increment delta) = (s.mutate q t (.increment delta)).map fun after =>
      .sum (after.ongoing q) := by
  have hcall : s.answer q t (.increment delta) =
      (s.increment q t delta).map fun told => .sum told.1 := rfl
  rw [hcall, increment]
  cases s.mutate q t (.increment delta) <;> rfl

theorem answer_pop (s : Store) (q : Quark) (t : Int64) :
    s.answer q t .pop = (s.mutate q t .pop).map fun _ => .popped (s.track q).stack.head? := by
  have hcall : s.answer q t .pop = (s.pop q t).map fun told => .popped told.1 := rfl
  rw [hcall, pop]
  cases s.mutate q t .pop <;> rfl

/-- What an accepted mutation tells it tells of the track that it names. -/
theorem answer_eq (hs : s.tracks.size = s.tree.size) :
    s.answer q t m = (s.mutate q t m).map fun _ => m.told t (s.track q) := by
  cases m with
  | increment delta =>
      rw [answer_increment]
      cases hm : s.mutate q t (.increment delta) with
      | error e => rfl
      | ok after =>
          obtain ⟨ha, rfl⟩ := mutate_eq_ok_iff.mp hm
          have htrack : (s.perform q t (.increment delta)).track q =
              (s.track q).increment t delta := by
            rw [track_perform hs ha.contains, if_pos (Mutation.self_mem_reach ..)]
            rfl
          exact congrArg (fun k => Except.ok (Answer.sum k.ongoing)) htrack
  | pop => exact s.answer_pop q t
  | _ => rfl

/-- A mutation tells the same where it is permitted and adds up as it did, and the track that it
names is the same. -/
theorem answer_congr (hs : s.tracks.size = s.tree.size) (hs' : s'.tracks.size = s'.tree.size)
    (hpermit : s'.permit q t = s.permit q t) (hadds : s'.addsUp q n = s.addsUp q n)
    (htrack : s'.track q = s.track q) : s'.answer q t n = s.answer q t n := by
  rw [answer_eq hs', answer_eq hs, mutate_eq, mutate_eq, hpermit, hadds, htrack]
  cases s.permit q t with
  | error e => rfl
  | ok u => cases s.addsUp q n <;> rfl

/-! ### After a mutation elsewhere -/

/-- A mutation makes no other at its own time late. -/
theorem permit_call_mutate (s : Store) (p q : Quark) (t : Int64) (m : Mutation) :
    (s.call (.mutate p t m)).permit q t = s.permit q t := by
  rcases s.call_mutate_cases p t m with ⟨ha, hcall⟩ | ⟨-, hcall⟩
  · have hlate : ¬t < t := Int64.lt_irrefl
    rw [hcall, permit, permit, perform_tree, perform_clock]
    cases hc : s.clock with
    | none => simp [hlate]
    | some c =>
        have hle : ¬t < c := Int64.not_lt.mpr (ha.clock_le c hc)
        simp [hlate, hle]
  · rw [hcall]

theorem addsUp_call_mutate (hs : s.tracks.size = s.tree.size) (hq : q ∉ m.reach s.tree p) :
    (s.call (.mutate p t m)).addsUp q n = s.addsUp q n := by
  cases n with
  | increment delta => rw [addsUp, addsUp, track_call_mutate hs hq, call_mutate_tree]
  | _ => rfl

section

variable (hs : s.Reachable) (h : s.Apart p m q n)

include hs h

/-- **A mutation tells what it told before another that it does not meet.** -/
theorem answer_call_mutate : (s.call (.mutate p t m)).answer q t n = s.answer q t n := by
  have hq : q ∉ m.reach s.tree p := fun hq => h q hq (n.self_mem_reach s.tree q)
  exact answer_congr hs.tracks_size (hs.call _).tracks_size (s.permit_call_mutate p q t m)
    (addsUp_call_mutate hs.tracks_size hq) (track_call_mutate hs.tracks_size hq)

theorem accepts_call_mutate_iff : (s.call (.mutate p t m)).Accepts q t n ↔ s.Accepts q t n := by
  have hq : q ∉ m.reach s.tree p := fun hq => h q hq (n.self_mem_reach s.tree q)
  rw [accepts_iff, accepts_iff, permit_call_mutate, addsUp_call_mutate hs.tracks_size hq]

/-- Accepted mutations that do not meet lead to one store in both orders: no track is acted on by
both, and the clock is set to their time by either. -/
theorem perform_comm (hm : s.Accepts p t m) (hn : s.Accepts q t n) :
    (s.perform p t m).perform q t n = (s.perform q t n).perform p t m := by
  have hsize : s.tracks.size = s.tree.size := hs.tracks_size
  have hsize' : ∀ p (m : Mutation),
      (s.perform p t m).tracks.size = (s.perform p t m).tree.size := by
    intro p m
    rw [perform_tracks_size, perform_tree, hsize]
  have hq : (s.perform p t m).tree.contains q = true := by rw [perform_tree]; exact hn.contains
  have hp : (s.perform q t n).tree.contains p = true := by rw [perform_tree]; exact hm.contains
  refine ext_track ?_ ?_ ?_ ?_ fun d => ?_
  · rw [perform_tracks_size, perform_tree, hsize']
  · rw [perform_tracks_size, perform_tree, hsize']
  · simp only [perform_tree]
  · rw [perform_clock, perform_clock]
  · rw [track_perform (hsize' p m) hq, track_perform (hsize' q n) hp, track_perform hsize hm.contains,
      track_perform hsize hn.contains, perform_tree, perform_tree]
    by_cases hdm : d ∈ m.reach s.tree p
    · have hdn : d ∉ n.reach s.tree q := h d hdm
      simp only [if_pos hdm, if_neg hdn]
    · simp only [if_neg hdm]

/-- **Mutations at one time that do not meet commute.** Each tells the same whether it comes first
or second, be it accepted or refused, and both orders lead to one store. -/
theorem mutations_commute :
    (s.call (.mutate p t m)).answer q t n = s.answer q t n ∧
      (s.call (.mutate q t n)).answer p t m = s.answer p t m ∧
        (s.call (.mutate p t m)).call (.mutate q t n) =
          (s.call (.mutate q t n)).call (.mutate p t m) := by
  refine ⟨answer_call_mutate hs h, answer_call_mutate hs h.symm, ?_⟩
  have hafter : (s.call (.mutate p t m)).Accepts q t n ↔ s.Accepts q t n :=
    accepts_call_mutate_iff hs h
  have hbefore : (s.call (.mutate q t n)).Accepts p t m ↔ s.Accepts p t m :=
    accepts_call_mutate_iff hs h.symm
  rcases s.call_mutate_cases p t m with ⟨hm, hcall⟩ | ⟨hm, hcall⟩
  · rcases s.call_mutate_cases q t n with ⟨hn, hcall'⟩ | ⟨hn, hcall'⟩
    · rw [call_mutate_of_accepts (hafter.mpr hn), call_mutate_of_accepts (hbefore.mpr hm), hcall,
        hcall', perform_comm hs h hm hn]
    · rw [call_mutate_of_not_accepts (hn ∘ hafter.mp), hcall']
  · rw [call_mutate_of_not_accepts (hm ∘ hbefore.mp), hcall]

end

/-- All CPUs are removed at the time at which an increment of a thread overflows. The increment sets
no clock, so the removal after it is not late for that, nor is the increment after the removal. -/
theorem mutations_commute_of_removal :
    let s := ({} : Store).callEach [.create .root "CPUs", .create 0 "1", .create .root "Threads",
      .create 2 "7", .mutate 1 3 (.push (.int 4)), .mutate 3 5 (.set (.int 2147483647))]
    let removed := s.call (.mutate 0 9 .remove)
    let added := s.call (.mutate 3 9 (.increment 1))
    s.Reachable ∧ s.Apart 0 .remove 3 (.increment 1) ∧
      (removed.answer 3 9 (.increment 1) = s.answer 3 9 (.increment 1) ∧
        added.answer 0 9 .remove = s.answer 0 9 .remove ∧
          removed.call (.mutate 3 9 (.increment 1)) = added.call (.mutate 0 9 .remove)) ∧
      s.answer 3 9 (.increment 1) = .error (.overflow "Threads/7" 2147483647 1) ∧
      s.answer 0 9 .remove = .ok .done ∧ added.clock = some 5 ∧ removed.clock = some 9 ∧
      removed.intervals 1 = [⟨3, 9, .int 4⟩] := by
  intro s removed added
  have hs : s.Reachable := Reachable.empty.callEach _
  have h : s.Apart 0 .remove 3 (.increment 1) := by decide +kernel
  exact ⟨hs, h, mutations_commute hs h, by decide +kernel, by decide +kernel, by decide +kernel,
    by decide +kernel, by decide +kernel⟩

end Store
end Chronicle
