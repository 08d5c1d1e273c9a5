import Chronicle.Proofs.Interpreter.Alike
import Chronicle.Proofs.Interpreter.Reach
import Chronicle.Proofs.Store.Retiming

/-!
# Only the order of times matters

Let the events of a trace come at other times, in the same order and with the same ones at once.
Then the run is the same under the other names of times: the same events are handled, the same
state changes fail for the same reasons, and the store is the same but for its times
(`Schema.run_retime`). Whatever an evaluation reads is read alike at all times, and what a mutation
does with times is to compare and keep them.
-/

namespace Chronicle

/-- The event at its renamed time. -/
def Event.retime (f : Int64 → Int64) (e : Event) : Event :=
  e.atTime (f e.timestamp)

/-- The scope of the event at its renamed time. -/
def Scope.retime (f : Int64 → Int64) (scope : Scope) : Scope :=
  scope.atTime (f scope.event.timestamp)

/-- The error with its times renamed. Only a late mutation tells of times. -/
def ChangeError.retime (f : Int64 → Int64) : ChangeError → ChangeError
  | .refused r => .refused (r.retime f)
  | e => e

/-- The failure with its times renamed. -/
def Failure.retime (f : Int64 → Int64) (failure : Failure) : Failure :=
  { failure with
    timestamp := f failure.timestamp
    error := failure.error.retime f }

variable {f : Int64 → Int64} {T : Int64 → Prop} {scope : Scope} {s : Store}

namespace Store

theorem retime_empty (f : Int64 → Int64) : ({} : Store).retime f = {} := by
  simp [retime]

theorem TimesIn.empty (T : Int64 → Prop) : ({} : Store).TimesIn T :=
  ⟨by simp, fun q => track_empty q ▸ Track.TimesIn.empty T⟩

/-- Growing brings no times. -/
theorem TimesIn.growsTo {after : Store} (h : s.TimesIn T) (hgrown : s.GrowsTo after) :
    after.TimesIn T :=
  ⟨hgrown.clock ▸ h.clock, fun q => hgrown.track q ▸ h.track q⟩

theorem TimesIn.mutate {after : Store} (h : s.TimesIn T) (hs : s.tracks.size = s.tree.size)
    {q : Quark} {t : Int64} {m : Mutation} (ht : T t) (hm : s.mutate q t m = .ok after) :
    after.TimesIn T := by
  obtain ⟨haccepts, rfl⟩ := mutate_eq_ok_iff.mp hm
  exact h.perform hs haccepts.contains ht m

/-- A store and its renamed one are read alike, and get the same new attributes. -/
theorem outlasts_retime (f : Int64 → Int64) : Outlasts fun s s' => s' = s.retime f where
  alike := by
    rintro s s' rfl
    refine ⟨rfl, fun q => ?_⟩
    rw [ongoing, track_retime]
    rfl
  withTree := by
    rintro s s' tree rfl
    exact (retime_withTree f s tree).symm

end Store

/-! ### State changes -/

namespace Assignment

variable {a : Assignment} {result : Except ChangeError Unit} {after : Store} {tried : List Quark}

theorem Comes.timesIn (ht : scope.table.check = .ok ()) (hs : s.Reachable) (hk : s.TimesIn T)
    (hT : T scope.event.timestamp) (h : a.Comes scope s result after tried) :
    after.TimesIn T := by
  have hgrown := hk.growsTo (Scope.growsTo_grow ht hs a.target)
  cases h with
  | done _ _ hm =>
      exact hgrown.mutate (Scope.reachable_grow ht hs a.target).tracks_size hT hm
  | _ => exact hgrown

/-- **An assignment comes at a renamed time to what it came to.** -/
theorem Comes.retime (hf : IncreasingOn f T) (ht : scope.table.check = .ok ()) (hs : s.Reachable)
    (hk : s.TimesIn T) (hT : T scope.event.timestamp) (ha : a.Sound scope.table)
    (h : a.Comes scope s result after tried) :
    a.Comes (scope.retime f) (s.retime f) (result.mapError (ChangeError.retime f))
      (after.retime f) tried := by
  have hgrown : (scope.grow s Quark.root a.target).Agrees (fun s s' => s' = s.retime f)
      ((scope.retime f).grow (s.retime f) Quark.root a.target) :=
    Scope.grow_alike (Store.outlasts_retime f) scope _ rfl Quark.root a.target
  have hresult : ((scope.retime f).grow (s.retime f) Quark.root a.target).result =
      (scope.grow s Quark.root a.target).result := hgrown.result
  have hstore : ((scope.retime f).grow (s.retime f) Quark.root a.target).store =
      (scope.grow s Quark.root a.target).store.retime f := hgrown.store
  have hasked : ∀ q, (a.term.mutation? (scope.retime f)
      ((scope.retime f).grow (s.retime f) Quark.root a.target).store q).val =
        (a.term.mutation? scope (scope.grow s Quark.root a.target).store q).val :=
    Term.val_mutation?_alike ((Store.outlasts_retime f).alike hgrown.store) _ scope a.term
  have hmutate : ∀ q m, ((scope.retime f).grow (s.retime f) Quark.root a.target).store.mutate q
      (scope.retime f).event.timestamp m =
        (((scope.grow s Quark.root a.target).store.mutate q scope.event.timestamp m).map
          (Store.retime f)).mapError (Store.Refusal.retime f) := by
    intro q m
    rw [hstore]
    exact Store.mutate_retime (Scope.reachable_grow ht hs a.target).tracks_size hf
      (hk.growsTo (Scope.growsTo_grow ht hs a.target)) hT m
  cases h with
  | lost hq => exact hstore ▸ .lost (hresult.trans hq)
  | @failed q e hq hm =>
      have he : e.retime f = e := by
        cases Term.fails_of_mutation? ha.term hm <;> rfl
      exact hstore ▸ .failed (hresult.trans hq) (he.symm ▸ (hasked q).trans hm)
  | looked hq hm => exact hstore ▸ .looked (hresult.trans hq) ((hasked _).trans hm)
  | done hq hm hdone =>
      exact .done (hresult.trans hq) ((hasked _).trans hm)
        ((hmutate _ _).trans (by rw [hdone]; rfl))
  | refused hq hm hrefused =>
      exact hstore ▸ .refused (hresult.trans hq) ((hasked _).trans hm)
        ((hmutate _ _).trans (by rw [hrefused]; rfl))

end Assignment

section

variable (ht : scope.table.check = .ok ()) (hs : s.Reachable) (hk : s.TimesIn T)
  (hT : T scope.event.timestamp)

include ht hs hk hT

theorem Change.timesIn_apply (change : Change) : (change.apply scope s).store.TimesIn T := by
  rw [apply_eq, performSelected]
  cases (change.select scope s).val with
  | none => exact hk
  | some a => exact (a.comes scope s).timesIn ht hs hk hT

variable (hf : IncreasingOn f T)

include hf

/-- **A state change at a renamed time does what it did.** -/
theorem Change.apply_retime {change : Change} (hc : change.check scope.table = .ok ()) :
    (change.apply (scope.retime f) (s.retime f)).failures =
        (change.apply scope s).failures.mapError (ChangeError.retime f) ∧
      (change.apply (scope.retime f) (s.retime f)).store =
        (change.apply scope s).store.retime f := by
  have hselect : change.select (scope.retime f) (s.retime f) = change.select scope s :=
    select_alike ((Store.outlasts_retime f).alike rfl) _ scope change
  rw [apply_eq, apply_eq, performSelected, performSelected, hselect]
  cases ha : (change.select scope s).val with
  | none => exact ⟨rfl, rfl⟩
  | some a =>
      have hcomes := (a.comes scope s).retime hf ht hs hk hT (sound_of_select change hc ha)
      obtain ⟨hfailures, hstore, -⟩ := hcomes.eq
      exact ⟨hfailures, hstore⟩

/-- Jobs that an event calls for are done at its renamed time as they were done. -/
theorem Job.after_retime {jobs : List Job}
    (hc : ∀ job ∈ jobs, job.change.check scope.table = .ok ()) :
    after (scope.retime f) (s.retime f) jobs = (after scope s jobs).retime f ∧
      failures (scope.retime f) (s.retime f) jobs =
        (failures scope s jobs).map (Failure.retime f) ∧
      (after scope s jobs).TimesIn T := by
  induction jobs generalizing s with
  | nil => exact ⟨rfl, rfl, hk⟩
  | cons job rest ih =>
      obtain ⟨hjob, hrest⟩ := List.forall_mem_cons.mp hc
      obtain ⟨hfirst, hstore⟩ := Change.apply_retime ht hs hk hT hf hjob
      obtain ⟨hafter, hfailures, htimes⟩ := ih (job.change.reachable_apply ht hs)
        (job.change.timesIn_apply ht hs hk hT) hrest
      have hnext : job.store (scope.retime f) (s.retime f) = (job.store scope s).retime f := hstore
      have hone : job.failure? (scope.retime f) (s.retime f) =
          (job.failure? scope s).map (Failure.retime f) := by
        rw [failure?, failure?, hfirst]
        cases (job.change.apply scope s).failures <;> rfl
      rw [after_cons, failures, failures, hnext, hone, List.map_append]
      refine ⟨hafter, ?_, htimes⟩
      congr 1
      cases job.failure? scope s <;> rfl

end

/-! ### Runs -/

namespace Schema

variable {schema : Schema}

/-- A run under other names of times: as many events are processed and handled, the same failures
come in the same order, and the store is the same but for its times. -/
structure Retimed (f : Int64 → Int64) (run renamed : Report × Store) : Prop where
  processed : renamed.1.processed = run.1.processed
  handled : renamed.1.handled = run.1.handled
  failures : renamed.1.failures = run.1.failures.map (Failure.retime f)
  store : renamed.2 = run.2.retime f

/-- **An event at a renamed time is processed as it was processed.** -/
theorem process_retime (h : schema.check = .ok ()) (hs : s.Reachable) (hk : s.TimesIn T)
    (hf : IncreasingOn f T) {e : Event} (hT : T e.timestamp) :
    (schema.process (s.retime f) (e.retime f)).1.failures =
        (schema.process s e).1.failures.map (Failure.retime f) ∧
      (schema.process (s.retime f) (e.retime f)).2 = (schema.process s e).2.retime f ∧
      (schema.process s e).2.TimesIn T := by
  have ht : (⟨schema.table, e⟩ : Scope).table.check = .ok () := (check_eq_ok_iff.mp h).1
  obtain ⟨hafter, hfailures, htimes⟩ := Job.after_retime ht hs hk hT hf fun job hj =>
    check_of_mem_jobsFor h hj
  obtain ⟨hstore, hjournal, -⟩ := schema.process_eq_jobs s e
  obtain ⟨hstore', hjournal', -⟩ := schema.process_eq_jobs (s.retime f) (e.retime f)
  rw [hstore, hjournal, hstore', hjournal']
  exact ⟨hfailures, hafter, htimes⟩

theorem retimed_run (h : schema.check = .ok ()) (hs : s.Reachable) (hk : s.TimesIn T)
    (hf : IncreasingOn f T) {events : List Event} (hT : ∀ e ∈ events, T e.timestamp) :
    Retimed f (schema.run s events) (schema.run (s.retime f) (events.map (Event.retime f))) ∧
      (schema.run s events).2.TimesIn T := by
  induction events generalizing s with
  | nil => exact ⟨⟨rfl, rfl, rfl, rfl⟩, hk⟩
  | cons e rest ih =>
      obtain ⟨he, hrest⟩ := List.forall_mem_cons.mp hT
      obtain ⟨hfailures, hstore, htimes⟩ := process_retime h hs hk hf he
      obtain ⟨hlater, hlast⟩ := ih (reachable_process h hs e) htimes hrest
      rw [← hstore] at hlater
      refine ⟨⟨?_, ?_, ?_, hlater.store⟩, hlast⟩
      · exact congrArg (· + 1) hlater.processed
      · exact congrArg (· + _) hlater.handled
      · rw [List.map_cons, failures_run_cons, failures_run_cons, List.map_append, hfailures,
          hlater.failures]

/-- **Only the order of times matters.** Let `f` keep the order of the times of the events. If they
come at the times that `f` gives them, then as many events are processed and handled, the same
failures come in the same order, and the store is the same but for its times, which `f` renames: so
at the renamed time of an event it tells what it told at its time. -/
theorem run_retime (h : schema.Accepted) {events : List Event}
    (hf : IncreasingOn f fun t => ∃ e ∈ events, e.timestamp = t) :
    Retimed f (schema.run {} events) (schema.run {} (events.map (Event.retime f))) ∧
      ∀ e ∈ events, ∀ q,
        (schema.run {} (events.map (Event.retime f))).2.valueAt q (f e.timestamp) =
          (schema.run {} events).2.valueAt q e.timestamp := by
  have hT : ∀ e ∈ events, ∃ d ∈ events, d.timestamp = e.timestamp := fun e he => ⟨e, he, rfl⟩
  obtain ⟨hretimed, htimes⟩ :=
    retimed_run (accepted_iff.mp h) .empty (Store.TimesIn.empty _) hf hT
  rw [Store.retime_empty] at hretimed
  refine ⟨hretimed, fun e he q => ?_⟩
  rw [hretimed.store]
  exact Store.valueAt_retime hf htimes (hT e he) q

/-- The third event is late and fails, and the last two come at once. The names of times are
increasing on those of the events, though not on all. -/
theorem run_retime_of_late :
    let schema : Schema := {
      handlers := [
        ⟨.ofText "sched*", [.assign [.constant "Running"] ⟨.eventField "tid", false, .none⟩,
          .assign [.constant "Switches"] ⟨.literal (.int 1), true, .none⟩]⟩] }
    let sched : Int64 → Int64 → Event := fun time tid =>
      { name := "sched_switch", timestamp := time, fields := [("tid", .long tid)] }
    let events := [sched 5 1, sched 20 2, sched 10 3, sched 30 4, sched 30 5]
    let f : Int64 → Int64 := fun t => if t = 5 then -7 else if t = 7 then -8 else t * t
    let renamed := schema.run {} (events.map (Event.retime f))
    schema.Accepted ∧ (IncreasingOn f fun t => ∃ e ∈ events, e.timestamp = t) ∧
      (Retimed f (schema.run {} events) renamed ∧
        ∀ e ∈ events, ∀ q,
          renamed.2.valueAt q (f e.timestamp) = (schema.run {} events).2.valueAt q e.timestamp) ∧
      renamed.1.failures.map (fun x => x.timestamp) = [100, 100] ∧
      (renamed.2.track 0).closed = #[⟨-7, 400, .long 1⟩, ⟨400, 900, .long 2⟩] := by
  intro schema sched events f renamed
  have h : schema.Accepted := accepted_iff.mpr rfl
  have hf : IncreasingOn f fun t => ∃ e ∈ events, e.timestamp = t := by
    have hlist : ∀ d ∈ events, ∀ e ∈ events,
        d.timestamp < e.timestamp → f d.timestamp < f e.timestamp := by decide +kernel
    rintro _ _ ⟨d, hd, rfl⟩ ⟨e, he, rfl⟩
    exact hlist d hd e he
  exact ⟨h, hf, run_retime h hf, by decide +kernel, by decide +kernel⟩

end Schema
end Chronicle
