import Chronicle.Proofs.Interpreter.Batches
import Chronicle.Proofs.Interpreter.Causes
import Chronicle.Proofs.Interpreter.Footprint
import Chronicle.Proofs.Store.Finality

/-!
# The history of a run

Events mutate at their own time, so the clock of a run tells the latest event that mutated, and
only an event that is older than one of those before it is late (`Schema.timely`). An event whose
mutations are all refused, or that asks for none, does not move the clock. Within one event the
clock moves at most once, to the time of the event, and then none of its mutations is late.

What was recorded when a run began stands when it ends (`Schema.recorded_stands`).
-/

namespace Chronicle

/-- The clock tells the latest of some times, and nothing if there are none. -/
def IsLatest (times : List Int64) : Option Int64 → Prop
  | none => times = []
  | some w => w ∈ times ∧ ∀ t ∈ times, t ≤ w

/-- Times that come no later than another one do not count beside it. -/
theorem IsLatest.append_of_le {early times : List Int64} {t : Int64} {clock : Option Int64}
    (h : IsLatest (t :: times) clock) (hle : ∀ w ∈ early, w ≤ t) :
    IsLatest (early ++ t :: times) clock := by
  cases clock with
  | none => cases h
  | some w =>
      obtain ⟨hmem, hlatest⟩ := h
      refine ⟨List.mem_append_right _ hmem, fun u hu => ?_⟩
      rcases List.mem_append.mp hu with hu | hu
      · exact Int64.le_trans (hle u hu) (hlatest t List.mem_cons_self)
      · exact hlatest u hu

/-! ### What moves the clock -/

/-- What becomes of the clock while mutations at time `t` are tried: if one is accepted, the clock
comes to `t`, which is not before the clock; if none is, it stays. -/
structure Store.Clocked (s : Store) (t : Int64) (mutated : Bool) (after : Store) : Prop where
  clock : after.clock = if mutated then some t else s.clock
  clock_le : mutated = true → ∀ w ∈ s.clock, w ≤ t

namespace Store.Clocked

variable {s s₁ s₂ s₃ : Store} {t : Int64} {b c : Bool}

theorem idle (h : s₂.clock = s₁.clock) : s₁.Clocked t false s₂ :=
  ⟨h, nofun⟩

theorem trans (h₁ : s₁.Clocked t b s₂) (h₂ : s₂.Clocked t c s₃) : s₁.Clocked t (b || c) s₃ := by
  cases b with
  | true =>
      refine ⟨?_, fun _ => h₁.clock_le rfl⟩
      rw [h₂.clock, h₁.clock]
      cases c <;> rfl
  | false =>
      have hclock : s₂.clock = s₁.clock := h₁.clock
      refine ⟨by rw [h₂.clock, hclock]; rfl, fun hc => ?_⟩
      rw [← hclock]
      exact h₂.clock_le hc

end Store.Clocked

namespace Change

/-- A state change makes a mutation that is accepted. -/
def mutates (scope : Scope) (s : Store) (change : Change) : Bool :=
  (change.apply scope s).failures.isOk && !(change.apply scope s).tried.isEmpty

end Change

namespace Job

/-- One of some jobs, done one after another, makes a mutation that is accepted. -/
def mutates (scope : Scope) (s : Store) : List Job → Bool
  | [] => false
  | job :: rest => job.change.mutates scope s || mutates scope (job.store scope s) rest

end Job

namespace Schema

/-- An event makes a mutation that is accepted. -/
def mutates (schema : Schema) (s : Store) (e : Event) : Bool :=
  Job.mutates ⟨schema.table, e⟩ s (schema.jobsFor e.name)

/-- The events of a run that make a mutation that is accepted. -/
def mutating (schema : Schema) (s : Store) : List Event → List Event
  | [] => []
  | e :: rest =>
    (if schema.mutates s e then [e] else []) ++ schema.mutating (schema.process s e).2 rest

end Schema

section

variable {scope : Scope} {s : Store}

/-- Of the ends of an assignment one is a mutation that is accepted. -/
theorem Assignment.Comes.done_of_mutates {a : Assignment} {result : Except ChangeError Unit}
    {after : Store} {tried : List Quark} (h : a.Comes scope s result after tried)
    (hmutates : (result.isOk && !tried.isEmpty) = true) :
    ∃ q m, (scope.grow s Quark.root a.target).result = .ok q ∧
      (a.term.mutation? scope (scope.grow s Quark.root a.target).store q).val = .ok (some m) ∧
      (scope.grow s Quark.root a.target).store.mutate q scope.event.timestamp m = .ok after := by
  cases h with
  | done hq hm hdone => exact ⟨_, _, hq, hm, hdone⟩
  | _ => cases hmutates

/-- A state change mutates if and only if the assignment that it selects asks for a mutation and the
store accepts it. -/
theorem Change.mutates_iff {change : Change} : change.mutates scope s = true ↔
    ∃ a q m after, (change.select scope s).val = some a ∧
      (scope.grow s Quark.root a.target).result = .ok q ∧
      (a.term.mutation? scope (scope.grow s Quark.root a.target).store q).val = .ok (some m) ∧
      (scope.grow s Quark.root a.target).store.mutate q scope.event.timestamp m = .ok after := by
  cases ha : (change.select scope s).val with
  | none =>
      obtain ⟨-, -, htried⟩ := apply_of_select_eq_none ha
      simp [mutates, htried]
  | some a =>
      obtain ⟨hfailures, -, htried⟩ := apply_of_select ha
      rw [mutates, hfailures, htried]
      constructor
      · intro h
        obtain ⟨q, m, hdone⟩ := (a.comes scope s).done_of_mutates h
        exact ⟨a, q, m, _, rfl, hdone⟩
      · rintro ⟨b, q, m, after, hb, hq, hm, hdone⟩
        obtain rfl := Option.some.inj hb
        obtain ⟨hok, -, htried⟩ := (Assignment.Comes.done hq hm hdone).eq
        rw [hok, htried]
        rfl

variable (ht : scope.table.check = .ok ()) (hs : s.Reachable)

include ht hs

theorem Assignment.Comes.clocked {a : Assignment} {result : Except ChangeError Unit}
    {after : Store} {tried : List Quark} (h : a.Comes scope s result after tried) :
    s.Clocked scope.event.timestamp (result.isOk && !tried.isEmpty) after := by
  have hgrown := Scope.growsTo_grow ht hs a.target
  cases h with
  | done _ _ hdone =>
      obtain ⟨haccepts, rfl⟩ := Store.mutate_eq_ok_iff.mp hdone
      refine ⟨Store.perform_clock, fun _ => ?_⟩
      rw [← hgrown.clock]
      exact haccepts.clock_le
  | _ => exact .idle hgrown.clock

theorem Change.clocked_apply (change : Change) :
    s.Clocked scope.event.timestamp (change.mutates scope s) (change.apply scope s).store := by
  rw [mutates, apply_eq, performSelected]
  cases (change.select scope s).val with
  | none => exact .idle rfl
  | some a => exact (a.comes scope s).clocked ht hs

theorem Job.clocked_after (jobs : List Job) :
    s.Clocked scope.event.timestamp (mutates scope s jobs) (after scope s jobs) := by
  induction jobs generalizing s with
  | nil => exact .idle rfl
  | cons job rest ih =>
      exact (job.change.clocked_apply ht hs).trans (ih (job.change.reachable_apply ht hs))

end

namespace Schema

variable {schema : Schema} {s : Store}

theorem mutating_sublist (schema : Schema) (s : Store) (events : List Event) :
    (schema.mutating s events).Sublist events := by
  induction events generalizing s with
  | nil => exact .slnil
  | cons e rest ih =>
      rw [mutating]
      cases schema.mutates s e with
      | true => exact (ih _).cons_cons e
      | false => exact (ih _).cons e

section

variable (h : schema.check = .ok ()) (hs : s.Reachable)

include h hs

theorem clocked_process (e : Event) :
    s.Clocked e.timestamp (schema.mutates s e) (schema.process s e).2 := by
  have ht : (⟨schema.table, e⟩ : Scope).table.check = .ok () := (check_eq_ok_iff.mp h).1
  rw [(schema.process_eq_jobs s e).1]
  exact Job.clocked_after ht hs _

/-- **The clock tells the latest event that mutated,** or what it told before, if none did. -/
theorem isLatest_run (events : List Event) :
    IsLatest (s.clock.toList ++ (schema.mutating s events).map Event.timestamp)
      (schema.run s events).2.clock := by
  induction events generalizing s with
  | nil =>
      show IsLatest (s.clock.toList ++ []) s.clock
      cases s.clock with
      | none => rfl
      | some w => simp [IsLatest]
  | cons e rest ih =>
      have hstep := clocked_process h hs e
      have hrest := ih (reachable_process h hs e)
      rw [hstep.clock] at hrest
      rw [mutating, run_cons]
      cases hb : schema.mutates s e with
      | false =>
          rw [hb] at hrest
          exact hrest
      | true =>
          -- The rest began at the time of this event, and the clock was not past that.
          rw [hb] at hrest hstep
          refine hrest.append_of_le fun w hw => ?_
          exact hstep.clock_le rfl w (Option.mem_toList.mp hw)

end

/-! ### Late events -/

end Schema

/-- A job fails, on a store whose clock stands at `w`, since the event is older than that, and the
report on it tells the time of the event and `w`. -/
structure Job.ReportedLate (scope : Scope) (s : Store) (job : Job) (f : Failure) (w : Int64) :
    Prop where
  failure : job.failure? scope s = some f
  clock : s.clock = some w
  late : scope.event.timestamp < w
  timestamp : f.timestamp = scope.event.timestamp
  error : f.error = .refused (.late scope.event.timestamp w)

theorem Job.exists_reportedLate {scope : Scope} {s : Store} (ht : scope.table.check = .ok ())
    (hs : s.Reachable) {job : Job} (hjob : job.change.check scope.table = .ok ()) {f : Failure}
    (hf : job.failure? scope s = some f) (hcategory : f.error.category = .outOfOrder) :
    ∃ w, job.ReportedLate scope s f w := by
  obtain ⟨e, he, rfl⟩ := exists_of_failure? hf
  obtain ⟨a, -, hexplains⟩ := (Change.safe ht hs hjob).explained e he
  cases hexplains with
  | late hclock hlate => exact ⟨_, hf, hclock, hlate, rfl, rfl⟩
  | _ => cases hcategory

namespace Schema

variable {schema : Schema} {s : Store}

/-- A failure of a run on an empty store tells that an event was late: one of its jobs is reported
late, the clock stood as it did before the event, and it was set by an earlier event. -/
def TellsLate (schema : Schema) (events : List Event) (f : Failure) : Prop :=
  ∃ before e after done job rest w, events = before ++ e :: after ∧
    schema.jobsFor e.name = done ++ job :: rest ∧
    job.ReportedLate ⟨schema.table, e⟩
      (Job.after ⟨schema.table, e⟩ (schema.run {} before).2 done) f w ∧
    (schema.run {} before).2.clock = some w ∧ ∃ d ∈ before, d.timestamp = w

/-- What times have to do with a run on an empty store.

* `clock`: after each event the clock tells the latest of the events so far that mutated.
* `clock_le`: so it does not go back.
* `late`: each failure that is out of order tells that an event was late.
* `ordered`: events in order of time are never late. -/
structure Timely (schema : Schema) (events : List Event) : Prop where
  clock : ∀ before, before <+: events →
    IsLatest ((schema.mutating {} before).map Event.timestamp) (schema.run {} before).2.clock
  clock_le : ∀ before more, before ++ more <+: events → ∀ w ∈ (schema.run {} before).2.clock,
    ∃ w' ∈ (schema.run {} (before ++ more)).2.clock, w ≤ w'
  late : ∀ f ∈ (schema.run {} events).1.failures, f.error.category = .outOfOrder →
    schema.TellsLate events f
  ordered : events.Pairwise (fun d e => d.timestamp ≤ e.timestamp) →
    ∀ f ∈ (schema.run {} events).1.failures, f.error.category ≠ .outOfOrder

/-- An event that mutates is not late for its later jobs either. -/
theorem clock_of_reportedLate (h : schema.check = .ok ()) (hs : s.Reachable) {e : Event}
    {done : List Job} {job : Job} {f : Failure} {w : Int64}
    (hlate : job.ReportedLate ⟨schema.table, e⟩ (Job.after ⟨schema.table, e⟩ s done) f w) :
    s.clock = some w := by
  have ht : (⟨schema.table, e⟩ : Scope).table.check = .ok () := (check_eq_ok_iff.mp h).1
  have hclock := (Job.clocked_after ht hs done).clock
  rw [hlate.clock] at hclock
  split at hclock
  · -- If one of the jobs before had mutated, the clock would tell the time of the event itself.
    have heq : w = e.timestamp := Option.some.inj hclock
    have hlt : e.timestamp < w := hlate.late
    rw [heq] at hlt
    exact (Int64.lt_irrefl hlt).elim
  · exact hclock.symm

theorem tellsLate (h : schema.check = .ok ()) {events : List Event} {f : Failure}
    (hf : f ∈ (schema.run {} events).1.failures) (hcategory : f.error.category = .outOfOrder) :
    schema.TellsLate events f := by
  obtain ⟨before, e, after, rfl, hfailed⟩ := mem_failures_run.mp hf
  have ht : (⟨schema.table, e⟩ : Scope).table.check = .ok () := (check_eq_ok_iff.mp h).1
  have hs := reachable_run h Store.Reachable.empty before
  rw [(schema.process_eq_jobs _ e).2.1] at hfailed
  obtain ⟨done, job, rest, hjobs, hfailed⟩ := Job.mem_failures.mp hfailed
  have hmem : job ∈ schema.jobsFor e.name :=
    hjobs ▸ List.mem_append_right _ List.mem_cons_self
  obtain ⟨w, hlate⟩ := Job.exists_reportedLate ht (Job.reachable_after ht hs done)
    (check_of_mem_jobsFor h hmem) hfailed hcategory
  have hclock := clock_of_reportedLate h hs hlate
  have hlatest := isLatest_run h Store.Reachable.empty before
  rw [hclock] at hlatest
  obtain ⟨d, hd, hdw⟩ := List.mem_map.mp hlatest.1
  exact ⟨before, e, after, done, job, rest, w, rfl, hjobs, hlate, hclock, d,
    (schema.mutating_sublist {} before).subset hd, hdw⟩

/-- An event that is told to be late stands after one that is later. -/
theorem not_ordered_of_tellsLate {events : List Event} {f : Failure}
    (h : schema.TellsLate events f) :
    ¬events.Pairwise fun d e => d.timestamp ≤ e.timestamp := by
  obtain ⟨before, e, after, done, job, rest, w, rfl, -, hlate, -, d, hd, rfl⟩ := h
  intro hordered
  have hle := (List.pairwise_append.mp hordered).2.2 d hd e List.mem_cons_self
  exact absurd hlate.late (Int64.not_lt.mpr hle)

/-- **The clock of a run tells the latest event that mutated, and late events are those before
it.** -/
theorem timely (h : schema.Accepted) (events : List Event) : schema.Timely events where
  clock before _ := isLatest_run (accepted_iff.mp h) .empty before
  clock_le before more _ := by
    have hcheck := accepted_iff.mp h
    have hs := reachable_run hcheck Store.Reachable.empty before
    rw [run_append]
    exact (hs.continues (leadsTo_run hcheck hs more)).clock_le
  late _ := tellsLate (accepted_iff.mp h)
  ordered hordered _ hf hcategory :=
    not_ordered_of_tellsLate (tellsLate (accepted_iff.mp h) hf hcategory) hordered

/-- The second event is the latest, but its increment is refused, and the third only looks at the
stack. So the clock comes to that of the fourth, a `pop` of an empty stack, and the last is late. -/
theorem timely_of_refused :
    let held : List Locator := [.constant "Held"]
    let schema : Schema := {
      handlers := [
        ⟨.ofText "set", [.assign held ⟨.eventName, false, .none⟩]⟩,
        ⟨.ofText "add", [.assign held ⟨.literal (.int 1), true, .none⟩]⟩,
        ⟨.ofText "look", [.assign held ⟨.literal .null, false, .peek⟩]⟩,
        ⟨.ofText "pop", [.assign held ⟨.literal .null, false, .pop⟩]⟩] }
    let events : List Event := [
      { name := "set", timestamp := 5 }, { name := "add", timestamp := 9 },
      { name := "look", timestamp := 8 }, { name := "pop", timestamp := 7 },
      { name := "set", timestamp := 6 }]
    schema.Accepted ∧ schema.Timely events ∧
      (schema.mutating {} events).map Event.timestamp = [5, 7] ∧
      (schema.run {} events).2.clock = some 7 ∧
      (schema.run {} events).1.failures.map (fun f => (f.timestamp, f.error.category)) =
        [(9, .invalidMutation), (6, .outOfOrder)] := by
  intro held schema events
  have h : schema.Accepted := accepted_iff.mpr rfl
  exact ⟨h, timely h events, by decide +kernel, by decide +kernel, by decide +kernel⟩

/-! ### What was recorded -/

/-- **What was recorded when a run began stands when it ends.** Each attribute keeps its name and
its parent, its closed intervals stay in front of those that the run closes, which begin no earlier
than its ongoing interval did, and its values at times before the clock stay. -/
theorem recorded_stands (h : schema.Accepted) (hs : s.Reachable) (events : List Event) (q : Quark)
    (hq : s.tree.contains q = true) :
    (schema.run s events).2.tree.node? q = s.tree.node? q ∧
      (∃ more, (schema.run s events).2.intervals q = s.intervals q ++ more ∧
        ∀ i ∈ more, ∀ b ∈ s.since q, b ≤ i.start) ∧
      ∀ w ∈ s.clock, ∀ t < w, (schema.run s events).2.valueAt q t = s.valueAt q t := by
  have hcontinues := hs.continues (leadsTo_run (accepted_iff.mp h) hs events)
  exact ⟨hcontinues.tree.node?_eq hq, (hcontinues.track q).closed, (hcontinues.track q).valueAt⟩

/-- At the time of the clock the value of `CPUs/1` is popped and then removed with what is below
`CPUs`. What it held before then stays, and its last interval is closed only once. -/
theorem recorded_stands_of_removal :
    let cpus : List Locator := [.constant "CPUs"]
    let schema : Schema := {
      handlers := [
        ⟨.ofText "exit", [.assign (cpus ++ [.constant "1"]) ⟨.literal .null, false, .pop⟩]⟩,
        ⟨.ofText "down", [.assign cpus ⟨.delete, false, .none⟩]⟩] }
    let s := ({} : Store).callEach [.create .root "CPUs", .create 0 "1",
      .mutate 1 3 (.push (.int 7)), .mutate 1 6 (.push (.int 8)), .mutate 0 10 (.set (.int 1))]
    let events : List Event := [
      { name := "exit", timestamp := 10 }, { name := "down", timestamp := 10 }]
    let after := (schema.run s events).2
    schema.Accepted ∧ s.Reachable ∧ s.tree.contains 1 = true ∧ s.clock = some 10 ∧
      (after.tree.node? 1 = s.tree.node? 1 ∧
        (∃ more, after.intervals 1 = s.intervals 1 ++ more ∧
          ∀ i ∈ more, ∀ b ∈ s.since 1, b ≤ i.start) ∧
        ∀ w ∈ s.clock, ∀ t < w, after.valueAt 1 t = s.valueAt 1 t) ∧
      s.intervals 1 = [⟨3, 6, .int 7⟩] ∧
      after.intervals 1 = [⟨3, 6, .int 7⟩, ⟨6, 10, .int 8⟩] ∧ after.ongoing 1 = .null := by
  intro cpus schema s events after
  have h : schema.Accepted := accepted_iff.mpr rfl
  have hs : s.Reachable := Store.Reachable.empty.callEach _
  have hq : s.tree.contains 1 = true := by decide +kernel
  exact ⟨h, hs, hq, by decide +kernel, recorded_stands h hs events 1 hq, by decide +kernel,
    by decide +kernel, by decide +kernel⟩

end Schema
end Chronicle
