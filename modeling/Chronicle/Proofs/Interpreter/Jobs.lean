import Chronicle.Interpreter.Run
import Chronicle.Proofs.Schema.Sound

/-!
# Events as lists of jobs

The state changes that an event calls for can be written in one list: those of the first handler
whose pattern fits, in order, then those of the second, and so on. Each is a *job* that knows the
text of its handler's pattern and its place in the handler. To process an event is to do the jobs
one after another, each on the store that the one before left, and to report those that fail
(`Schema.process_eq_jobs`, `Schema.process_eq_fitting`).

A failure changes nothing of this: the jobs are listed before any is done.
-/

namespace Chronicle

/-- A state change, with the text of its handler's pattern and its place in the handler. -/
structure Job where
  handler : String
  index : Nat
  change : Change

namespace Job

/-- State changes as the jobs of a handler, their places counted from `start`. -/
def label (handler : String) (start : Nat) (changes : List Change) : List Job :=
  (changes.zipIdx start).map fun (change, index) => ⟨handler, index, change⟩

theorem label_cons (handler : String) (start : Nat) (change : Change) (rest : List Change) :
    label handler start (change :: rest) =
      ⟨handler, start, change⟩ :: label handler (start + 1) rest := rfl

variable (scope : Scope)

/-- The store that a job leaves. -/
def store (s : Store) (job : Job) : Store :=
  (job.change.apply scope s).store

/-- The report on a job, if it fails. -/
def failure? (s : Store) (job : Job) : Option Failure :=
  match (job.change.apply scope s).failures with
  | .ok () => none
  | .error error =>
    some ⟨scope.event.name, scope.event.timestamp, job.handler, job.index, error⟩

/-- The store after jobs, each done on the store that the one before left. -/
def after (s : Store) (jobs : List Job) : Store :=
  jobs.foldl (store scope) s

/-- The reports on the jobs that fail, in order, when each is done on the store that the one before
left. -/
def failures (s : Store) : List Job → List Failure
  | [] => []
  | job :: rest => (job.failure? scope s).toList ++ failures (job.store scope s) rest

/-- What is observed when jobs are done one after another. -/
def observed (s : Store) : List Job → Observation
  | [] => {}
  | job :: rest => (job.change.apply scope s).toObservation ++ observed (job.store scope s) rest

variable {scope} {s : Store}

theorem after_cons (job : Job) (rest : List Job) :
    after scope s (job :: rest) = after scope (job.store scope s) rest := rfl

theorem after_append (jobs more : List Job) :
    after scope s (jobs ++ more) = after scope (after scope s jobs) more :=
  List.foldl_append

theorem failures_append (jobs more : List Job) :
    failures scope s (jobs ++ more) =
      failures scope s jobs ++ failures scope (after scope s jobs) more := by
  induction jobs generalizing s with
  | nil => rfl
  | cons job rest ih =>
      rw [List.cons_append, failures, failures, ih, List.append_assoc]
      rfl

theorem observed_append (jobs more : List Job) :
    observed scope s (jobs ++ more) =
      observed scope s jobs ++ observed scope (after scope s jobs) more := by
  induction jobs generalizing s with
  | nil => exact (Observation.empty_append _).symm
  | cons job rest ih =>
      rw [List.cons_append, observed, observed, ih, Observation.append_assoc]
      rfl

/-- There is a report on each job that fails on the store that those before it left, and no
other. -/
theorem mem_failures {jobs : List Job} {f : Failure} :
    f ∈ failures scope s jobs ↔ ∃ done job rest, jobs = done ++ job :: rest ∧
      job.failure? scope (after scope s done) = some f := by
  constructor
  · induction jobs generalizing s with
    | nil => intro h; cases h
    | cons job rest ih =>
        intro h
        rcases List.mem_append.mp h with h | h
        · exact ⟨[], job, rest, rfl, Option.mem_toList.mp h⟩
        · obtain ⟨done, failed, rest, rfl, hf⟩ := ih h
          exact ⟨job :: done, failed, rest, rfl, hf⟩
  · rintro ⟨done, job, rest, rfl, hf⟩
    rw [failures_append, failures]
    exact List.mem_append_right _ (List.mem_append_left _ (Option.mem_toList.mpr hf))

end Job

/-! ### One handler after another -/

namespace Handler

/-- The jobs of a handler. -/
def jobs (h : Handler) : List Job :=
  Job.label h.pattern.text 0 h.changes

end Handler

namespace Change

variable {scope : Scope}

/-- The state changes of a handler are done one after another, and none is left out. -/
theorem applyFrom_eq_jobs (handler : String) (s : Store) (start : Nat) (changes : List Change) :
    (applyFrom scope s start changes).store = Job.after scope s (Job.label handler start changes) ∧
      ((applyFrom scope s start changes).failures.map fun (index, error) =>
        (⟨scope.event.name, scope.event.timestamp, handler, index, error⟩ : Failure)) =
          Job.failures scope s (Job.label handler start changes) ∧
      (applyFrom scope s start changes).toObservation =
        Job.observed scope s (Job.label handler start changes) := by
  induction changes generalizing s start with
  | nil => exact ⟨rfl, rfl, rfl⟩
  | cons change rest ih =>
      obtain ⟨hstore, hfailures, hobserved⟩ := ih (change.apply scope s).store (start + 1)
      rw [Job.label_cons]
      refine ⟨hstore, ?_, ?_⟩
      · rw [Job.failures, applyFrom, List.map_append, hfailures, Job.failure?]
        cases (change.apply scope s).failures with
        | ok u => rfl
        | error e => rfl
      · rw [Job.observed, applyFrom, hobserved]
        rfl

end Change

namespace Schema

/-- The lookups that handlers make when they are given an event in order. -/
def lookupsWith (scope : Scope) (s : Store) : List Handler → Nat
  | [] => 0
  | h :: rest => (h.handle scope s).lookups + lookupsWith scope (h.handle scope s).store rest

/-- The lookups that a run makes. -/
def lookups (schema : Schema) (s : Store) : List Event → Nat
  | [] => 0
  | e :: rest =>
    lookupsWith ⟨schema.table, e⟩ s (schema.handlersFor e.name) +
      schema.lookups (schema.process s e).2 rest

/-- **Handlers do their jobs one after another.** The journal tells of the failures and of what is
remarked on. -/
theorem processWith_eq_jobs (scope : Scope) (s : Store) (handlers : List Handler) :
    (processWith scope s handlers).2 = Job.after scope s (handlers.flatMap Handler.jobs) ∧
      (processWith scope s handlers).1.failures =
        Job.failures scope s (handlers.flatMap Handler.jobs) ∧
      lookupsWith scope s handlers =
        (Job.observed scope s (handlers.flatMap Handler.jobs)).lookups ∧
      ∀ r, .remark r ∈ (processWith scope s handlers).1 ↔
        r ∈ (Job.observed scope s (handlers.flatMap Handler.jobs)).remarks := by
  induction handlers generalizing s with
  | nil => exact ⟨rfl, rfl, rfl, by simp [processWith, Job.observed]⟩
  | cons h rest ih =>
      obtain ⟨hstore, hfailures, hobserved⟩ :=
        Change.applyFrom_eq_jobs h.pattern.text s 0 h.changes
      obtain ⟨hlast, hlater, hlookups, hremarks⟩ := ih (h.handle scope s).store
      rw [List.flatMap_cons, Job.after_append, Job.failures_append, Job.observed_append,
        Handler.jobs, ← hstore, ← hfailures, ← hobserved]
      refine ⟨hlast, ?_, congrArg _ hlookups, fun r => ?_⟩
      · simp only [processWith, Journal.failures_append, Journal.failures_map_remark,
          Journal.failures_map_failure, List.nil_append]
        exact congrArg _ hlater
      · have hlater := hremarks r
        simp only [processWith, List.mem_append, Observation.remarks_append]
        rw [hlater]
        simp [Handler.handle]

/-- The jobs that an event of the given name calls for. -/
def jobsFor (schema : Schema) (eventName : String) : List Job :=
  (schema.handlersFor eventName).flatMap Handler.jobs

/-- The jobs of a sound schema are sound. -/
theorem check_of_mem_jobsFor {schema : Schema} (h : schema.check = .ok ()) {eventName : String}
    {job : Job} (hj : job ∈ schema.jobsFor eventName) : job.change.check schema.table = .ok () := by
  obtain ⟨handler, hhandler, hj⟩ := List.mem_flatMap.mp hj
  obtain ⟨⟨change, index⟩, hmem, rfl⟩ := List.mem_map.mp hj
  have hcheck := (check_eq_ok_iff.mp h).2 handler (List.mem_filter.mp hhandler).1
  exact (Handler.check_eq_ok_iff.mp hcheck).2 change (List.fst_mem_of_mem_zipIdx hmem)

theorem process_eq_jobs (schema : Schema) (s : Store) (e : Event) :
    (schema.process s e).2 = Job.after ⟨schema.table, e⟩ s (schema.jobsFor e.name) ∧
      (schema.process s e).1.failures =
        Job.failures ⟨schema.table, e⟩ s (schema.jobsFor e.name) ∧
      lookupsWith ⟨schema.table, e⟩ s (schema.handlersFor e.name) =
        (Job.observed ⟨schema.table, e⟩ s (schema.jobsFor e.name)).lookups ∧
      ∀ r, .remark r ∈ (schema.process s e).1 ↔
        r ∈ (Job.observed ⟨schema.table, e⟩ s (schema.jobsFor e.name)).remarks :=
  processWith_eq_jobs ..

/-- The failures of a run come event by event. -/
theorem failures_run_cons (schema : Schema) (s : Store) (e : Event) (rest : List Event) :
    (schema.run s (e :: rest)).1.failures =
      (schema.process s e).1.failures ++ (schema.run (schema.process s e).2 rest).1.failures :=
  Journal.failures_append ..

end Schema

/-! ### Patterns as texts -/

namespace Pattern

/-- A text fits an event name: it is the name, or it ends in `*` and what stands before that `*`
starts the name. -/
def Fits (text name : String) : Prop :=
  text = name ∨ ∃ start, text = start ++ String.ofList [wildcard] ∧ start.toList <+: name.toList

/-- A pattern that is made of a text covers the names that the text fits. -/
theorem covers_ofText_iff {text name : String} :
    (ofText text).covers name = true ↔ Fits text name := by
  unfold ofText
  split
  · next h =>
    obtain ⟨start, hstart⟩ := List.getLast?_eq_some_iff.mp h
    have htext : text = String.ofList start ++ String.ofList [wildcard] := by
      rw [← String.ofList_append, ← hstart, String.ofList_toList]
    rw [covers, List.isPrefixOf_iff_prefix, hstart, List.dropLast_concat, String.toList_ofList]
    constructor
    · exact fun hp => .inr ⟨String.ofList start, htext, by rwa [String.toList_ofList]⟩
    · rintro (rfl | ⟨other, hother, hp⟩)
      · rw [hstart]
        exact List.prefix_append start [wildcard]
      · have hlist := congrArg String.toList hother
        rw [hstart, String.toList_append, String.toList_ofList] at hlist
        rwa [List.append_cancel_right hlist]
  · next h =>
    rw [covers, beq_iff_eq]
    refine ⟨.inl, ?_⟩
    rintro (heq | ⟨start, rfl, -⟩)
    · exact heq
    · simp at h

instance (text name : String) : Decidable (Fits text name) :=
  decidable_of_iff _ covers_ofText_iff

end Pattern

namespace Schema

/-- The jobs of the handlers whose pattern's text fits an event name, in order. -/
def fittingJobs (schema : Schema) (eventName : String) : List Job :=
  (schema.handlers.filter fun h => Pattern.Fits h.pattern.text eventName).flatMap Handler.jobs

theorem jobsFor_eq_fittingJobs {schema : Schema}
    (hp : ∀ h ∈ schema.handlers, ∃ text, h.pattern = .ofText text) (eventName : String) :
    schema.jobsFor eventName = schema.fittingJobs eventName := by
  rw [jobsFor, fittingJobs, handlersFor]
  congr 1
  refine List.filter_congr fun h hh => ?_
  obtain ⟨text, ht⟩ := hp h hh
  rw [ht, Pattern.text_ofText, Bool.eq_iff_iff, decide_eq_true_eq]
  exact Pattern.covers_ofText_iff

/-- **To process an event is to do the fitting jobs in one flat sequence.** The store is the one
that the last job leaves, and there is one failure, in the order of the jobs, for each job that
fails on the store that those before it left. -/
theorem process_eq_fitting {schema : Schema}
    (hp : ∀ h ∈ schema.handlers, ∃ text, h.pattern = .ofText text) (s : Store) (e : Event) :
    (schema.process s e).2 = Job.after ⟨schema.table, e⟩ s (schema.fittingJobs e.name) ∧
      (schema.process s e).1.failures =
        Job.failures ⟨schema.table, e⟩ s (schema.fittingJobs e.name) := by
  obtain ⟨hstore, hfailures, -⟩ := schema.process_eq_jobs s e
  rw [← jobsFor_eq_fittingJobs hp]
  exact ⟨hstore, hfailures⟩

/-- Two handlers fit, by a start and by the whole name. The first change has no name for its target,
and the last finds the text that the one between wrote. -/
theorem process_eq_fitting_of_two :
    let schema : Schema := {
      handlers := [
        ⟨.ofText "sched*", [.assign [.eventField "tid"] ⟨.eventName, false, .none⟩,
          .assign [.constant "Last"] ⟨.eventName, false, .none⟩]⟩,
        ⟨.ofText "irq", [.assign [.constant "Irqs"] ⟨.eventName, false, .none⟩]⟩,
        ⟨.ofText "sched_switch", [.assign [.constant "Last"] ⟨.literal (.int 1), true, .none⟩]⟩] }
    let e : Event := { name := "sched_switch", timestamp := 5 }
    (∀ h ∈ schema.handlers, ∃ text, h.pattern = .ofText text) ∧
      ((schema.process {} e).2 = Job.after ⟨schema.table, e⟩ {} (schema.fittingJobs e.name) ∧
        (schema.process {} e).1.failures =
          Job.failures ⟨schema.table, e⟩ {} (schema.fittingJobs e.name)) ∧
      (schema.process {} e).1.failures.map (fun f => (f.handler, f.index)) =
        [("sched*", 0), ("sched_switch", 0)] := by
  intro schema e
  have hp : ∀ h ∈ schema.handlers, ∃ text, h.pattern = .ofText text := by
    intro h hh
    simp only [schema, List.mem_cons, List.not_mem_nil, or_false] at hh
    rcases hh with rfl | rfl | rfl
    · exact ⟨"sched*", rfl⟩
    · exact ⟨"irq", rfl⟩
    · exact ⟨"sched_switch", rfl⟩
  exact ⟨hp, process_eq_fitting hp {} e, by decide +kernel⟩

end Schema
end Chronicle
