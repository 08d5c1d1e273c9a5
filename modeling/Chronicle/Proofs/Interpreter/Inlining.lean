import Chronicle.Proofs.Interpreter.Assignments
import Chronicle.Proofs.Interpreter.Jobs
import Chronicle.Proofs.Interpreter.Unfolding
import Chronicle.Proofs.Schema.Inlining

/-!
# Locations mean their paths

A path is found and grown alike with its locations and with these replaced
(`Scope.find_inline`, `Scope.grow_inline`): the same attribute, the same lookups, the same remarks.
So a whole run is the same (`Schema.run_inlined`), but for what tells of a path as it is written:
the failures of targets without a name, and some remarks. Evaluations that differ in remarks only
are said to agree (`Observed.Agrees`).
-/

namespace Chronicle

namespace Scope

/-- The scope of the same event in which no location is defined. -/
def bare (scope : Scope) : Scope :=
  ⟨default, scope.event⟩

variable {scope : Scope} {s : Store}

/-- What comes of an unknown location does not hang on the table. -/
theorem unexpanded_bare {name : String} (h : scope.table.path? name = none) :
    scope.bare.unexpanded name = scope.unexpanded name := by
  have hbare : scope.bare.table.defines name = false := rfl
  rw [unexpanded_of_not_defines (Table.defines_eq_false_iff.mpr h),
    unexpanded_of_not_defines hbare]

/-- **A path is found alike with its locations replaced.** -/
theorem find_inline (ht : scope.table.check = .ok ()) (path : List Locator) :
    ∀ q, scope.bare.find s q (scope.table.inline path) = scope.find s q path := by
  induction path using Table.path_induction (h := ht) with
  | nil => exact fun _ => rfl
  | constant name rest ih =>
      intro q
      simp only [Table.inline_constant, find_cons, findOne_constant, ih]
  | eventField name rest ih =>
      intro q
      simp only [Table.inline_eventField, find_cons, findOne_eventField, ih]
      rfl
  | query path rest ihp ih =>
      intro q
      simp only [Table.inline_query, find_cons, findOne_query, ihp, ih]
  | location name rest ihp ih =>
      intro q
      rw [Table.inline_location ht, find_cons, findOne_location ht]
      cases hp : scope.table.path? name with
      | none =>
          have hone : scope.bare.findOne s q (.location name) = scope.bare.unexpanded name :=
            findOne_location Table.check_empty q name
          simp only [find_cons, hone, unexpanded_bare hp, ih]
      | some path =>
          simp only [find_append, ihp path hp, ih]

theorem valueAt_inline (ht : scope.table.check = .ok ()) (path : List Locator) :
    scope.bare.valueAt s (scope.table.inline path) = scope.valueAt s path := by
  rw [valueAt, valueAt, find_inline ht]

/-- **A path is grown alike with its locations replaced.** -/
theorem grow_inline (ht : scope.table.check = .ok ()) (path : List Locator) :
    ∀ s q, scope.bare.grow s q (scope.table.inline path) = scope.grow s q path := by
  induction path using Table.path_induction (h := ht) with
  | nil => exact fun _ _ => rfl
  | constant name rest ih =>
      intro s q
      simp only [Table.inline_constant, grow_cons, growOne_constant, ih]
  | eventField name rest ih =>
      intro s q
      simp only [Table.inline_eventField, grow_cons, growOne_eventField, ih]
      rfl
  | query path rest _ ih =>
      intro s q
      simp only [Table.inline_query, grow_cons, growOne_query, valueAt_inline ht, ih]
  | location name rest ihp ih =>
      intro s q
      rw [Table.inline_location ht, grow_cons, growOne_location ht]
      cases hp : scope.table.path? name with
      | none =>
          have hone : scope.bare.growOne s q (.location name) = scope.bare.ungrown name s :=
            growOne_location Table.check_empty q name
          simp only [grow_cons, hone, ungrown, unexpanded_bare hp, ih]
      | some path =>
          simp only [grow_append, ihp path hp, ih]

end Scope

/-! ### Evaluations that agree -/

/-- Two evaluations come to the same with as many lookups. -/
structure Observed.Agrees {α : Type} (x y : Observed α) : Prop where
  val : x.val = y.val
  lookups : x.lookups = y.lookups

namespace Observed.Agrees

variable {α β : Type} {x y : Observed α} {f g : α → Observed β}

theorem refl (x : Observed α) : x.Agrees x :=
  ⟨rfl, rfl⟩

theorem bind (h : x.Agrees y) (hf : ∀ a, (f a).Agrees (g a)) : (x >>= f).Agrees (y >>= g) := by
  refine ⟨?_, ?_⟩
  · rw [val_bind, val_bind, h.val, (hf y.val).val]
  · rw [lookups_bind, lookups_bind, h.val, h.lookups, (hf y.val).lookups]

/-- Remarks may differ. -/
theorem remark_bind (r r' : Remark) (h : x.Agrees y) :
    (Observed.remark r >>= fun _ => x).Agrees (Observed.remark r' >>= fun _ => y) :=
  bind ⟨rfl, rfl⟩ fun _ => h

end Observed.Agrees

section

variable {scope : Scope} {s : Store} (ht : scope.table.check = .ok ())

include ht

theorem Source.evaluate_inline (source : Source) :
    ((source.mapPaths scope.table.inline).evaluate scope.bare s).Agrees
      (source.evaluate scope s) := by
  cases source with
  | query path =>
      rw [Source.mapPaths, evaluate, evaluate, Scope.valueAt_inline ht]
      refine .bind (.refl _) fun v => ?_
      cases v with
      | some v => exact .refl _
      | none => exact .remark_bind _ _ (.refl _)
  | eventField name kind => cases kind <;> exact .refl _
  | _ => exact .refl _

theorem Operand.evaluate_inline (operand : Operand) :
    ((operand.mapPaths scope.table.inline).evaluate scope.bare s).Agrees
      (operand.evaluate scope s) := by
  rcases operand with path | m
  · rw [Operand.mapPaths, evaluate, evaluate, Scope.valueAt_inline ht]
    refine .bind (.refl _) fun v => ?_
    cases v with
    | some v => exact .refl _
    | none => exact .remark_bind _ _ (.refl _)
  · exact .bind (m.source.evaluate_inline ht) fun v => .refl _

theorem Comparison.test_inline (l : Comparison) :
    ((l.mapPaths scope.table.inline).test scope.bare s).Agrees (l.test scope s) := by
  refine .bind (l.operand.evaluate_inline ht) fun v => ?_
  cases v with
  | none => exact .refl _
  | some v => exact .bind (l.expected.source.evaluate_inline ht) fun w => .refl _

end

namespace Condition

variable {φ : List Locator → List Locator} {p : Comparison → Bool}

mutual

theorem holds_mapPaths : ∀ c : Condition,
    (c.mapPaths φ).holds p = c.holds fun l => p (l.mapPaths φ)
  | .leaf _ _ => rfl
  | .not c => congrArg (!·) (holds_mapPaths c)
  | .all cs => congrArg (·.all id) (holdsEach_mapPaths cs)
  | .any cs => congrArg (·.any id) (holdsEach_mapPaths cs)

theorem holdsEach_mapPaths : ∀ cs : List Condition,
    holdsEach p (mapPathsOfEach φ cs) = holdsEach (fun l => p (l.mapPaths φ)) cs
  | [] => rfl
  | c :: rest => by
    rw [mapPathsOfEach, holdsEach, holdsEach, holds_mapPaths c, holdsEach_mapPaths rest]

end

variable {scope : Scope} {s : Store}

/-- A condition is tested alike with its locations replaced. -/
theorem test_inline (ht : scope.table.check = .ok ()) (c : Condition) :
    ((c.mapPaths scope.table.inline).test scope.bare s).Agrees (c.test scope s) := by
  refine ⟨?_, ?_⟩
  · rw [val_test, val_test, holds_mapPaths]
    exact holds_congr c fun l _ => (l.test_inline ht).val
  · rw [observation_test, observation_test, leaves_mapPaths, List.map_map]
    exact Observation.lookups_join_congr fun l _ => (l.test_inline ht).lookups

end Condition

/-! ### State changes that agree -/

namespace ChangeError

/-- A failure with the path of a target rewritten. -/
def mapPath (φ : List Locator → List Locator) : ChangeError → ChangeError
  | .attributeNotFound path => .attributeNotFound (φ path)
  | e => e

/-- Only a target without a name is told of by its path. -/
theorem mapPath_of_fails {φ : List Locator → List Locator} {e : Event} {m : Term}
    {error : ChangeError} (h : m.Fails e error) : error.mapPath φ = error := by
  cases h <;> rfl

end ChangeError

/-- Two state changes do the same with as many lookups, and if they fail, for the same reason, where
paths are told of by `φ`. -/
structure Effect.Agrees (φ : List Locator → List Locator) (x y : Effect (Except ChangeError Unit)) :
    Prop where
  failures : x.failures = y.failures.mapError (ChangeError.mapPath φ)
  store : x.store = y.store
  lookups : x.lookups = y.lookups

/-- An assignment with its paths rewritten. -/
def Assignment.mapPaths (φ : List Locator → List Locator) (a : Assignment) : Assignment :=
  ⟨φ a.target, a.term.mapPaths φ⟩

section

variable {scope : Scope} {s : Store} (ht : scope.table.check = .ok ())

include ht

theorem Term.mutation?_inline {m : Term} (hm : m.Sound scope.table) (q : Quark) :
    ((m.mapPaths scope.table.inline).mutation? scope.bare s q).Agrees
      (m.mutation? scope s q) := by
  unfold mutation?
  have hdelete : (m.mapPaths scope.table.inline).source.isDelete = m.source.isDelete :=
    Source.isDelete_mapPaths m.source
  rw [hdelete]
  cases m.source.isDelete with
  | true =>
      rw [if_pos rfl, if_pos rfl]
      exact .refl _
  | false =>
      rw [if_neg Bool.false_ne_true, if_neg Bool.false_ne_true]
      cases hi : m.increment with
      | true =>
          -- what is added has no path
          have hsource : (m.mapPaths scope.table.inline).source = m.source := by
            have hcan := hm.increment hi
            rw [Term.mapPaths]
            cases hs : m.source with
            | query path => rw [hs] at hcan; cases hcan
            | _ => rfl
          have hinc : (m.mapPaths scope.table.inline).increment = true := hi
          rw [hsource, hinc, if_pos rfl, if_pos rfl]
          exact .refl _
      | false =>
          have hinc : (m.mapPaths scope.table.inline).increment = false := hi
          rw [hinc, if_neg Bool.false_ne_true, if_neg Bool.false_ne_true]
          exact .bind (m.source.evaluate_inline ht) fun v => .refl _

/-- An assignment is done alike with its locations replaced. -/
theorem Assignment.perform_inline {a : Assignment} (ha : a.Sound scope.table) :
    (perform scope.bare s (some (a.mapPaths scope.table.inline))).Agrees scope.table.inline
      (perform scope s (some a)) := by
  have htarget : scope.bare.grow s Quark.root (a.mapPaths scope.table.inline).target =
      scope.grow s Quark.root a.target := Scope.grow_inline ht a.target s Quark.root
  have hperform : ∀ (scope : Scope) (a : Assignment),
      perform scope s (some a) = Change.assignTo scope s a.target a.term := fun _ _ => rfl
  rw [hperform, hperform, Change.assignTo, Change.assignTo, htarget]
  cases hq : (scope.grow s Quark.root a.target).result with
  | error u => exact ⟨rfl, rfl, rfl⟩
  | ok q =>
      have hasked := Term.mutation?_inline (s := (scope.grow s Quark.root a.target).store) ht
        ha.term q
      have hfails : ∀ e,
          (a.term.mutation? scope (scope.grow s Quark.root a.target).store q).val = .error e →
            a.term.Fails scope.event e := fun e => Term.fails_of_mutation? ha.term
      have hevent : scope.bare.event = scope.event := rfl
      -- what is asked for is the same, and only the remarks differ
      revert hasked hfails
      simp only [Assignment.mapPaths, hevent]
      generalize (a.term.mapPaths _).mutation? _ _ q = x
      generalize a.term.mutation? _ _ q = y
      obtain ⟨⟨n, remarks⟩, asked⟩ := x
      obtain ⟨⟨_, remarks'⟩, _⟩ := y
      rintro ⟨rfl, rfl⟩ hfails
      rcases asked with e | _ | m
      · exact ⟨congrArg _ (ChangeError.mapPath_of_fails (hfails e rfl)).symm, rfl, rfl⟩
      · exact ⟨rfl, rfl, rfl⟩
      · simp only
        cases (scope.grow s Quark.root a.target).store.mutate q scope.event.timestamp m with
        | ok after => exact ⟨rfl, rfl, rfl⟩
        | error r => exact ⟨rfl, rfl, rfl⟩

end

mutual

/-- A state change selects the same assignment with its locations replaced. -/
theorem Change.select_inline {scope : Scope} (ht : scope.table.check = .ok ()) (s : Store) :
    ∀ change : Change, ((change.mapPaths scope.table.inline).select scope.bare s).Agrees (do
      return (← change.select scope s).map (Assignment.mapPaths scope.table.inline))
  | .assign path m => ⟨rfl, rfl⟩
  | .conditional c yes no => by
    rw [Change.mapPaths, select, select, bind_assoc]
    refine .bind (c.test_inline ht) fun b => ?_
    cases b with
    | true => exact selectBranch_inline ht s yes
    | false => exact selectBranch_inline ht s no

theorem Change.selectBranch_inline {scope : Scope} (ht : scope.table.check = .ok ()) (s : Store) :
    ∀ branch : Option Change,
      (selectBranch scope.bare s (mapPathsOfBranch scope.table.inline branch)).Agrees (do
        return (← selectBranch scope s branch).map (Assignment.mapPaths scope.table.inline))
  | none => ⟨rfl, rfl⟩
  | some change => select_inline ht s change

end

/-- **A state change is done alike with its locations replaced.** -/
theorem Change.apply_inline {scope : Scope} (ht : scope.table.check = .ok ()) {s : Store}
    {change : Change} (h : change.check scope.table = .ok ()) :
    ((change.mapPaths scope.table.inline).apply scope.bare s).Agrees scope.table.inline
      (change.apply scope s) := by
  have hselect := change.select_inline ht s
  rw [apply_eq, apply_eq]
  simp only [performSelected]
  have hval : ((change.mapPaths scope.table.inline).select scope.bare s).val =
      (change.select scope s).val.map (Assignment.mapPaths scope.table.inline) := hselect.val
  have hlookups : ((change.mapPaths scope.table.inline).select scope.bare s).lookups =
      (change.select scope s).lookups := hselect.lookups
  rw [hval]
  cases ha : (change.select scope s).val with
  | none => exact ⟨rfl, rfl, congrArg (· + _) hlookups⟩
  | some a =>
      have hdone := Assignment.perform_inline (s := s) ht (sound_of_select change h ha)
      refine ⟨hdone.failures, hdone.store, ?_⟩
      rw [Observation.lookups_append, Observation.lookups_append, hlookups]
      exact congrArg _ hdone.lookups

/-! ### Runs that agree -/

/-- A failure with the path of a target rewritten. -/
def Failure.mapPath (φ : List Locator → List Locator) (f : Failure) : Failure :=
  { f with error := f.error.mapPath φ }

namespace Job

/-- A job with its paths rewritten. -/
def mapPaths (φ : List Locator → List Locator) (job : Job) : Job :=
  { job with change := job.change.mapPaths φ }

variable {scope : Scope} {s : Store} {jobs : List Job}

/-- Jobs are done alike with their locations replaced. -/
theorem inline (ht : scope.table.check = .ok ())
    (hjobs : ∀ job ∈ jobs, job.change.check scope.table = .ok ()) :
    after scope.bare s (jobs.map (mapPaths scope.table.inline)) = after scope s jobs ∧
      failures scope.bare s (jobs.map (mapPaths scope.table.inline)) =
        (failures scope s jobs).map (Failure.mapPath scope.table.inline) ∧
      (observed scope.bare s (jobs.map (mapPaths scope.table.inline))).lookups =
        (observed scope s jobs).lookups := by
  induction jobs generalizing s with
  | nil => simp [after, failures, observed]
  | cons job rest ih =>
      obtain ⟨hjob, hrest⟩ := List.forall_mem_cons.mp hjobs
      have hdone := Change.apply_inline (s := s) ht hjob
      have hchange : (job.mapPaths scope.table.inline).change =
          job.change.mapPaths scope.table.inline := rfl
      have hstore : (job.mapPaths scope.table.inline).store scope.bare s = job.store scope s := by
        rw [store, store, hchange, hdone.store]
      have hfailure : ((job.mapPaths scope.table.inline).failure? scope.bare s).toList =
          (job.failure? scope s).toList.map (Failure.mapPath scope.table.inline) := by
        rw [failure?, failure?, hchange, hdone.failures]
        cases (job.change.apply scope s).failures <;> rfl
      obtain ⟨hafter, hfailures, hlookups⟩ := ih (s := job.store scope s) hrest
      refine ⟨?_, ?_, ?_⟩
      · rw [List.map_cons, after_cons, after_cons, hstore, hafter]
      · rw [List.map_cons, failures, failures, List.map_append, hfailure, hstore, hfailures]
      · rw [List.map_cons, observed, observed, Observation.lookups_append,
          Observation.lookups_append, hstore, hlookups, hchange, hdone.lookups]

end Job

theorem Handler.jobs_mapPaths (φ : List Locator → List Locator) (h : Handler) :
    (h.mapPaths φ).jobs = h.jobs.map (Job.mapPaths φ) := by
  rw [jobs, jobs, Job.label, Job.label, Handler.mapPaths, List.zipIdx_map, List.map_map,
    List.map_map]
  rfl

namespace Schema

variable {schema : Schema}

theorem handlersFor_inlined (schema : Schema) (eventName : String) :
    schema.inlined.handlersFor eventName =
      (schema.handlersFor eventName).map (Handler.mapPaths schema.table.inline) := by
  rw [handlersFor, handlersFor, inlined, List.filter_map]
  rfl

theorem jobsFor_inlined (schema : Schema) (eventName : String) :
    schema.inlined.jobsFor eventName =
      (schema.jobsFor eventName).map (Job.mapPaths schema.table.inline) := by
  rw [jobsFor, jobsFor, handlersFor_inlined, List.flatMap_map, List.map_flatMap]
  simp only [Handler.jobs_mapPaths]

/-- An event is processed alike with the locations replaced. -/
theorem process_inlined (h : schema.check = .ok ()) (s : Store) (e : Event) :
    (schema.inlined.process s e).2 = (schema.process s e).2 ∧
      (schema.inlined.process s e).1.failures =
        (schema.process s e).1.failures.map (Failure.mapPath schema.table.inline) ∧
      lookupsWith ⟨schema.inlined.table, e⟩ s (schema.inlined.handlersFor e.name) =
        lookupsWith ⟨schema.table, e⟩ s (schema.handlersFor e.name) := by
  obtain ⟨hstore, hfailures, hlookups, -⟩ := schema.process_eq_jobs s e
  obtain ⟨hstore', hfailures', hlookups', -⟩ := schema.inlined.process_eq_jobs s e
  have hbare : (⟨schema.inlined.table, e⟩ : Scope) = (⟨schema.table, e⟩ : Scope).bare := rfl
  rw [jobsFor_inlined, hbare] at hstore' hfailures' hlookups'
  rw [hbare, hstore, hfailures, hlookups, hstore', hfailures', hlookups']
  have ht : (⟨schema.table, e⟩ : Scope).table.check = .ok () := (check_eq_ok_iff.mp h).1
  exact Job.inline ht fun job hj => check_of_mem_jobsFor h hj

/-- **A run is the same with the locations replaced by their paths.** For every schema that is
accepted, the schema with the locations replaced is accepted with an empty table, so it names no
location; and a run of it on any store leaves the same store, makes as many lookups, counts the same
events, and reports the same failures in the same order, where a target without a name is told of
by its path as it is written. -/
theorem run_inlined (h : schema.Accepted) (s : Store) (events : List Event) :
    (schema.inlined.Accepted ∧ schema.inlined.table.locations = []) ∧
      (schema.inlined.run s events).2 = (schema.run s events).2 ∧
      schema.inlined.lookups s events = schema.lookups s events ∧
      (schema.inlined.run s events).1.processed = (schema.run s events).1.processed ∧
      (schema.inlined.run s events).1.handled = (schema.run s events).1.handled ∧
      (schema.inlined.run s events).1.failures =
        (schema.run s events).1.failures.map (Failure.mapPath schema.table.inline) := by
  have hcheck := accepted_iff.mp h
  refine ⟨⟨accepted_iff.mpr (check_inlined hcheck), rfl⟩, ?_⟩
  induction events generalizing s with
  | nil => exact ⟨rfl, rfl, rfl, rfl, rfl⟩
  | cons e rest ih =>
      obtain ⟨hnext, hfirst, hlooked⟩ := process_inlined hcheck s e
      obtain ⟨hstore, hlookups, hprocessed, hhandled, hfailures⟩ := ih (schema.process s e).2
      have hcons : ∀ schema : Schema, (schema.run s (e :: rest)).1.failures =
          (schema.process s e).1.failures ++
            (schema.run (schema.process s e).2 rest).1.failures := fun schema =>
        Journal.failures_append ..
      have hmatch : (schema.inlined.handlersFor e.name).isEmpty =
          (schema.handlersFor e.name).isEmpty := by
        rw [handlersFor_inlined, List.isEmpty_map]
      refine ⟨?_, ?_, ?_, ?_, ?_⟩
      · simpa only [run, hnext] using hstore
      · rw [lookups, lookups, hlooked, hnext, hlookups]
      · simpa only [run, hnext] using congrArg (· + 1) hprocessed
      · simp only [run, hnext, hhandled, hmatch]
      · rw [hcons, hcons, hfirst, hnext, hfailures, List.map_append]

/-- One location inside another, in a target, in a condition and in a query of a target. The second
event has no field for it, so no name for either target. -/
theorem run_inlined_of_nested :
    let here : List Locator := [.location "Here", .constant "Thread"]
    let schema : Schema := {
      handlers := [⟨.ofText "switch", [.assign here ⟨.eventField "task" none, false, .none⟩,
        .conditional (.not (.leaf (.attribute here) ⟨.literal (.int 0), false, .none⟩))
          (some (.assign [.constant "Threads", .query here] ⟨.eventName, false, .none⟩)) none]⟩]
      table := .ofList [⟨"Here", [.location "Cpus", .eventField "core"]⟩,
        ⟨"Cpus", [.constant "Cpus"]⟩] }
    let events : List Event := [
      { name := "switch", timestamp := 1, fields := [("core", .text "2"), ("task", .text "idle")] },
      { name := "switch", timestamp := 2 }]
    schema.Accepted ∧
      ((schema.inlined.Accepted ∧ schema.inlined.table.locations = []) ∧
        (schema.inlined.run {} events).2 = (schema.run {} events).2 ∧
        schema.inlined.lookups {} events = schema.lookups {} events ∧
        (schema.inlined.run {} events).1.processed = (schema.run {} events).1.processed ∧
        (schema.inlined.run {} events).1.handled = (schema.run {} events).1.handled ∧
        (schema.inlined.run {} events).1.failures =
          (schema.run {} events).1.failures.map (Failure.mapPath schema.table.inline)) ∧
      schema.table.inline here = [.constant "Cpus", .eventField "core", .constant "Thread"] ∧
      schema.lookups {} events = 8 ∧ (schema.run {} events).1.failures.length = 2 := by
  intro here schema events
  have h : schema.Accepted := accepted_iff.mpr rfl
  exact ⟨h, run_inlined h {} events, rfl, by decide +kernel, by decide +kernel⟩

end Schema
end Chronicle
