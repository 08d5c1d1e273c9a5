import Chronicle.Proofs.Interpreter.Jobs

/-!
# Traces in parts

A trace may be run as a whole, in two parts one after the other, or event by event, and comes to
the same (`Schema.run_inParts`). The report on the whole is the reports on the parts one after the
other: the counts add up and the failures stand in order.

An event that no handler matches does nothing when it is processed. So a loop over the trace may
count it and go on (`Schema.turn`), and it may stand anywhere in a trace or be left out.

The failures of a report are counted by category, each once (`Report.tallied`).
-/

namespace Chronicle

/-! ### Reports one after another -/

namespace Report

/-- One report after another. -/
instance : Append Report where
  append a b := ⟨a.processed + b.processed, a.handled + b.handled, a.journal ++ b.journal⟩

@[simp] theorem processed_append (a b : Report) :
    (a ++ b).processed = a.processed + b.processed := rfl

@[simp] theorem handled_append (a b : Report) : (a ++ b).handled = a.handled + b.handled := rfl

@[simp] theorem journal_append (a b : Report) : (a ++ b).journal = a.journal ++ b.journal := rfl

@[simp] theorem failures_append (a b : Report) : (a ++ b).failures = a.failures ++ b.failures :=
  Journal.failures_append ..

@[ext] theorem ext {a b : Report} (hprocessed : a.processed = b.processed)
    (hhandled : a.handled = b.handled) (hjournal : a.journal = b.journal) : a = b := by
  cases a
  cases b
  simp_all

theorem empty_append (a : Report) : ({} : Report) ++ a = a := by
  ext1 <;> simp

theorem append_assoc (a b c : Report) : a ++ b ++ c = a ++ (b ++ c) := by
  ext1 <;> simp [Nat.add_assoc]

end Report

/-! ### Failures by category -/

namespace Report

/-- The categories of the failures, in order. -/
def categories (r : Report) : List ChangeError.Category :=
  r.failures.map fun f => f.error.category

/-- The counts of a report tell of its failures.

* `entries`: the categories that occur are counted, each with how often it occurs.
* `distinct`: none is counted twice.
* `total`: the counts add up to the number of failures.
* `clean`: there are no counts if and only if nothing failed. -/
structure Tallied (r : Report) : Prop where
  entries : ∀ c n, (c, n) ∈ r.counts ↔ c ∈ r.categories ∧ n = r.categories.count c
  distinct : (r.counts.map Prod.fst).Nodup
  total : r.counts.foldl (fun n entry => n + entry.2) 0 = r.failures.length
  clean : r.isClean = true ↔ r.counts = []

variable (r : Report)

theorem count_eq (c : ChangeError.Category) : r.count c = r.categories.count c := by
  rw [count, categories, List.count, List.countP_map]
  rfl

theorem mem_counts_iff {c : ChangeError.Category} {n : Nat} :
    (c, n) ∈ r.counts ↔ c ∈ r.categories ∧ n = r.categories.count c := by
  have hall : c ∈ ChangeError.Category.all := by cases c <;> decide
  rw [← List.count_pos_iff (l := r.categories), ← count_eq, counts, List.mem_filter, List.mem_map]
  constructor
  · rintro ⟨⟨d, -, h⟩, hn⟩
    obtain ⟨rfl, rfl⟩ := Prod.mk.inj h
    exact ⟨Nat.pos_of_ne_zero (by simpa using hn), rfl⟩
  · rintro ⟨hpos, rfl⟩
    exact ⟨⟨c, hall, rfl⟩, by simpa using Nat.ne_of_gt hpos⟩

theorem nodup_counts : (r.counts.map Prod.fst).Nodup := by
  have hmap : (ChangeError.Category.all.map fun c => (c, r.count c)).map Prod.fst =
      ChangeError.Category.all := rfl
  have hsub : (r.counts.map Prod.fst).Sublist ChangeError.Category.all :=
    hmap ▸ List.Sublist.map Prod.fst List.filter_sublist
  exact hsub.nodup (by decide)

/-- Counts of nothing may be left out of a sum. -/
theorem foldl_filter_ne_zero (l : List (ChangeError.Category × Nat)) (start : Nat) :
    (l.filter fun entry => entry.2 != 0).foldl (fun n entry => n + entry.2) start =
      l.foldl (fun n entry => n + entry.2) start := by
  induction l generalizing start with
  | nil => rfl
  | cons entry rest ih =>
      by_cases h : entry.2 = 0
      · rw [List.filter_cons_of_neg (by simpa using h), ih, List.foldl_cons, h, Nat.add_zero]
      · rw [List.filter_cons_of_pos (by simpa using h), List.foldl_cons, ih, List.foldl_cons]

/-- Every failure is of one category. -/
theorem foldl_counts : r.counts.foldl (fun n entry => n + entry.2) 0 = r.failures.length := by
  have hlength : r.failures.length = r.categories.length := (List.length_map _).symm
  rw [counts, foldl_filter_ne_zero, hlength]
  simp only [ChangeError.Category.all, List.map_cons, List.map_nil, List.foldl_cons,
    List.foldl_nil, count_eq, Nat.zero_add]
  -- One more failure adds one to the count of its own category and nothing to the others.
  induction r.categories with
  | nil => rfl
  | cons c rest ih => cases c <;> simp <;> omega

theorem tallied : r.Tallied where
  entries _ _ := r.mem_counts_iff
  distinct := r.nodup_counts
  total := r.foldl_counts
  clean := by
    have hlength := r.foldl_counts
    rw [isClean, List.isEmpty_iff]
    constructor
    · intro h
      rw [List.eq_nil_iff_forall_not_mem]
      rintro ⟨c, n⟩ hc
      obtain ⟨hmem, -⟩ := r.mem_counts_iff.mp hc
      rw [categories, h] at hmem
      cases hmem
    · intro h
      rw [h] at hlength
      exact List.eq_nil_of_length_eq_zero hlength.symm

end Report

/-! ### Runs in parts -/

namespace Schema

variable (schema : Schema)

/-- Some handler matches the event. -/
def handles (e : Event) : Bool :=
  schema.handlers.any fun h => h.pattern.covers e.name

/-- Events processed one by one: the failures of each in turn, and the store after the last. -/
def processEach (s : Store) : List Event → List Failure × Store
  | [] => ([], s)
  | e :: rest =>
    let (journal, next) := schema.process s e
    let (later, after) := processEach next rest
    (journal.failures ++ later, after)

/-- One turn of a loop over a trace, with the report and the store so far. An event that no handler
matches is counted, and no more. -/
def turn (sofar : Report × Store) (e : Event) : Report × Store :=
  let counted := { sofar.1 with processed := sofar.1.processed + 1 }
  if schema.handles e then
    let (journal, next) := schema.process sofar.2 e
    ({ counted with
        handled := counted.handled + 1
        journal := counted.journal ++ journal }, next)
  else (counted, sofar.2)

/-- The report on one event. -/
def reportOn (s : Store) (e : Event) : Report :=
  ⟨1, if schema.handles e then 1 else 0, (schema.process s e).1⟩

/-- A trace in two parts: the second is run on the store that the first left, and what is reported
on the whole is what is reported on the two. -/
structure RunsInTurn (s : Store) (xs ys : List Event) : Prop where
  store : (schema.run s (xs ++ ys)).2 = (schema.run (schema.run s xs).2 ys).2
  processed : (schema.run s (xs ++ ys)).1.processed =
    (schema.run s xs).1.processed + (schema.run (schema.run s xs).2 ys).1.processed
  handled : (schema.run s (xs ++ ys)).1.handled =
    (schema.run s xs).1.handled + (schema.run (schema.run s xs).2 ys).1.handled
  failures : (schema.run s (xs ++ ys)).1.failures =
    (schema.run s xs).1.failures ++ (schema.run (schema.run s xs).2 ys).1.failures

/-- A trace event by event.

* `failures`, `store`: the failures and the store are those of the events processed one by one.
* `loop`: a loop that goes past the events that no handler matches comes to the same.
* `processed`, `handled`: all events are counted, and those that some handler matches.
* `idle`: a trace that differs in events that no handler matches, wherever they stand, differs in
  the number of events only. -/
structure RunsStepwise (s : Store) (events : List Event) : Prop where
  failures : (schema.run s events).1.failures = (schema.processEach s events).1
  store : (schema.run s events).2 = (schema.processEach s events).2
  loop : schema.run s events = events.foldl schema.turn ({}, s)
  processed : (schema.run s events).1.processed = events.length
  handled : (schema.run s events).1.handled = events.countP schema.handles
  idle : ∀ others, others.filter schema.handles = events.filter schema.handles →
    schema.run s others =
      ({ (schema.run s events).1 with processed := others.length }, (schema.run s events).2)

variable {schema} {s : Store} {e : Event}

theorem isEmpty_handlersFor : (schema.handlersFor e.name).isEmpty = !schema.handles e := by
  rw [handlersFor, handles, Bool.eq_iff_iff]
  simp [List.filter_eq_nil_iff]

/-- An event that no handler matches does nothing. -/
theorem process_of_not_handles (h : schema.handles e = false) : schema.process s e = ([], s) := by
  have hnone : schema.handlersFor e.name = [] := by
    rw [← List.isEmpty_iff, isEmpty_handlersFor, h]
    rfl
  rw [process, hnone, processWith]

theorem run_cons (schema : Schema) (s : Store) (e : Event) (rest : List Event) :
    schema.run s (e :: rest) =
      (schema.reportOn s e ++ (schema.run (schema.process s e).2 rest).1,
        (schema.run (schema.process s e).2 rest).2) := by
  rw [run]
  refine Prod.ext (Report.ext (Nat.add_comm ..) ?_ rfl) rfl
  rw [isEmpty_handlersFor, Report.handled_append, reportOn, Nat.add_comm]
  cases schema.handles e <;> rfl

/-- **A trace may be cut anywhere.** -/
theorem run_append (schema : Schema) (s : Store) (xs ys : List Event) :
    schema.run s (xs ++ ys) =
      ((schema.run s xs).1 ++ (schema.run (schema.run s xs).2 ys).1,
        (schema.run (schema.run s xs).2 ys).2) := by
  induction xs generalizing s with
  | nil => exact Prod.ext (Report.empty_append _).symm rfl
  | cons e rest ih =>
      rw [List.cons_append, run_cons, run_cons, ih]
      exact Prod.ext (Report.append_assoc ..).symm rfl

/-- Each failure of a run is that of one event, processed on the store that those before it left. -/
theorem mem_failures_run {events : List Event} {f : Failure} :
    f ∈ (schema.run s events).1.failures ↔ ∃ before e after, events = before ++ e :: after ∧
      f ∈ (schema.process (schema.run s before).2 e).1.failures := by
  constructor
  · induction events generalizing s with
    | nil => intro h; cases h
    | cons e rest ih =>
        intro h
        rw [failures_run_cons] at h
        rcases List.mem_append.mp h with h | h
        · exact ⟨[], e, rest, rfl, h⟩
        · obtain ⟨before, d, after, rfl, hf⟩ := ih h
          exact ⟨e :: before, d, after, rfl, hf⟩
  · rintro ⟨before, e, after, rfl, hf⟩
    rw [run_append, Report.failures_append, failures_run_cons]
    exact List.mem_append_right _ (List.mem_append_left _ hf)

theorem turn_eq (sofar : Report × Store) (e : Event) :
    schema.turn sofar e =
      (sofar.1 ++ schema.reportOn sofar.2 e, (schema.process sofar.2 e).2) := by
  unfold turn reportOn
  cases h : schema.handles e with
  | true => rfl
  | false =>
      rw [process_of_not_handles h]
      exact Prod.ext (Report.ext rfl rfl (List.append_nil _).symm) rfl

/-- A loop that has come to a report and a store adds what is reported on the rest of the trace. -/
theorem foldl_turn (r : Report) (s : Store) (events : List Event) :
    events.foldl schema.turn (r, s) = (r ++ (schema.run s events).1, (schema.run s events).2) := by
  induction events generalizing r s with
  | nil =>
      refine Prod.ext (Report.ext ?_ ?_ ?_) rfl
      · rfl
      · rfl
      · exact (List.append_nil _).symm
  | cons e rest ih =>
      rw [List.foldl_cons, turn_eq, ih, run_cons]
      exact Prod.ext (Report.append_assoc ..) rfl

theorem processEach_eq (s : Store) (events : List Event) :
    schema.processEach s events = ((schema.run s events).1.failures, (schema.run s events).2) := by
  induction events generalizing s with
  | nil => rfl
  | cons e rest ih =>
      have hstep : schema.processEach s (e :: rest) =
          ((schema.process s e).1.failures ++ (schema.processEach (schema.process s e).2 rest).1,
            (schema.processEach (schema.process s e).2 rest).2) := rfl
      rw [hstep, ih, run_cons, Report.failures_append]
      rfl

theorem processed_run (s : Store) (events : List Event) :
    (schema.run s events).1.processed = events.length := by
  induction events generalizing s with
  | nil => rfl
  | cons e rest ih =>
      rw [run_cons, Report.processed_append, ih, List.length_cons, Nat.add_comm]
      rfl

theorem handled_run (s : Store) (events : List Event) :
    (schema.run s events).1.handled = events.countP schema.handles := by
  induction events generalizing s with
  | nil => rfl
  | cons e rest ih =>
      rw [run_cons, Report.handled_append, ih, List.countP_cons, Nat.add_comm]
      rfl

/-- **Events that no handler matches may be left out.** -/
theorem run_filter (s : Store) (events : List Event) :
    schema.run s events =
      ({ (schema.run s (events.filter schema.handles)).1 with processed := events.length },
        (schema.run s (events.filter schema.handles)).2) := by
  induction events generalizing s with
  | nil => rfl
  | cons e rest ih =>
      rw [run_cons, ih]
      cases h : schema.handles e with
      | true =>
          rw [List.filter_cons_of_pos h, run_cons]
          exact Prod.ext (Report.ext (Nat.add_comm ..) rfl rfl) rfl
      | false =>
          have hidle : schema.reportOn s e = ⟨1, 0, []⟩ := by
            rw [reportOn, h, process_of_not_handles h]
            rfl
          rw [List.filter_cons_of_neg (by simp [h]), process_of_not_handles h, hidle]
          exact Prod.ext (Report.ext (Nat.add_comm ..) (Nat.zero_add _) rfl) rfl

/-- Traces that agree on the events that some handler matches differ in the number of events
only. -/
theorem run_of_filter_eq {events others : List Event}
    (h : others.filter schema.handles = events.filter schema.handles) :
    schema.run s others =
      ({ (schema.run s events).1 with processed := others.length }, (schema.run s events).2) := by
  rw [run_filter s others, run_filter s events, h]

/-- **A trace comes to the same in parts, event by event, and without the events that no handler
matches**, and the failures of its report are counted by category. -/
theorem run_inParts (schema : Schema) (s : Store) (events : List Event) :
    (∀ more, schema.RunsInTurn s events more) ∧
      schema.RunsStepwise s events ∧ (schema.run s events).1.Tallied := by
  refine ⟨fun more => ?_, ?_, Report.tallied _⟩
  · have happend := run_append schema s events more
    exact {
      store := by rw [happend]
      processed := by rw [happend, Report.processed_append]
      handled := by rw [happend, Report.handled_append]
      failures := by rw [happend, Report.failures_append] }
  · exact {
      failures := by rw [processEach_eq]
      store := by rw [processEach_eq]
      loop := by rw [foldl_turn, Report.empty_append]
      processed := processed_run s events
      handled := handled_run s events
      idle := fun _ h => run_of_filter_eq h }

end Schema
end Chronicle
