import Chronicle.Proofs.Interpreter.Mirror

/-!
# Late events

An event is late if it is older than the latest mutation, and then none of its mutations is
performed. But targets are grown before times are compared, so a late event may create attributes,
which were never written (`Schema.growsTo_process_of_late`). Whether it leaves a trace in what
follows hangs on comparisons alone: those that expect `null` of an attribute tell one that was
created from one that is not there (`Schema.run_after_late`, `Schema.late_leaves_trace`). A schema
whose comparisons all expect values is not concerned (`Schema.blind_of_expectsValue`).
-/

namespace Chronicle

/-! ### Late events create attributes and do nothing else -/

section

variable {scope : Scope} {s : Store} {w : Int64} (ht : scope.table.check = .ok ())
  (hs : s.Reachable) (hw : s.clock = some w) (hlate : scope.event.timestamp < w)

include ht hs hw hlate

theorem Assignment.Comes.growsTo_of_late {a : Assignment} {result : Except ChangeError Unit}
    {after : Store} {tried : List Quark} (h : a.Comes scope s result after tried) :
    s.GrowsTo after := by
  have hgrown := Scope.growsTo_grow ht hs a.target
  cases h with
  | done _ _ hdone =>
      obtain ⟨haccepts, -⟩ := Store.mutate_eq_ok_iff.mp hdone
      have hle := haccepts.clock_le w (hgrown.clock.trans hw)
      exact absurd hlate (Int64.not_lt.mpr hle)
  | _ => exact hgrown

theorem Change.growsTo_apply_of_late (change : Change) :
    s.GrowsTo (change.apply scope s).store := by
  rw [apply_eq, performSelected]
  cases (change.select scope s).val with
  | none => exact .refl s
  | some a => exact (a.comes scope s).growsTo_of_late ht hs hw hlate

theorem Job.growsTo_after_of_late (jobs : List Job) : s.GrowsTo (after scope s jobs) := by
  induction jobs generalizing s with
  | nil => exact .refl s
  | cons job rest ih =>
      have hgrown := job.change.growsTo_apply_of_late ht hs hw hlate
      exact hgrown.trans (ih (job.change.reachable_apply ht hs) (hgrown.clock.trans hw))

end

/-- **A late event creates attributes at most:** nothing is written, and the clock stays. -/
theorem Schema.growsTo_process_of_late {schema : Schema} (h : schema.check = .ok ()) {s : Store}
    (hs : s.Reachable) {e : Event} {w : Int64} (hw : s.clock = some w) (hlate : e.timestamp < w) :
    s.GrowsTo (schema.process s e).2 := by
  have ht : (⟨schema.table, e⟩ : Scope).table.check = .ok () := (check_eq_ok_iff.mp h).1
  rw [(schema.process_eq_jobs s e).1]
  exact Job.growsTo_after_of_late ht hs hw hlate _

/-! ### Comparisons that expect values -/

namespace Comparison

/-- What is expected is not `null`, whatever the event and the store. -/
def expectsValue (l : Comparison) : Bool :=
  match l.expected.source with
  | .literal v => !v.isNull
  | .eventName => true
  | _ => false

theorem blind_of_expectsValue {l : Comparison} (h : l.expectsValue = true) (scope : Scope)
    (hidden : List String → Prop) (s : Store) : l.Blind scope hidden s := by
  intro path _ _ hnull
  unfold expectsValue at h
  split at h
  · next v hsource =>
    rw [hsource] at hnull
    obtain rfl := Except.ok.inj hnull
    cases h
  · next hsource =>
    rw [hsource] at hnull
    cases Except.ok.inj hnull
  · cases h

end Comparison

namespace Change

mutual

/-- The comparisons of all conditions of a state change. -/
def comparisons : Change → List Comparison
  | .assign _ _ => []
  | .conditional c yes no => c.leaves ++ (comparisonsIn yes ++ comparisonsIn no)

/-- The comparisons of a branch. -/
def comparisonsIn : Option Change → List Comparison
  | none => []
  | some change => change.comparisons

end

section

variable {scope : Scope} {s : Store} {l : Comparison}

mutual

/-- What is tested is a comparison of the state change. -/
theorem mem_comparisons_of_tested : ∀ change : Change,
    l ∈ change.tested scope s → l ∈ change.comparisons
  | .assign _ _, hl => hl
  | .conditional c yes no, hl => by
    rw [comparisons]
    rcases List.mem_append.mp hl with hl | hl
    · exact List.mem_append_left _ hl
    · refine List.mem_append_right _ ?_
      split at hl
      · exact List.mem_append_left _ (mem_comparisonsIn_of_tested yes hl)
      · exact List.mem_append_right _ (mem_comparisonsIn_of_tested no hl)

theorem mem_comparisonsIn_of_tested : ∀ branch : Option Change,
    l ∈ testedIn scope s branch → l ∈ comparisonsIn branch
  | none, hl => hl
  | some change, hl => mem_comparisons_of_tested change hl

end

end

end Change

namespace Schema

/-- The comparisons of all conditions of a schema. -/
def comparisons (schema : Schema) : List Comparison :=
  schema.handlers.flatMap fun h => h.changes.flatMap Change.comparisons

theorem mem_comparisons_of_mem_jobsFor {schema : Schema} {eventName : String} {job : Job}
    (hj : job ∈ schema.jobsFor eventName) {l : Comparison} (hl : l ∈ job.change.comparisons) :
    l ∈ schema.comparisons := by
  obtain ⟨handler, hhandler, hj⟩ := List.mem_flatMap.mp hj
  obtain ⟨⟨change, index⟩, hmem, rfl⟩ := List.mem_map.mp hj
  exact List.mem_flatMap.mpr ⟨handler, (List.mem_filter.mp hhandler).1,
    List.mem_flatMap.mpr ⟨change, List.fst_mem_of_mem_zipIdx hmem, hl⟩⟩

end Schema

theorem Job.blind_of_expectsValue {scope : Scope} {hidden : List String → Prop} {s : Store}
    {jobs : List Job}
    (h : ∀ job ∈ jobs, ∀ l ∈ job.change.comparisons, l.expectsValue = true) :
    Blind scope hidden s jobs := by
  induction jobs generalizing s with
  | nil => trivial
  | cons job rest ih =>
      obtain ⟨hjob, hrest⟩ := List.forall_mem_cons.mp h
      refine ⟨fun l hl => ?_, ih hrest⟩
      have hexpects := hjob l (job.change.mem_comparisons_of_tested hl)
      exact l.blind_of_expectsValue hexpects scope hidden s

namespace Schema

variable {schema : Schema}

/-- A schema whose comparisons expect values is blind to all that is hidden. -/
theorem blind_of_expectsValue (h : ∀ l ∈ schema.comparisons, l.expectsValue = true)
    (hidden : List String → Prop) (s : Store) (events : List Event) :
    schema.Blind hidden s events := by
  induction events generalizing s with
  | nil => trivial
  | cons e rest ih =>
      refine ⟨Job.blind_of_expectsValue fun job hj l hl => ?_, ih _⟩
      exact h l (mem_comparisons_of_mem_jobsFor hj hl)

/-! ### What follows a late event -/

/-- **A late event leaves no trace, but for comparisons with `null`.** Unless a comparison that is
tested while events are run expects `null` of an attribute that is not there and that the late event
created, the events come to the same failures as without the late event, and to a store with the
same clock that records the same at every path: the value held and since when, the closed intervals,
and the stack. -/
theorem run_after_late (h : schema.Accepted) {s : Store} (hs : s.Reachable) {e : Event} {w : Int64}
    (hw : s.clock = some w) (hlate : e.timestamp < w) {events : List Event}
    (hblind : schema.Blind (schema.process s e).2.Has s events) :
    (schema.run (schema.process s e).2 events).1.failures = (schema.run s events).1.failures ∧
      (schema.run (schema.process s e).2 events).2.clock = (schema.run s events).2.clock ∧
      ∀ path, (schema.run (schema.process s e).2 events).2.trackAt path =
        (schema.run s events).2.trackAt path := by
  have hcheck := accepted_iff.mp h
  have hs' := reachable_process hcheck hs e
  have hgrown := growsTo_process_of_late hcheck hs hw hlate
  obtain ⟨hfailures, hmirrors⟩ :=
    mirrors_run hcheck hs hs' (hgrown.mirrors hs.tracks_size hs'.grounded) hblind
  exact ⟨hfailures, hmirrors.clock, hmirrors.track⟩

/-- The late event creates `Ghost`, which is then read by a comparison with a value and by a
query. -/
theorem run_after_late_of_ghost :
    let ghost : List Locator := [.constant "Ghost"]
    let schema : Schema := {
      handlers := [
        ⟨.ofText "late", [.assign ghost ⟨.literal (.int 1), false, .none⟩]⟩,
        ⟨.ofText "probe", [.conditional
          (.leaf (.attribute ghost) ⟨.literal (.int 1), false, .none⟩)
          (some (.assign [.constant "Seen"] ⟨.literal (.int 1), false, .none⟩))
          (some (.assign [.constant "Copy"] ⟨.query ghost, false, .push⟩))]⟩] }
    let s := ({} : Store).callEach [.create .root "Clock", .mutate 0 10 (.set (.int 1))]
    let late : Event := { name := "late", timestamp := 5 }
    let probe : Event := { name := "probe", timestamp := 20 }
    schema.Accepted ∧ s.Reachable ∧ s.clock = some 10 ∧ late.timestamp < 10 ∧
      schema.Blind (schema.process s late).2.Has s [probe] ∧
      ¬s.Has ["Ghost"] ∧ (schema.process s late).2.Has ["Ghost"] ∧
      ((schema.run (schema.process s late).2 [probe]).1.failures =
          (schema.run s [probe]).1.failures ∧
        (schema.run (schema.process s late).2 [probe]).2.clock = (schema.run s [probe]).2.clock ∧
        ∀ path, (schema.run (schema.process s late).2 [probe]).2.trackAt path =
          (schema.run s [probe]).2.trackAt path) := by
  intro ghost schema s late probe
  have h : schema.Accepted := accepted_iff.mpr rfl
  have hs : s.Reachable := Store.Reachable.empty.callEach _
  have hw : s.clock = some 10 := by decide +kernel
  have hlate : late.timestamp < 10 := by decide
  have hblind : schema.Blind (schema.process s late).2.Has s [probe] :=
    blind_of_expectsValue (by decide) _ s [probe]
  exact ⟨h, hs, hw, hlate, hblind, by decide +kernel, by decide +kernel,
    run_after_late h hs hw hlate hblind⟩

/-- A comparison with `null` tells that there was a late event: `Ghost` is there, and `Seen` is
written. -/
theorem late_leaves_trace :
    let ghost : List Locator := [.constant "Ghost"]
    let schema : Schema := {
      handlers := [
        ⟨.ofText "late", [.assign ghost ⟨.literal (.int 1), false, .none⟩]⟩,
        ⟨.ofText "probe", [.conditional
          (.leaf (.attribute ghost) ⟨.literal .null, false, .none⟩)
          (some (.assign [.constant "Seen"] ⟨.literal (.int 1), false, .none⟩)) none]⟩] }
    let s := ({} : Store).callEach [.create .root "Clock", .mutate 0 10 (.set (.int 1))]
    let late : Event := { name := "late", timestamp := 5 }
    let probe : Event := { name := "probe", timestamp := 20 }
    schema.Accepted ∧ s.Reachable ∧ s.clock = some 10 ∧ late.timestamp < 10 ∧
      ((schema.run s [probe]).2.trackAt ["Seen"]).ongoing = .null ∧
      ((schema.run (schema.process s late).2 [probe]).2.trackAt ["Seen"]).ongoing = .int 1 := by
  intro ghost schema s late probe
  have h : schema.Accepted := accepted_iff.mpr rfl
  have hs : s.Reachable := Store.Reachable.empty.callEach _
  exact ⟨h, hs, by decide +kernel, by decide, by decide +kernel, by decide +kernel⟩

end Schema
end Chronicle
