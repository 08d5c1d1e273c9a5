import Chronicle.Proofs.Interpreter.Alike
import Chronicle.Proofs.Interpreter.Reach
import Chronicle.Proofs.Store.Present

/-!
# Only the present matters

A run takes nothing from what a store has recorded. On two stores of one present, however different
their pasts, a state change does the same (`Change.apply_of_samePresent`): it selects the same
assignment, grows the same attributes, asks for the same mutation and is accepted or refused alike.
So a trace comes to the same report on both, in every failure and every remark, and the stores have
one present again (`Schema.run_of_samePresent`).

What an assignment records on the way does depend on the past, as a write closes an interval only if
there is time in it, but that is past at once.
-/

namespace Chronicle

/-- Two effects in which the same was observed, failed and was tried, and which leave stores of one
present. -/
structure Effect.SamePresent {ε : Type} (x x' : Effect ε) : Prop where
  observed : x'.toObservation = x.toObservation
  failures : x'.failures = x.failures
  tried : x'.tried = x.tried
  store : x.store.SamePresent x'.store

namespace Store

/-- Stores of one present are read alike, and get the same new attributes. -/
theorem outlasts_samePresent : Outlasts SamePresent where
  alike h := ⟨h.tree, h.ongoing⟩
  withTree tree h := h.withTree tree

/-- What is remarked on a mutation is said of the present. -/
theorem SamePresent.remarks {s s' : Store} (h : s.SamePresent s') (q : Quark) (m : Mutation) :
    s'.remarks q m = s.remarks q m := by
  have hdepth : s'.depth q = s.depth q := congrArg List.length (h.stack q)
  cases m with
  | set v => rw [Store.remarks, Store.remarks, hdepth, h.tree]
  | pop => rw [Store.remarks, Store.remarks, hdepth, h.tree]
  | _ => rfl

end Store

variable {scope : Scope} {s s' : Store}

/-! ### State changes -/

/-- A term asks for the same, and remarks on the same. -/
theorem Term.mutation?_of_samePresent (h : s.SamePresent s') (q : Quark) (m : Term) :
    m.mutation? scope s' q = m.mutation? scope s q := by
  have hsource : m.source.evaluate scope s' = m.source.evaluate scope s :=
    Source.evaluate_alike (Store.outlasts_samePresent.alike h) scope.event.timestamp scope m.source
  rw [mutation?, mutation?, hsource, h.tree]

theorem Change.select_of_samePresent (h : s.SamePresent s') (change : Change) :
    change.select scope s' = change.select scope s :=
  select_alike (Store.outlasts_samePresent.alike h) scope.event.timestamp scope change

theorem Scope.grow_of_samePresent (h : s.SamePresent s') (path : List Locator) :
    (scope.grow s Quark.root path).Agrees Store.SamePresent (scope.grow s' Quark.root path) :=
  grow_alike Store.outlasts_samePresent scope scope.event.timestamp h Quark.root path

section

variable (ht : scope.table.check = .ok ()) (hs : s.Reachable) (hs' : s'.Reachable)
  (h : s.SamePresent s')

include ht hs hs' h

theorem Change.assignTo_of_samePresent (path : List Locator) (m : Term) :
    (assignTo scope s path m).SamePresent (assignTo scope s' path m) := by
  obtain ⟨hobserved, hresult, hgrown⟩ : (scope.grow s Quark.root path).Agrees Store.SamePresent
      (scope.grow s' Quark.root path) := Scope.grow_of_samePresent h path
  have hsize := (Scope.reachable_grow ht hs path).tracks_size
  have hsize' := (Scope.reachable_grow ht hs' path).tracks_size
  unfold assignTo
  simp only [hobserved, hresult, Term.mutation?_of_samePresent hgrown]
  cases (scope.grow s Quark.root path).result with
  | error u => exact ⟨rfl, rfl, rfl, hgrown⟩
  | ok q =>
      simp only
      cases (m.mutation? scope (scope.grow s Quark.root path).store q).val with
      | error e => exact ⟨rfl, rfl, rfl, hgrown⟩
      | ok asked =>
          cases asked with
          | none => exact ⟨rfl, rfl, rfl, hgrown⟩
          | some mutation =>
              rcases hgrown.mutate q scope.event.timestamp mutation hsize hsize' with
                ⟨r, hr, hr'⟩ | ⟨after, after', hm, hm', hafter⟩
              · simp only [hr, hr']
                exact ⟨rfl, rfl, rfl, hgrown⟩
              · simp only [hm, hm', hgrown.remarks]
                exact ⟨rfl, rfl, rfl, hafter⟩

/-- **A state change does the same on stores of one present.** -/
theorem Change.apply_of_samePresent (change : Change) :
    (change.apply scope s).SamePresent (change.apply scope s') := by
  rw [apply_eq, apply_eq, select_of_samePresent h, performSelected, performSelected]
  cases (change.select scope s).val with
  | none => exact ⟨rfl, rfl, rfl, h⟩
  | some a =>
      obtain ⟨hobserved, hfailures, htried, hstore⟩ :=
        assignTo_of_samePresent ht hs hs' h a.target a.term
      exact ⟨congrArg (_ ++ ·) hobserved, hfailures, htried, hstore⟩

/-- State changes in order do the same. -/
theorem Change.applyFrom_of_samePresent (index : Nat) (changes : List Change) :
    (applyFrom scope s index changes).SamePresent (applyFrom scope s' index changes) := by
  induction changes generalizing s s' index with
  | nil => exact ⟨rfl, rfl, rfl, h⟩
  | cons change rest ih =>
      obtain ⟨hobserved, hfailures, htried, hstore⟩ := change.apply_of_samePresent ht hs hs' h
      have hlater := ih (change.reachable_apply ht hs) (change.reachable_apply ht hs') hstore
        (index + 1)
      rw [applyFrom, applyFrom]
      refine ⟨?_, ?_, ?_, hlater.store⟩
      · simp only [hobserved, hlater.observed]
      · simp only [hfailures, hlater.failures]
      · simp only [htried, hlater.tried]

end

/-! ### Events and runs -/

namespace Handler

/-- What a handler does is done by calls. -/
theorem reachable_handle (ht : scope.table.check = .ok ()) (hs : s.Reachable) (h : Handler) :
    (h.handle scope s).store.Reachable := by
  rw [handle, (Change.applyFrom_eq_jobs h.pattern.text s 0 h.changes).1]
  exact Job.reachable_after ht hs _

end Handler

namespace Schema

theorem processWith_of_samePresent (ht : scope.table.check = .ok ()) (hs : s.Reachable)
    (hs' : s'.Reachable) (h : s.SamePresent s') (handlers : List Handler) :
    (processWith scope s' handlers).1 = (processWith scope s handlers).1 ∧
      (processWith scope s handlers).2.SamePresent (processWith scope s' handlers).2 := by
  induction handlers generalizing s s' with
  | nil => exact ⟨rfl, h⟩
  | cons handler rest ih =>
      obtain ⟨hobserved, hfailures, -, hstore⟩ :=
        Change.applyFrom_of_samePresent ht hs hs' h 0 handler.changes
      obtain ⟨hlater, hlast⟩ :=
        ih (handler.reachable_handle ht hs) (handler.reachable_handle ht hs') hstore
      refine ⟨?_, hlast⟩
      rw [processWith, processWith]
      simp only [hlater]
      simp only [Handler.handle, hobserved, hfailures]

variable {schema : Schema}

/-- **Only the present matters.** On two stores of one present, whatever they have recorded, a trace
comes to the same report, with the same failures in the same words, and leaves stores of one
present. -/
theorem run_of_samePresent (hschema : schema.Accepted) (hs : s.Reachable) (hs' : s'.Reachable)
    (h : s.SamePresent s') (events : List Event) :
    (schema.run s' events).1 = (schema.run s events).1 ∧
      (schema.run s events).2.SamePresent (schema.run s' events).2 := by
  have hcheck := accepted_iff.mp hschema
  induction events generalizing s s' with
  | nil => exact ⟨rfl, h⟩
  | cons e rest ih =>
      have ht : (⟨schema.table, e⟩ : Scope).table.check = .ok () := (check_eq_ok_iff.mp hcheck).1
      obtain ⟨hjournal, hnext⟩ : (schema.process s' e).1 = (schema.process s e).1 ∧
          (schema.process s e).2.SamePresent (schema.process s' e).2 :=
        processWith_of_samePresent ht hs hs' h _
      obtain ⟨hlater, hlast⟩ :=
        ih (reachable_process hcheck hs e) (reachable_process hcheck hs' e) hnext
      refine ⟨?_, hlast⟩
      rw [run, run]
      simp only [hjournal, hlater]

/-- The two stores differ in what they have recorded of both attributes, before the run and after
it. The second event is late for both. -/
theorem run_of_samePresent_of_pasts :
    let cpu : List Locator := [.constant "Cpu"]
    let schema : Schema := {
      handlers := [⟨.ofText "sched*", [
        .conditional (.leaf (.attribute cpu) ⟨.literal (.int 2), false, .none⟩)
          (some (.assign [.constant "Task"] ⟨.literal .null, false, .pop⟩))
          (some (.assign [.constant "Task"] ⟨.eventField "tid", false, .push⟩)),
        .assign cpu ⟨.literal (.int 1), true, .none⟩]⟩] }
    let create : List Call := [.create Quark.root "Cpu", .create Quark.root "Task"]
    let s : Store := Store.callEach {} (create ++ [.mutate 0 1 (.set (.int 1)),
      .mutate 0 3 (.set (.int 2)), .mutate 1 5 (.push (.int 7))])
    let s' : Store := Store.callEach {} (create ++ [.mutate 1 2 (.push (.int 7)),
      .mutate 0 5 (.set (.int 2))])
    let sched : Int64 → Event := fun time =>
      { name := "sched_switch", timestamp := time, fields := [("tid", .long 3)] }
    let events := [sched 6, sched 4, sched 8]
    schema.Accepted ∧ s.Reachable ∧ s'.Reachable ∧ s.SamePresent s' ∧
      ((schema.run s' events).1 = (schema.run s events).1 ∧
        (schema.run s events).2.SamePresent (schema.run s' events).2) ∧
      (∀ q ∈ [0, 1], s'.track q ≠ s.track q ∧
        (schema.run s' events).2.track q ≠ (schema.run s events).2.track q) ∧
      (schema.run s events).1.failures.map (fun x => x.error.category) =
        [.outOfOrder, .outOfOrder] := by
  intro cpu schema create s s' sched events
  have hschema : schema.Accepted := accepted_iff.mpr rfl
  have hs : s.Reachable := Store.Reachable.empty.callEach _
  have hs' : s'.Reachable := Store.Reachable.empty.callEach _
  have h : s.SamePresent s' :=
    Store.samePresent_of_quarks hs.tracks_size hs'.tracks_size (by decide +kernel)
      (by decide +kernel) (by decide +kernel)
  exact ⟨hschema, hs, hs', h, run_of_samePresent hschema hs hs' h events, by decide +kernel,
    by decide +kernel⟩

end Schema
end Chronicle
