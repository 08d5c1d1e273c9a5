import Chronicle.Proofs.Interpreter.Reach
import Chronicle.Proofs.Store.Mirror

/-!
# Running on stores with more attributes

On a store that mirrors another, paths spell the same names, terms have the same values, and state
changes do the same, but for one thing: a comparison tells an attribute that holds `null` from one
that is not there. So if no comparison that is tested on the way looks for a hidden attribute that
is not there and expects `null` of it (`Comparison.Blind`), then state changes, events and runs come
to the same failures and to stores of which one mirrors the other again (`Change.mirrors_apply`,
`Schema.mirrors_process`, `Schema.mirrors_run`).
-/

namespace Chronicle

/-! ### What is tested -/

namespace Scope

/-- A path misses hidden attributes: it leads nowhere, but what it leads to is hidden. -/
def Misses (scope : Scope) (hidden : List String → Prop) (s : Store) (path : List Locator) : Prop :=
  ∃ ns names, scope.Spells s path ns ∧ ns.names? = some names ∧
    s.tree.walk? Quark.root names = none ∧ hidden names

end Scope

/-- A comparison is blind to hidden attributes: it does not expect `null` of one that it misses. -/
def Comparison.Blind (scope : Scope) (hidden : List String → Prop) (s : Store) (l : Comparison) :
    Prop :=
  ∀ path, l.operand = .attribute path → scope.Misses hidden s path →
    (l.expected.source.evaluate scope s).val ≠ .ok .null

namespace Change

mutual

/-- The comparisons that are tested when a state change is applied. -/
def tested (scope : Scope) (s : Store) : Change → List Comparison
  | .assign _ _ => []
  | .conditional c yes no =>
    c.leaves ++ if (c.test scope s).val then testedIn scope s yes else testedIn scope s no

/-- The comparisons that are tested when a branch is applied. -/
def testedIn (scope : Scope) (s : Store) : Option Change → List Comparison
  | none => []
  | some change => change.tested scope s

end

end Change

/-- The comparisons that are tested while jobs are done are blind to hidden attributes. -/
def Job.Blind (scope : Scope) (hidden : List String → Prop) (s : Store) : List Job → Prop
  | [] => True
  | job :: rest =>
    (∀ l ∈ job.change.tested scope s, l.Blind scope hidden s) ∧
      Blind scope hidden (job.store scope s) rest

/-- The comparisons that are tested in a run are blind to hidden attributes. -/
def Schema.Blind (schema : Schema) (hidden : List String → Prop) (s : Store) : List Event → Prop
  | [] => True
  | e :: rest =>
    Job.Blind ⟨schema.table, e⟩ hidden s (schema.jobsFor e.name) ∧
      schema.Blind hidden (schema.process s e).2 rest

/-! ### Paths -/

variable {scope : Scope} {hidden : List String → Prop} {s s' : Store}

namespace Store

theorem nameAt?_eq_trackAt (s : Store) (ns : Spelling) :
    s.nameAt? ns = ns.names?.bind fun names => (s.trackAt names).ongoing.segment? := by
  unfold nameAt? led?
  cases ns.names? with
  | none => rfl
  | some names =>
      rw [Option.bind_some, Option.bind_some, trackAt]
      cases s.tree.walk? Quark.root names <;> rfl

theorem Mirrors.spells (h : s.Mirrors hidden s') {path : List Locator} {ns : Spelling}
    (hns : scope.Spells s path ns) : scope.Spells s' path ns :=
  hns.congr fun ns => by simp only [nameAt?_eq_trackAt, h.track]

/-- The same is read, but where something hidden is missed. -/
theorem Mirrors.val_valueAt (h : s.Mirrors hidden s') (ht : scope.table.check = .ok ())
    (path : List Locator) :
    (scope.valueAt s' path).val = (scope.valueAt s path).val ∨
      (scope.valueAt s path).val = none ∧ (scope.valueAt s' path).val = some .null ∧
        scope.Misses hidden s path := by
  obtain ⟨ns, hns⟩ := Scope.exists_spells ht s path
  rw [hns.val_valueAt_eq ht, (h.spells hns).val_valueAt_eq ht, led?, led?]
  cases hnames : ns.names? with
  | none => exact .inl rfl
  | some names =>
      have hhas := h.has names
      rw [Has, Has] at hhas
      have htrack := h.track names
      simp only [Option.bind_some]
      cases hw : s.tree.walk? Quark.root names with
      | some q =>
          obtain ⟨q', hq'⟩ := Option.isSome_iff_exists.mp (hhas.mpr (.inl (by rw [hw]; rfl)))
          rw [trackAt_of_walk? hw, trackAt_of_walk? hq'] at htrack
          rw [hq']
          exact .inl (congrArg some (congrArg Track.ongoing htrack))
      | none =>
          cases hw' : s'.tree.walk? Quark.root names with
          | none => exact .inl rfl
          | some q' =>
              rw [trackAt_of_walk?_eq_none hw, trackAt_of_walk? hw'] at htrack
              rw [hw, hw'] at hhas
              have hhidden : hidden names := by simpa using hhas
              exact .inr ⟨rfl, congrArg some (congrArg Track.ongoing htrack), ns, names, hns,
                hnames, hw, hhidden⟩

end Store

/-! ### Terms and conditions -/

section

variable (ht : scope.table.check = .ok ()) (h : s.Mirrors hidden s')

include ht h

theorem Source.val_evaluate_of_mirrors (source : Source) :
    (source.evaluate scope s').val = (source.evaluate scope s).val := by
  cases source with
  | query path =>
      rw [val_evaluate_query, val_evaluate_query]
      rcases h.val_valueAt ht path with hv | ⟨hv, hv', -⟩
      · rw [hv]
      · rw [hv, hv']
        rfl
  | eventField name kind => cases kind <;> rfl
  | _ => rfl

/-- The same is compared, but where something hidden is missed. -/
theorem Operand.val_evaluate_of_mirrors (operand : Operand) :
    (operand.evaluate scope s').val = (operand.evaluate scope s).val ∨
      (operand.evaluate scope s).val = none ∧ (operand.evaluate scope s').val = some .null ∧
        ∃ path, operand = .attribute path ∧ scope.Misses hidden s path := by
  rcases operand with path | m
  · simp only [evaluate, Observed.val_bind]
    rcases h.val_valueAt ht path with hv | ⟨hv, hv', hmiss⟩
    · rw [hv]
      exact .inl (by cases (scope.valueAt s path).val <;> rfl)
    · rw [hv, hv']
      exact .inr ⟨rfl, rfl, path, rfl, hmiss⟩
  · refine .inl ?_
    simp only [evaluate, Observed.val_bind, Source.val_evaluate_of_mirrors ht h m.source]

/-- A comparison that is blind to hidden attributes comes to the same. -/
theorem Comparison.val_test_of_mirrors {l : Comparison} (hl : l.Blind scope hidden s) :
    (l.test scope s').val = (l.test scope s).val := by
  obtain ⟨operand, expected⟩ := l
  have hexpected := Source.val_evaluate_of_mirrors ht h expected.source
  unfold test Condition.compare
  simp only [Observed.val_bind]
  rcases Operand.val_evaluate_of_mirrors ht h operand with hv | ⟨hv, hv', path, rfl, hmiss⟩
  · rw [hv]
    cases (operand.evaluate scope s).val with
    | none => rfl
    | some v => simp only [Observed.val_bind, hexpected]
  · -- nothing is compared here, and `null` there
    rw [hv, hv']
    simp only [Observed.val_bind, hexpected]
    have hnull := hl path rfl hmiss
    cases hw : (expected.source.evaluate scope s).val with
    | error e => rfl
    | ok w =>
        have hne : Value.null ≠ w := fun hnw => hnull (hw.trans (congrArg _ hnw.symm))
        simpa using hne

theorem Condition.val_test_of_mirrors {c : Condition}
    (hc : ∀ l ∈ c.leaves, l.Blind scope hidden s) :
    (c.test scope s').val = (c.test scope s).val := by
  rw [val_test, val_test]
  exact holds_congr c fun l hl => Comparison.val_test_of_mirrors ht h (hc l hl)

/-- The same is asked for. -/
theorem Term.val_mutation?_of_mirrors (m : Term) (q q' : Quark) :
    (m.mutation? scope s' q').val = (m.mutation? scope s q).val := by
  rw [val_mutation?, val_mutation?, Source.val_evaluate_of_mirrors ht h m.source]

end

/-! ### State changes -/

mutual

/-- The same assignment is selected. -/
theorem Change.val_select_of_mirrors (ht : scope.table.check = .ok ()) (h : s.Mirrors hidden s') :
    ∀ change : Change, (∀ l ∈ change.tested scope s, l.Blind scope hidden s) →
      (change.select scope s').val = (change.select scope s).val
  | .assign path m, _ => rfl
  | .conditional c yes no, hblind => by
    rw [tested] at hblind
    have htest := Condition.val_test_of_mirrors ht h fun l hl =>
      hblind l (List.mem_append_left _ hl)
    have hbranch := fun l hl => hblind l (List.mem_append_right _ hl)
    rw [select, select, Observed.val_bind, Observed.val_bind, htest]
    cases hc : (c.test scope s).val with
    | true =>
        rw [hc] at hbranch
        exact val_selectBranch_of_mirrors ht h yes hbranch
    | false =>
        rw [hc] at hbranch
        exact val_selectBranch_of_mirrors ht h no hbranch

theorem Change.val_selectBranch_of_mirrors (ht : scope.table.check = .ok ())
    (h : s.Mirrors hidden s') :
    ∀ branch : Option Change, (∀ l ∈ testedIn scope s branch, l.Blind scope hidden s) →
      (selectBranch scope s' branch).val = (selectBranch scope s branch).val
  | none, _ => rfl
  | some change, hblind => val_select_of_mirrors ht h change hblind

end

section

variable (ht : scope.table.check = .ok ()) (hs : s.Reachable) (hs' : s'.Reachable)
  (h : s.Mirrors hidden s')

include ht hs hs' h

/-- To grow along a path is to plant the same names. -/
theorem Scope.mirrors_grow (path : List Locator) :
    (scope.grow s Quark.root path).store.Mirrors hidden (scope.grow s' Quark.root path).store := by
  obtain ⟨ns, hns⟩ := exists_spells ht s path
  rw [(hns.grow_root ht hs).store,
    ((h.spells hns).grow_root ht hs').store]
  exact h.planted hs hs' ns.leading

theorem Scope.grow_error_of_mirrors {path : List Locator} {u : Unresolved}
    (hu : (scope.grow s Quark.root path).result = .error u) :
    (scope.grow s' Quark.root path).result = .error u := by
  obtain ⟨ns, hns⟩ := exists_spells ht s path
  have hf := hns.grow_root ht hs
  have hf' := (h.spells hns).grow_root ht hs'
  cases hnames : ns.names? with
  | none => rw [hf'.error hnames, ← hu, hf.error hnames]
  | some names =>
      rw [hf.ok names hnames] at hu
      cases hu

/-- To grow along a sound path is to come to the same place. -/
theorem Scope.grow_ok_of_mirrors {path : List Locator} (hp : Locator.Sound scope.table path)
    {q : Quark} (hq : (scope.grow s Quark.root path).result = .ok q) :
    ∃ names q', names ≠ [] ∧ (scope.grow s' Quark.root path).result = .ok q' ∧
      (scope.grow s Quark.root path).store.tree.walk? Quark.root names = some q ∧
      (scope.grow s' Quark.root path).store.tree.walk? Quark.root names = some q' := by
  obtain ⟨ns, hns⟩ := exists_spells ht s path
  have hf := hns.grow_root ht hs
  have hf' := (h.spells hns).grow_root ht hs'
  obtain ⟨names, hnames, hwalk⟩ := (hf.result_eq_ok_iff q).mp hq
  have hq' := hf'.ok names hnames
  obtain ⟨more, hmore, hwalk'⟩ := (hf'.result_eq_ok_iff _).mp hq'
  obtain rfl := Option.some.inj (hnames.symm.trans hmore)
  exact ⟨names, _, Spelling.ne_nil_of_names? (hns.ne_nil ht hp.1) hnames, hq', hwalk, hwalk'⟩

/-- What an assignment comes to on a store it comes to on one that mirrors it. -/
theorem Assignment.Comes.of_mirrors {a : Assignment} (ha : a.Sound scope.table)
    {result : Except ChangeError Unit} {after : Store} {tried : List Quark}
    (hcomes : a.Comes scope s result after tried) :
    ∃ after' tried', a.Comes scope s' result after' tried' ∧ after.Mirrors hidden after' := by
  have hgrown := Scope.mirrors_grow ht hs hs' h a.target
  cases hcomes with
  | lost hu => exact ⟨_, _, .lost (Scope.grow_error_of_mirrors ht hs hs' h hu), hgrown⟩
  | failed hq hm =>
      obtain ⟨names, q', -, hq', -, -⟩ := Scope.grow_ok_of_mirrors ht hs hs' h ha.target hq
      exact ⟨_, _, .failed hq' (by rw [Term.val_mutation?_of_mirrors ht hgrown, hm]), hgrown⟩
  | looked hq hm =>
      obtain ⟨names, q', -, hq', -, -⟩ := Scope.grow_ok_of_mirrors ht hs hs' h ha.target hq
      exact ⟨_, _, .looked hq' (by rw [Term.val_mutation?_of_mirrors ht hgrown, hm]), hgrown⟩
  | done hq hm hdone =>
      obtain ⟨names, q', hn, hq', hwalk, hwalk'⟩ :=
        Scope.grow_ok_of_mirrors ht hs hs' h ha.target hq
      obtain ⟨after', hdone', hafter⟩ := hgrown.mutate_ok (Scope.reachable_grow ht hs a.target)
        (Scope.reachable_grow ht hs' a.target) hn hwalk hwalk' hdone
      exact ⟨_, _, .done hq' (by rw [Term.val_mutation?_of_mirrors ht hgrown, hm]) hdone', hafter⟩
  | refused hq hm hrefused =>
      obtain ⟨names, q', hn, hq', hwalk, hwalk'⟩ :=
        Scope.grow_ok_of_mirrors ht hs hs' h ha.target hq
      have hrefused' := hgrown.mutate_error (Scope.reachable_grow ht hs a.target)
        (Scope.reachable_grow ht hs' a.target) hn hwalk hwalk' hrefused
      exact ⟨_, _, .refused hq' (by rw [Term.val_mutation?_of_mirrors ht hgrown, hm]) hrefused',
        hgrown⟩

/-- **A state change that is blind to hidden attributes does the same.** -/
theorem Change.mirrors_apply {change : Change} (hcheck : change.check scope.table = .ok ())
    (hblind : ∀ l ∈ change.tested scope s, l.Blind scope hidden s) :
    (change.apply scope s').failures = (change.apply scope s).failures ∧
      (change.apply scope s).store.Mirrors hidden (change.apply scope s').store := by
  have hselect := val_select_of_mirrors ht h change hblind
  rw [apply_eq, apply_eq, performSelected, performSelected, hselect]
  cases ha : (change.select scope s).val with
  | none => exact ⟨rfl, h⟩
  | some a =>
      obtain ⟨after', tried', hcomes, hafter⟩ :=
        (a.comes scope s).of_mirrors ht hs hs' h (sound_of_select change hcheck ha)
      obtain ⟨hresult, hstore, -⟩ := hcomes.eq
      exact ⟨hresult, hstore.symm ▸ hafter⟩

/-! ### Events and runs -/

theorem Job.mirrors_after {jobs : List Job}
    (hcheck : ∀ job ∈ jobs, job.change.check scope.table = .ok ())
    (hblind : Blind scope hidden s jobs) :
    failures scope s' jobs = failures scope s jobs ∧
      (after scope s jobs).Mirrors hidden (after scope s' jobs) := by
  induction jobs generalizing s s' with
  | nil => exact ⟨rfl, h⟩
  | cons job rest ih =>
      obtain ⟨hjob, hrest⟩ := List.forall_mem_cons.mp hcheck
      obtain ⟨hnow, hlater⟩ := hblind
      obtain ⟨hresult, hstore⟩ := Change.mirrors_apply ht hs hs' h hjob hnow
      obtain ⟨hfailures, hlast⟩ := ih (job.change.reachable_apply ht hs)
        (job.change.reachable_apply ht hs') hstore hrest hlater
      refine ⟨?_, hlast⟩
      rw [failures, failures, failure?, failure?, hresult]
      exact congrArg _ hfailures

end

namespace Schema

variable {schema : Schema} (hcheck : schema.check = .ok ()) (hs : s.Reachable) (hs' : s'.Reachable)
  (h : s.Mirrors hidden s')

include hcheck hs hs' h

theorem mirrors_process {e : Event}
    (hblind : Job.Blind ⟨schema.table, e⟩ hidden s (schema.jobsFor e.name)) :
    (schema.process s' e).1.failures = (schema.process s e).1.failures ∧
      (schema.process s e).2.Mirrors hidden (schema.process s' e).2 := by
  have ht : (⟨schema.table, e⟩ : Scope).table.check = .ok () := (check_eq_ok_iff.mp hcheck).1
  obtain ⟨hstore, hfailures, -⟩ := schema.process_eq_jobs s e
  obtain ⟨hstore', hfailures', -⟩ := schema.process_eq_jobs s' e
  rw [hstore, hfailures, hstore', hfailures']
  exact Job.mirrors_after ht hs hs' h (fun job hj => check_of_mem_jobsFor hcheck hj) hblind

/-- **A run that is blind to hidden attributes comes to the same failures,** and to a store that
records the same at every path. -/
theorem mirrors_run {events : List Event} (hblind : schema.Blind hidden s events) :
    (schema.run s' events).1.failures = (schema.run s events).1.failures ∧
      (schema.run s events).2.Mirrors hidden (schema.run s' events).2 := by
  induction events generalizing s s' with
  | nil => exact ⟨rfl, h⟩
  | cons e rest ih =>
      obtain ⟨hnow, hlater⟩ := hblind
      obtain ⟨hfailures, hstore⟩ := mirrors_process hcheck hs hs' h hnow
      obtain ⟨hrest, hlast⟩ := ih (reachable_process hcheck hs e) (reachable_process hcheck hs' e)
        hstore hlater
      refine ⟨?_, hlast⟩
      rw [failures_run_cons, failures_run_cons, hfailures, hrest]

end Schema
end Chronicle
