import Chronicle.Proofs.Interpreter.Known
import Chronicle.Proofs.Store.Refusals

/-!
# Causes of failures

A schema that is accepted has no fault that could show while it runs: what is created stands under
the root or under an attribute, and what is read or mutated is an attribute (`Change.Safe`). A state
change that fails has a cause in the event and in what is recorded (`Assignment.Explains`): its
target has no name, the event is late, or a field or the value held does not fit.
`Schema.safe_of_accepted` says so of all that an event sets off.
-/

namespace Chronicle

/-! ### Targets without a name -/

namespace Spelling

theorem names?_cons_eq_none_iff {n : Option String} {ns : Spelling} :
    names? (n :: ns) = none ↔ n = none ∨ ns.names? = none := by
  cases n <;> simp [names?]

theorem names?_append_eq_none_iff {ns ms : Spelling} :
    names? (ns ++ ms) = none ↔ ns.names? = none ∨ ms.names? = none := by
  rw [names?_append]
  cases ns.names? <;> simp

end Spelling

namespace Scope

/-- A locator has no name: the event does not have the field, the query comes to no attribute or to
one that holds nothing, or the path of the location has such a locator. -/
inductive Nameless (scope : Scope) (s : Store) : Locator → Prop
  | eventField {name : String} : scope.event.reading? name = none →
      Nameless scope s (.eventField name)
  | unresolved {path : List Locator} : (scope.valueAt s path).val = none →
      Nameless scope s (.query path)
  | null {path : List Locator} : (scope.valueAt s path).val = some .null →
      Nameless scope s (.query path)
  | location {name : String} {path : List Locator} {l : Locator} :
      scope.table.path? name = some path → l ∈ path → Nameless scope s l →
        Nameless scope s (.location name)

variable {scope : Scope} {s : Store} {path : List Locator} {ns : Spelling}

/-- A sound path spells an undefined name if and only if one of its locators has none. -/
theorem Spells.names?_eq_none_iff (ht : scope.table.check = .ok ()) (h : scope.Spells s path ns) :
    Locator.checkEach scope.table path = .ok () →
      (ns.names? = none ↔ ∃ l ∈ path, scope.Nameless s l) := by
  have hcons : ∀ {l : Locator} {rest : List Locator},
      (∃ m ∈ l :: rest, scope.Nameless s m) ↔
        scope.Nameless s l ∨ ∃ m ∈ rest, scope.Nameless s m := by simp
  induction h with
  | nil => exact fun _ => by simp [Spelling.names?]
  | @constant name rest ns _ ih =>
      intro hp
      have hl : ¬scope.Nameless s (.constant name) := fun h => by cases h
      obtain ⟨-, hrest⟩ := Locator.checkEach_cons_iff.mp hp
      rw [Spelling.names?_cons_eq_none_iff, hcons, ih hrest]
      simp [hl]
  | @eventField name rest ns _ ih =>
      intro hp
      have hl : scope.Nameless s (.eventField name) ↔ scope.event.segment? name = none := by
        rw [Event.segment?, Option.map_eq_none_iff]
        constructor
        · rintro ⟨h⟩
          exact h
        · exact .eventField
      obtain ⟨-, hrest⟩ := Locator.checkEach_cons_iff.mp hp
      rw [Spelling.names?_cons_eq_none_iff, hcons, ih hrest, hl]
  | @query path rest ms ns hms _ _ ih =>
      intro hp
      have hl : scope.Nameless s (.query path) ↔ s.nameAt? ms = none := by
        rw [← hms.val_valueAt ht]
        constructor
        · rintro (_ | h | h | _)
          · rw [h]; rfl
          · rw [h]; rfl
        · intro h
          cases hv : (scope.valueAt s path).val with
          | none => exact .unresolved hv
          | some v =>
              rw [hv, Option.bind_some, Value.segment?_eq_none_iff] at h
              exact .null (hv.trans (congrArg some h))
      obtain ⟨-, hrest⟩ := Locator.checkEach_cons_iff.mp hp
      rw [Spelling.names?_cons_eq_none_iff, hcons, ih hrest, hl]
  | @location name path rest ms ns hpath _ _ ihp ih =>
      intro hp
      have hl : scope.Nameless s (.location name) ↔ ∃ l ∈ path, scope.Nameless s l := by
        constructor
        · rintro (_ | _ | _ | ⟨hpath', hmem, h⟩)
          obtain rfl := Option.some.inj (hpath.symm.trans hpath')
          exact ⟨_, hmem, h⟩
        · rintro ⟨l, hmem, h⟩
          exact .location hpath hmem h
      obtain ⟨-, hrest⟩ := Locator.checkEach_cons_iff.mp hp
      rw [Spelling.names?_append_eq_none_iff, hcons, ih hrest, hl,
        ihp (Table.sound_of_path? ht hpath).2]
  | unknown hpath _ _ =>
      intro hp
      obtain ⟨hl, -⟩ := Locator.checkEach_cons_iff.mp hp
      rw [Locator.check_location_iff, Table.defines_eq_false_iff.mpr hpath] at hl
      cases hl

/-- **Growing along a sound path fails if and only if a locator has no name.** It fails for no other
reason. -/
theorem grow_eq_error_iff (ht : scope.table.check = .ok ()) (hs : s.Reachable)
    (hp : Locator.checkEach scope.table path = .ok ()) {u : Unresolved} :
    (scope.grow s Quark.root path).result = .error u ↔
      u = .absent ∧ ∃ l ∈ path, scope.Nameless s l := by
  obtain ⟨ns, hns⟩ := exists_spells ht s path
  have hf := hns.grow_root ht hs
  rw [← hns.names?_eq_none_iff ht hp]
  constructor
  · intro h
    cases hnames : ns.names? with
    | none => exact ⟨(Except.error.inj ((hf.error hnames).symm.trans h)).symm, rfl⟩
    | some names =>
        rw [hf.ok names hnames] at h
        cases h
  · rintro ⟨rfl, hnames⟩
    exact hf.error hnames

end Scope

/-! ### Causes -/

namespace Term

/-- Only a term that increments asks to increment, by what its source adds. -/
theorem increment_of_mutation? {m : Term} {scope : Scope} {s : Store} {q : Quark} {delta : Int32}
    (h : (m.mutation? scope s q).val = .ok (some (.increment delta))) :
    m.increment = true ∧ m.source.delta scope.event = .ok delta := by
  cases wants_of_mutation? h with
  | increment hi hd => exact ⟨hi, hd⟩

end Term

/-- Why an assignment fails on a store.

* `nameless`: a locator of the target has no name.
* `late`: the event is older than the latest mutation.
* `unparsed`: a field is forced to an integer, and it is a text that is no numeral.
* `notNumeric`: a field is to be added, and it is no integer.
* `notAnInt`, `overflow`: the target holds a wide integer or a text, to which nothing can be added,
  or an integer with which the sum is none of 32 bits. -/
inductive Assignment.Explains (scope : Scope) (s : Store) (a : Assignment) : ChangeError → Prop
  | nameless {l : Locator} : l ∈ a.target → scope.Nameless s l →
      Explains scope s a (.attributeNotFound a.target)
  | late {clock : Int64} : s.clock = some clock → scope.event.timestamp < clock →
      Explains scope s a (.refused (.late scope.event.timestamp clock))
  | unparsed {name : String} {fault : CoercionError} :
      a.term.source = .eventField name (some fault.kind) →
      scope.event.value name = .text fault.text → fault.kind ≠ .string →
      (Value.text fault.text).coerce fault.kind = .error fault →
        Explains scope s a (.uncoercible fault)
  | notNumeric {name : String} {kind : Option Kind} {v : Value} :
      a.term.source = .eventField name kind → a.term.increment = true →
      scope.event.forced name kind = .ok v → v.isNumeric = false →
        Explains scope s a (.fieldDelta name v)
  | notAnInt {q : Quark} {delta : Int32} {path : String} :
      (scope.grow s Quark.root a.target).result = .ok q → a.term.increment = true →
      a.term.source.delta scope.event = .ok delta →
      s.ongoing q ≠ .null → (s.ongoing q).int? = none →
        Explains scope s a (.refused (.notAnInt delta path (s.ongoing q)))
  | overflow {q : Quark} {delta n : Int32} {path : String} :
      (scope.grow s Quark.root a.target).result = .ok q → a.term.increment = true →
      a.term.source.delta scope.event = .ok delta → s.ongoing q = .int n →
      (n.toInt + delta.toInt < -2147483648 ∨ 2147483647 < n.toInt + delta.toInt) →
        Explains scope s a (.refused (.overflow path n delta))

namespace Assignment

variable {scope : Scope} {s : Store} {a : Assignment}

theorem explains_of_fails {e : ChangeError} (h : a.term.Fails scope.event e) :
    a.Explains scope s e := by
  cases h with
  | uncoercible hsource hforced =>
      obtain ⟨hv, rfl, hkind⟩ := Event.forced_eq_error hforced
      rw [Event.forced, hv] at hforced
      exact .unparsed hsource hv hkind hforced
  | fieldDelta hsource hi hforced hv => exact .notNumeric hsource hi hforced hv

/-- **A sound assignment that fails has a cause.** -/
theorem Comes.explains (ht : scope.table.check = .ok ()) (hs : s.Reachable)
    (ha : a.Sound scope.table) {e : ChangeError} {after : Store} {tried : List Quark}
    (h : a.Comes scope s (.error e) after tried) : a.Explains scope s e := by
  have hgrown := Scope.growsTo_grow ht hs a.target
  cases h with
  | lost hq =>
      obtain ⟨-, l, hl, hnameless⟩ := (Scope.grow_eq_error_iff ht hs ha.target.2).mp hq
      exact .nameless hl hnameless
  | failed _ hm => exact explains_of_fails (Term.fails_of_mutation? ha.term hm)
  | @refused q m r hq hm hrefused =>
      have htrack : ∀ d, (scope.grow s Quark.root a.target).store.track d = s.track d :=
        hgrown.track
      cases Store.mutate_eq_error_iff.mp hrefused with
      | unknownQuark hnot =>
          rw [Scope.contains_of_grow ht hs ha.target hq] at hnot
          cases hnot
      | late _ hclock hlt => exact .late (hgrown.clock.symm.trans hclock) hlt
      | notAnInt _ hsum =>
          obtain ⟨hi, hdelta⟩ := Term.increment_of_mutation? hm
          rw [htrack] at hsum
          cases hsum with
          | notAnInt hnull hint => exact .notAnInt hq hi hdelta hnull hint
      | overflow _ hsum =>
          obtain ⟨hi, hdelta⟩ := Term.increment_of_mutation? hm
          rw [htrack] at hsum
          cases hsum with
          | overflow hheld hout => exact .overflow hq hi hdelta hheld hout

end Assignment

/-! ### What is read -/

/-- The path `p` is queried while a path is resolved: in one of its queries, at any depth, or in the
path of one of its locations. -/
inductive Table.Queries (t : Table) (p : List Locator) : List Locator → Prop
  | here {path : List Locator} : .query p ∈ path → Queries t p path
  | query {path inner : List Locator} : .query inner ∈ path → Queries t p inner → Queries t p path
  | location {name : String} {path inner : List Locator} : .location name ∈ path →
      t.path? name = some inner → Queries t p inner → Queries t p path

theorem Locator.check_of_mem {t : Table} {path : List Locator} (hp : checkEach t path = .ok ())
    {l : Locator} (hl : l ∈ path) : l.check t = .ok () := by
  induction path with
  | nil => cases hl
  | cons m rest ih =>
      obtain ⟨hm, hrest⟩ := checkEach_cons_iff.mp hp
      rcases List.mem_cons.mp hl with rfl | hl
      · exact hm
      · exact ih hrest hl

/-- What a sound path queries is sound. -/
theorem Table.Queries.sound {t : Table} (ht : t.check = .ok ()) {p path : List Locator}
    (h : t.Queries p path) : Locator.checkEach t path = .ok () → Locator.Sound t p := by
  induction h with
  | here hmem => exact fun hp => Locator.check_query_iff.mp (Locator.check_of_mem hp hmem)
  | query hmem _ ih =>
      exact fun hp => ih (Locator.check_query_iff.mp (Locator.check_of_mem hp hmem)).2
  | location _ hpath _ ih => exact fun _ => ih (Table.sound_of_path? ht hpath).2

/-- The paths that a term reads. -/
def Term.paths (m : Term) : List (List Locator) :=
  match m.source with
  | .query path => [path]
  | _ => []

/-- The paths that a comparison reads. -/
def Comparison.paths (l : Comparison) : List (List Locator) :=
  (match l.operand with
    | .attribute path => [path]
    | .term m => m.paths) ++ l.expected.paths

mutual

/-- The paths of a state change: what its conditions and its terms read, and its targets. -/
def Change.paths : Change → List (List Locator)
  | .assign path m => path :: m.paths
  | .conditional c yes no =>
    c.leaves.flatMap Comparison.paths ++ pathsOfBranch yes ++ pathsOfBranch no

/-- The paths of a branch. -/
def Change.pathsOfBranch : Option Change → List (List Locator)
  | none => []
  | some change => change.paths

end

/-- The attribute at `p` may be read while a state change is applied: the path is one of its own, or
it is queried while one of them is resolved. -/
def Change.Reads (t : Table) (change : Change) (p : List Locator) : Prop :=
  ∃ path ∈ change.paths, p = path ∨ t.Queries p path

section

variable {t : Table} {path : List Locator}

theorem Term.Sound.of_mem_paths {m : Term} (h : m.Sound t) (hp : path ∈ m.paths) :
    Locator.Sound t path := by
  unfold paths at hp
  split at hp
  · next p hsource =>
    obtain rfl := List.mem_singleton.mp hp
    exact h.query path hsource
  · cases hp

theorem Comparison.Sound.of_mem_paths {l : Comparison} (h : l.Sound t) (hp : path ∈ l.paths) :
    Locator.Sound t path := by
  obtain ⟨operand, expected⟩ := l
  rcases List.mem_append.mp hp with hp | hp
  · cases h.operand with
    | ofPath hsound => exact List.mem_singleton.mp hp ▸ hsound
    | ofTerm _ hsound => exact hsound.of_mem_paths hp
  · exact h.expected.of_mem_paths hp

mutual

theorem Change.sound_of_mem_paths : ∀ change : Change, change.check t = .ok () →
    path ∈ change.paths → Locator.Sound t path
  | .assign target m, h, hp => by
    obtain ⟨htarget, hm⟩ := check_assign_iff.mp h
    rcases List.mem_cons.mp hp with rfl | hp
    · exact htarget
    · exact hm.of_mem_paths hp
  | .conditional c yes no, h, hp => by
    obtain ⟨-, hc, hyes, hno⟩ := check_conditional_iff.mp h
    rw [paths, List.mem_append, List.mem_append] at hp
    rcases hp with (hp | hp) | hp
    · obtain ⟨l, hl, hp⟩ := List.mem_flatMap.mp hp
      exact (Condition.sound_of_mem_leaves hc hl).of_mem_paths hp
    · exact sound_of_mem_pathsOfBranch yes hyes hp
    · exact sound_of_mem_pathsOfBranch no hno hp

theorem Change.sound_of_mem_pathsOfBranch : ∀ branch : Option Change,
    (∀ change ∈ branch, change.check t = .ok ()) → path ∈ pathsOfBranch branch →
      Locator.Sound t path
  | none, _, hp => by cases hp
  | some change, h, hp => sound_of_mem_paths change (h change rfl) hp

end

/-- What a sound state change reads is at sound paths. -/
theorem Change.Reads.sound (ht : t.check = .ok ()) {change : Change}
    (h : change.check t = .ok ()) (hp : change.Reads t path) : Locator.Sound t path := by
  obtain ⟨own, hown, rfl | hqueries⟩ := hp
  · exact sound_of_mem_paths change h hown
  · exact hqueries.sound ht (sound_of_mem_paths change h hown).2

end

/-! ### State changes without faults -/

/-- A state change on a store shows no fault of the schema.

* `known`: no location is looked up that is not defined.
* `placed`: what is created stands under the root or under an attribute.
* `read`, `tried`: what is read, at any time while the target grows, and what is mutated is an
  attribute.
* `explained`: if it fails, the assignment that it selects has a cause. -/
structure Change.Safe (scope : Scope) (s : Store) (change : Change) : Prop where
  known : (change.apply scope s).Known
  placed : ∀ a, (change.select scope s).val = some a → ∀ u,
    (scope.grow s Quark.root a.target).result ≠ .error (.unknownParent u)
  read : ∀ path, change.Reads scope.table path → ∀ s', s.GrowsTo s' → ∀ q,
    (scope.find s' Quark.root path).val = .ok q → s'.tree.contains q = true
  tried : ∀ q ∈ (change.apply scope s).tried, (change.apply scope s).store.tree.contains q = true
  explained : ∀ e, (change.apply scope s).failures = .error e →
    ∃ a, (change.select scope s).val = some a ∧ a.Explains scope s e

theorem Assignment.Comes.contains_of_tried {scope : Scope} {s : Store} {a : Assignment}
    (ht : scope.table.check = .ok ()) (hs : s.Reachable) (ha : a.Sound scope.table)
    {result : Except ChangeError Unit} {after : Store} {tried : List Quark}
    (h : a.Comes scope s result after tried) : ∀ q ∈ tried, after.tree.contains q = true := by
  cases h with
  | done hq _ hm =>
      intro d hd
      obtain rfl := List.mem_singleton.mp hd
      obtain ⟨-, rfl⟩ := Store.mutate_eq_ok_iff.mp hm
      rw [Store.perform_tree]
      exact Scope.contains_of_grow ht hs ha.target hq
  | refused hq _ _ =>
      intro d hd
      obtain rfl := List.mem_singleton.mp hd
      exact Scope.contains_of_grow ht hs ha.target hq
  | _ =>
      intro d hd
      cases hd

/-- **A sound state change is safe on every store that calls lead to.** -/
theorem Change.safe {scope : Scope} {s : Store} {change : Change}
    (ht : scope.table.check = .ok ()) (hs : s.Reachable)
    (h : change.check scope.table = .ok ()) : change.Safe scope s where
  known := known_apply ht s h
  placed a ha u hu := by
    obtain ⟨hu, -⟩ := (Scope.grow_eq_error_iff ht hs (sound_of_select change h ha).target.2).mp hu
    cases hu
  read path hp s' _ q hq := Scope.contains_of_find ht (hp.sound ht h) hq
  tried := by
    rw [apply_eq, performSelected]
    cases ha : (change.select scope s).val with
    | none =>
        intro q hq
        cases hq
    | some a => exact (a.comes scope s).contains_of_tried ht hs (sound_of_select change h ha)
  explained e he := by
    rw [apply_eq, performSelected] at he
    cases ha : (change.select scope s).val with
    | none =>
        rw [ha] at he
        cases he
    | some a =>
        rw [ha] at he
        have hcomes := a.comes scope s
        have herror : (Assignment.perform scope s (some a)).failures = .error e := he
        rw [herror] at hcomes
        exact ⟨a, rfl, hcomes.explains ht hs (sound_of_select change h ha)⟩

/-! ### Events -/

namespace Job

variable {scope : Scope} {s : Store} {jobs : List Job}

theorem known_observed (h : ∀ done job rest, jobs = done ++ job :: rest →
    (job.change.apply scope (after scope s done)).Known) : (observed scope s jobs).Known := by
  induction jobs generalizing s with
  | nil => exact Observation.known_empty
  | cons job rest ih =>
      refine (h [] job rest rfl).append (ih fun done later more hsplit => ?_)
      exact h (job :: done) later more (by rw [hsplit, List.cons_append])

/-- What is reported on a job is told of by its place, and has the cause of its failure. -/
theorem exists_of_failure? {job : Job} {f : Failure} (h : job.failure? scope s = some f) :
    ∃ e, (job.change.apply scope s).failures = .error e ∧
      f = ⟨scope.event.name, scope.event.timestamp, job.handler, job.index, e⟩ := by
  unfold failure? at h
  split at h
  · cases h
  · next e he => exact ⟨e, he, (Option.some.inj h).symm⟩

end Job

namespace Schema

/-- To process an event on a store shows no fault of the schema.

* `known`: no location is looked up that is not defined.
* `changes`: each state change is safe on the store that those before it left.
* `explained`: each failure is that of one state change, which selects an assignment that has a
  cause to fail.
* `possible`: no failure says that a literal or a source cannot be added, or that there is no such
  attribute. -/
structure Safe (schema : Schema) (s : Store) (e : Event) : Prop where
  known : ∀ name, .remark (.locationUnknown name) ∉ (schema.process s e).1
  changes : ∀ done job rest, schema.jobsFor e.name = done ++ job :: rest →
    job.change.Safe ⟨schema.table, e⟩ (Job.after ⟨schema.table, e⟩ s done)
  explained : ∀ f ∈ (schema.process s e).1.failures, ∃ done job rest a,
    schema.jobsFor e.name = done ++ job :: rest ∧
      f = ⟨e.name, e.timestamp, job.handler, job.index, f.error⟩ ∧
      (job.change.select ⟨schema.table, e⟩ (Job.after ⟨schema.table, e⟩ s done)).val = some a ∧
      a.Explains ⟨schema.table, e⟩ (Job.after ⟨schema.table, e⟩ s done) f.error
  possible : ∀ f ∈ (schema.process s e).1.failures, (∀ v, f.error ≠ .literalDelta v) ∧
    (∀ source, f.error ≠ .noDelta source) ∧ ∀ q, f.error ≠ .refused (.unknownQuark q)

/-- **A schema that is accepted shows no fault while it runs,** on any store that calls lead to and
for any event. -/
theorem safe_of_accepted {schema : Schema} (h : schema.Accepted) {s : Store} (hs : s.Reachable)
    (e : Event) : schema.Safe s e := by
  have hcheck := accepted_iff.mp h
  have ht : (⟨schema.table, e⟩ : Scope).table.check = .ok () := (check_eq_ok_iff.mp hcheck).1
  obtain ⟨-, hfailures, -, hremarks⟩ := schema.process_eq_jobs s e
  have hsafe : ∀ done job rest, schema.jobsFor e.name = done ++ job :: rest →
      job.change.Safe ⟨schema.table, e⟩ (Job.after ⟨schema.table, e⟩ s done) := by
    intro done job rest hsplit
    have hmem : job ∈ schema.jobsFor e.name :=
      hsplit ▸ List.mem_append_right _ List.mem_cons_self
    exact Change.safe ht (Job.reachable_after ht hs done) (check_of_mem_jobsFor hcheck hmem)
  have hexplained : ∀ f ∈ (schema.process s e).1.failures, ∃ done job rest a,
      schema.jobsFor e.name = done ++ job :: rest ∧
        f = ⟨e.name, e.timestamp, job.handler, job.index, f.error⟩ ∧
        (job.change.select ⟨schema.table, e⟩ (Job.after ⟨schema.table, e⟩ s done)).val = some a ∧
        a.Explains ⟨schema.table, e⟩ (Job.after ⟨schema.table, e⟩ s done) f.error := by
    intro f hf
    rw [hfailures] at hf
    obtain ⟨done, job, rest, hsplit, hf⟩ := Job.mem_failures.mp hf
    obtain ⟨error, herror, rfl⟩ := Job.exists_of_failure? hf
    obtain ⟨a, ha, hexplains⟩ := (hsafe done job rest hsplit).explained error herror
    exact ⟨done, job, rest, a, hsplit, rfl, ha, hexplains⟩
  refine ⟨fun name hname => ?_, hsafe, hexplained, fun f hf => ?_⟩
  · exact Job.known_observed (fun done job rest hsplit => (hsafe done job rest hsplit).known) name
      ((hremarks _).mp hname)
  · obtain ⟨_, _, _, a, -, -, -, hexplains⟩ := hexplained f hf
    refine ⟨fun v hv => ?_, fun source hsource => ?_, fun q hq => ?_⟩
    · rw [hv] at hexplains
      cases hexplains
    · rw [hsource] at hexplains
      cases hexplains
    · rw [hq] at hexplains
      cases hexplains

/-- A target whose location has a field that the event lacks, a text that is no numeral, and an
increment of a text: three failures, and none is a fault of the schema. -/
theorem safe_of_accepted_of_three :
    let schema : Schema := {
      handlers := [⟨.ofText "io*", [.assign [.location "Disk"] ⟨.eventName, false, .none⟩,
        .assign [.constant "Size"] ⟨.eventField "size" (some .int), false, .none⟩,
        .assign [.constant "Total"] ⟨.literal (.int 1), true, .none⟩]⟩]
      table := .ofList [⟨"Disk", [.constant "Disks", .eventField "disk"]⟩] }
    let s := ({} : Store).callEach [.create .root "Total", .mutate 0 3 (.set (.text "none"))]
    let e : Event := { name := "io_read", timestamp := 3, fields := [("size", .text "big")] }
    schema.Accepted ∧ s.Reachable ∧ schema.Safe s e ∧
      (schema.process s e).1.failures.length = 3 := by
  intro schema s e
  have h : schema.Accepted := accepted_iff.mpr rfl
  have hs : s.Reachable := Store.Reachable.empty.callEach _
  exact ⟨h, hs, safe_of_accepted h hs e, by decide +kernel⟩

end Schema
end Chronicle
