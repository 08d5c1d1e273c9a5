import Chronicle.Proofs.Interpreter.History
import Chronicle.Proofs.Store.Paths
import Chronicle.Proofs.Store.Stack
import Mathlib.Algebra.Order.Ring.Int

/-!
# Counters

A counter is an attribute that events add to. What an event adds is a literal or the value of a
field, which may be forced to a kind: an integer of 32 bits as it is, and of an integer of 64 bits
the one of 32 bits that is congruent to it (`Value.amount?`). What is no integer adds nothing, and
neither does what would take the sum out of the 32 bits. Both are reported and leave everything
recorded as it was, so that the next event adds to the same sum (`Addition.Counted`).

So a counter holds what it held at first and all that was accepted since, summed up without bounds
(`Schema.counts_exactly`). What is accepted can be told from the amounts alone (`accepted`).

The event may do other things besides, before it adds and after, as long as it leaves alone what is
recorded of the counter (`Addition.AddsTo`). The counter need not be there at first.
-/

namespace Chronicle

/-! ### Amounts and sums -/

/-- The integer has 32 bits. -/
def Fits32 (n : Int) : Prop :=
  -2147483648 ≤ n ∧ n ≤ 2147483647

instance (n : Int) : Decidable (Fits32 n) :=
  inferInstanceAs (Decidable (_ ∧ _))

/-- The amounts that a counter which stands at `n` accepts, one after another: those that are there
and do not take the sum out of the 32 bits. -/
def accepted (n : Int) : List (Option Int) → List Int
  | [] => []
  | none :: rest => accepted n rest
  | some d :: rest => if Fits32 (n + d) then d :: accepted (n + d) rest else accepted n rest

/-- What a counter comes to that stands at `n`. -/
def accumulated (n : Int) (amounts : List (Option Int)) : Int :=
  n + (accepted n amounts).sum

section

variable {n d : Int}

theorem accumulated_nil (n : Int) : accumulated n [] = n := Int.add_zero n

theorem accepted_singleton_of_fits (h : Fits32 (n + d)) : accepted n [some d] = [d] :=
  if_pos h

theorem accepted_singleton_eq_nil {amount : Option Int}
    (h : ∀ d, amount = some d → ¬Fits32 (n + d)) : accepted n [amount] = [] := by
  cases amount with
  | none => rfl
  | some d => exact if_neg (h d rfl)

/-- The first amount counts for those after it by what the counter then stands at. -/
theorem accepted_cons (n : Int) (amount : Option Int) (rest : List (Option Int)) :
    accepted n (amount :: rest) =
      accepted n [amount] ++ accepted (accumulated n [amount]) rest := by
  rw [accumulated]
  cases amount with
  | none => rw [accepted, accepted, accepted, List.sum_nil, Int.add_zero, List.nil_append]
  | some d =>
      by_cases h : Fits32 (n + d)
      · rw [accepted_singleton_of_fits h, accepted, if_pos h, List.sum_singleton]
        rfl
      · rw [accepted_singleton_eq_nil fun _ hd => Option.some.inj hd ▸ h, accepted, if_neg h,
          List.sum_nil, Int.add_zero, List.nil_append]

theorem accumulated_cons (n : Int) (amount : Option Int) (rest : List (Option Int)) :
    accumulated n (amount :: rest) = accumulated (accumulated n [amount]) rest := by
  rw [accumulated, accepted_cons, List.sum_append, ← Int.add_assoc]
  rfl

end

namespace Value

/-- What the value adds to a counter, if it is an integer. -/
def amount? : Value → Option Int
  | .int n => some n.toInt
  | .long n => some (n.toInt.bmod (2 ^ 32))
  | _ => none

/-- Of an integer of 64 bits the one of 32 bits is added that is congruent to it. -/
theorem amount?_long_iff {n : Int64} {d : Int} :
    (Value.long n).amount? = some d ↔ Fits32 d ∧ (4294967296 : Int) ∣ n.toInt - d := by
  rw [amount?, Option.some_inj, Fits32]
  have hlow : -2147483648 ≤ n.toInt.bmod (2 ^ 32) := Int.le_bmod (by decide)
  have hhigh : n.toInt.bmod (2 ^ 32) < 2147483648 := Int.bmod_lt (by decide)
  have hdvd : (4294967296 : Int) ∣ n.toInt - n.toInt.bmod (2 ^ 32) := Int.dvd_self_sub_bmod
  constructor
  · rintro rfl
    exact ⟨⟨hlow, Int.le_of_lt_add_one hhigh⟩, hdvd⟩
  · rintro ⟨hfits, hd⟩
    omega

/-- What is held counts as `n`; `null` counts as 0. -/
def CountsAs (v : Value) (n : Int) : Prop :=
  (v = .null ∧ n = 0) ∨ ∃ i : Int32, v = .int i ∧ i.toInt = n

end Value

/-- A field adds what it is forced to. -/
theorem Source.delta_eventField (e : Event) (name : String) (kind : Option Kind) :
    (Source.eventField name kind).delta e =
      match e.forced name kind with
      | .ok (.int n) => .ok n
      | .ok (.long n) => .ok n.toInt32
      | .ok v => .error (.fieldDelta name v)
      | .error fault => .error (.uncoercible fault) := by
  cases kind <;> rfl

namespace Term

/-- What the term adds to a counter, if what it gives for an event is an integer. -/
def amount? (e : Event) (m : Term) : Option Int :=
  match m.source with
  | .literal v => v.amount?
  | .eventField name kind => (e.forced name kind).toOption.bind Value.amount?
  | _ => none

/-- A sound term that increments asks for what it adds. -/
theorem amount?_eq {t : Table} {m : Term} (hm : m.Sound t) (hi : m.increment = true) (e : Event) :
    m.amount? e = (m.source.delta e).toOption.map Int32.toInt := by
  have hcan := hm.increment hi
  cases hs : m.source with
  | literal v =>
      have hv := hm.literal v hs hi
      cases v with
      | int n => rw [amount?, hs]; rfl
      | null => cases hv
      | long n => cases hv
      | text s => cases hv
  | eventField name kind =>
      rw [amount?, hs, Source.delta_eventField]
      simp only
      cases e.forced name kind with
      | error fault => rfl
      | ok v =>
          cases v with
          | long n => exact congrArg some (Int64.toInt_toInt32 n).symm
          | _ => rfl
  | query path => rw [hs] at hcan; cases hcan
  | eventName => rw [hs] at hcan; cases hcan
  | delete => rw [hs] at hcan; cases hcan

end Term

namespace Track

variable {k : Track} {n : Int} {d : Int32}

/-- A sum that fits exists. -/
theorem exists_sum_of_fits (hk : k.ongoing.CountsAs n) (h : Fits32 (n + d.toInt)) :
    ∃ m, k.sum d = .ok m ∧ m.toInt = n + d.toInt := by
  have hget : (k.ongoing.int?.getD 0).toInt = n := by
    rcases hk with ⟨hnull, rfl⟩ | ⟨i, hi, rfl⟩
    · rw [hnull]; rfl
    · rw [hi]; rfl
  have hsum : ∃ m, k.sum d = .ok m := by
    rcases hk with ⟨hnull, rfl⟩ | ⟨i, hi, rfl⟩
    · exact ⟨d, by rw [sum, hnull]⟩
    · exact ⟨i + d, by rw [sum, hi]; exact if_pos h⟩
  obtain ⟨m, hm⟩ := hsum
  exact ⟨m, hm, by rw [toInt_of_sum hm, hget]⟩

/-- A sum that does not fit is refused as such. -/
theorem sum_of_not_fits (hk : k.ongoing.CountsAs n) (h : ¬Fits32 (n + d.toInt)) :
    ∃ held, k.sum d = .error (.overflow held) := by
  rcases hk with ⟨hnull, rfl⟩ | ⟨i, hi, rfl⟩
  · have hlow := d.le_toInt
    have hhigh := d.toInt_lt
    rw [Fits32] at h
    omega
  · exact ⟨i, by rw [sum, hi]; exact if_neg h⟩

/-- What is recorded of a counter that stood at `n` when amounts have been added.

* `total`: if some were accepted, it holds the sum.
* `none`: otherwise what is recorded is what was. -/
structure Summed (k : Track) (n : Int) (amounts : List (Option Int)) (after : Track) : Prop where
  total : accepted n amounts ≠ [] →
    ∃ i, after.ongoing = .int i ∧ i.toInt = accumulated n amounts
  none : accepted n amounts = [] → after = k

namespace Summed

variable {after last : Track} {amount : Option Int} {rest : List (Option Int)}

theorem refl (k : Track) (n : Int) : k.Summed n [] k :=
  ⟨fun h => absurd rfl h, fun _ => rfl⟩

theorem countsAs {amounts : List (Option Int)} (h : k.Summed n amounts after)
    (hk : k.ongoing.CountsAs n) : after.ongoing.CountsAs (accumulated n amounts) := by
  by_cases hnone : accepted n amounts = []
  · rw [h.none hnone, accumulated, hnone, List.sum_nil, Int.add_zero]
    exact hk
  · exact .inr (h.total hnone)

/-- To add amounts is to add the first and then the rest. -/
theorem cons (h : k.Summed n [amount] after)
    (hrest : after.Summed (accumulated n [amount]) rest last) :
    k.Summed n (amount :: rest) last := by
  refine ⟨fun hsome => ?_, fun hnone => ?_⟩
  · rw [accumulated_cons]
    by_cases hlater : accepted (accumulated n [amount]) rest = []
    · rw [accepted_cons, hlater, List.append_nil] at hsome
      obtain ⟨i, hi, hsum⟩ := h.total hsome
      refine ⟨i, by rw [hrest.none hlater, hi], ?_⟩
      rw [accumulated.eq_def _ rest, hlater, List.sum_nil, Int.add_zero, hsum]
    · exact hrest.total hlater
  · rw [accepted_cons] at hnone
    obtain ⟨hfirst, hlater⟩ := List.append_eq_nil_iff.mp hnone
    rw [hrest.none hlater, h.none hfirst]

end Summed

end Track

/-! ### Adding once -/

namespace Store

variable {s : Store} {path : List String} {q : Quark} {t : Int64} {n : Int} {d : Int32}

section

variable (hpath : path ≠ []) (hq : s.tree.walk? Quark.root path = some q)
  (ht : ∀ c ∈ s.clock, c ≤ t) (hn : (s.trackAt path).ongoing.CountsAs n)

include hpath hq ht hn

/-- What fits is added. -/
theorem mutate_increment_of_fits (hs : s.Reachable) (h : Fits32 (n + d.toInt)) :
    ∃ after, s.mutate q t (.increment d) = .ok after ∧ after.clock = some t ∧
      ∃ i, (after.trackAt path).ongoing = .int i ∧ i.toInt = n + d.toInt := by
  obtain ⟨i, hi, hsum⟩ := Track.exists_sum_of_fits hn h
  have haccepts : s.Accepts q t (.increment d) := by
    refine ⟨Tree.contains_of_walk? hpath hq, ht, fun delta hdelta => ?_⟩
    obtain rfl := Mutation.increment.inj hdelta
    exact ⟨i, by rw [← trackAt_of_walk? hq, hi]⟩
  have htrack : (s.perform q t (.increment d)).trackAt path =
      (s.trackAt path).write t (.int i) := by
    rw [trackAt_perform hs hpath hq, if_pos (by simp [Mutation.actsAt]), Mutation.act,
      Track.increment, hi]
  exact ⟨_, mutate_eq_ok_iff.mpr ⟨haccepts, rfl⟩, perform_clock, i, by rw [htrack]; rfl, hsum⟩

/-- What does not fit is refused. -/
theorem mutate_increment_of_not_fits (h : ¬Fits32 (n + d.toInt)) :
    ∃ where_ held, s.mutate q t (.increment d) = .error (.overflow where_ held d) := by
  obtain ⟨held, hheld⟩ := Track.sum_of_not_fits hn h
  have hpermit : s.permit q t = .ok () :=
    permit_eq_ok_iff.mpr ⟨Tree.contains_of_walk? hpath hq, ht⟩
  rw [trackAt_of_walk? hq] at hheld
  exact ⟨_, held, mutate_eq_error_iff.mpr (.overflow hpermit (Track.sum_eq_error_iff.mp hheld))⟩

end

end Store

/-- A path whose names are all defined leads to where the names lead. -/
theorem Scope.Spells.exists_grow {scope : Scope} {s : Store} {target : List Locator}
    {path : List String} {ns : Spelling} (ht : scope.table.check = .ok ()) (hs : s.Reachable)
    (hns : scope.Spells s target ns) (hpath : ns.names? = some path) :
    ∃ q, (scope.grow s Quark.root target).result = .ok q ∧
      (scope.grow s Quark.root target).store.tree.walk? Quark.root path = some q := by
  have hfollows := hns.grow_root ht hs
  obtain ⟨q, hq⟩ := hfollows.exists_ok_iff.mpr (by rw [hpath]; rfl)
  obtain ⟨names, hnames, hwalk⟩ := (hfollows.result_eq_ok_iff q).mp hq
  obtain rfl := Option.some.inj (hpath.symm.trans hnames)
  exact ⟨q, hq, hwalk⟩

/-- A sound term that increments asks for nothing else. -/
theorem Term.val_mutation?_of_increment {t : Table} {m : Term} (hm : m.Sound t)
    (hi : m.increment = true) (scope : Scope) (s : Store) (q : Quark) :
    (m.mutation? scope s q).val =
      (m.source.delta scope.event).map fun d => some (.increment d) := by
  have hdelete : m.source.isDelete = false := by
    have hcan := hm.increment hi
    cases hs : m.source with
    | delete => rw [hs] at hcan; cases hcan
    | _ => rfl
  rw [val_mutation?, hdelete, hi]
  rfl

/-- What comes of adding at a path that counts as `n`.

* `succeeds`: it is done if and only if there is an amount and the sum fits.
* `adds`: then the sum is held at the path, and the clock stands at the time of the event.
* `refused`: otherwise the failure is that of an invalid mutation, the clock stays, and so does what
  is recorded at any path. -/
structure Assignment.Counts (scope : Scope) (s : Store) (a : Assignment) (path : List String)
    (n : Int) (result : Except ChangeError Unit) (after : Store) : Prop where
  succeeds : result = .ok () ↔ ∃ d, a.term.amount? scope.event = some d ∧ Fits32 (n + d)
  adds : ∀ d, a.term.amount? scope.event = some d → Fits32 (n + d) →
    after.clock = some scope.event.timestamp ∧
      ∃ i, (after.trackAt path).ongoing = .int i ∧ i.toInt = n + d
  refused : ∀ e, result = .error e → e.category = .invalidMutation ∧ after.clock = s.clock ∧
    ∀ other, after.trackAt other = s.trackAt other

/-- **To add is to add exactly, or to do nothing.** -/
theorem Assignment.counts {scope : Scope} {s : Store} {a : Assignment} {path : List String}
    {n : Int} {ns : Spelling} (ht : scope.table.check = .ok ()) (hs : s.Reachable)
    (ha : a.Sound scope.table) (hi : a.term.increment = true) (hns : scope.Spells s a.target ns)
    (hpath : ns.names? = some path) (hclock : ∀ c ∈ s.clock, c ≤ scope.event.timestamp)
    (hn : (s.trackAt path).ongoing.CountsAs n) :
    a.Counts scope s path n (perform scope s (some a)).failures
      (perform scope s (some a)).store := by
  obtain ⟨q, hq, hwalk⟩ := hns.exists_grow ht hs hpath
  have hgrown := Scope.growsTo_grow ht hs a.target
  have hreach := Scope.reachable_grow ht hs a.target
  have hne : path ≠ [] := Spelling.ne_nil_of_names? (hns.ne_nil ht ha.target.1) hpath
  have htrack := hgrown.trackAt hs.tracks_size hreach.grounded
  have hasked := Term.val_mutation?_of_increment ha.term hi scope
    (scope.grow s Quark.root a.target).store q
  have hamount := Term.amount?_eq ha.term hi scope.event
  rw [← htrack] at hn
  rw [← hgrown.clock] at hclock
  cases hd : a.term.source.delta scope.event with
  | error e =>
      rw [hd] at hasked hamount
      obtain ⟨hresult, hstore, -⟩ := (Comes.failed hq hasked).eq
      rw [hresult, hstore]
      have hcategory : e.category = .invalidMutation := by
        cases Term.fails_of_delta ha.term hi hd <;> rfl
      exact ⟨by simp [hamount, Except.toOption], by simp [hamount, Except.toOption],
        fun _ h => Except.error.inj h ▸ ⟨hcategory, hgrown.clock, htrack⟩⟩
  | ok d =>
      rw [hd] at hasked hamount
      have hsome : a.term.amount? scope.event = some d.toInt := hamount
      by_cases hfits : Fits32 (n + d.toInt)
      · obtain ⟨after, hmutate, hafter, hsum⟩ :=
          Store.mutate_increment_of_fits hne hwalk hclock hn hreach hfits
        obtain ⟨hresult, hstore, -⟩ := (Comes.done hq hasked hmutate).eq
        rw [hresult, hstore]
        refine ⟨iff_of_true rfl ⟨_, hsome, hfits⟩, fun d' hd' _ => ?_, nofun⟩
        obtain rfl := Option.some.inj (hsome.symm.trans hd')
        exact ⟨hafter, hsum⟩
      · obtain ⟨where_, held, hmutate⟩ :=
          Store.mutate_increment_of_not_fits hne hwalk hclock hn hfits
        obtain ⟨hresult, hstore, -⟩ := (Comes.refused hq hasked hmutate).eq
        rw [hresult, hstore]
        have hnot : ∀ d', a.term.amount? scope.event = some d' → ¬Fits32 (n + d') :=
            fun d' hd' => by
          rwa [← Option.some.inj (hsome.symm.trans hd')]
        refine ⟨iff_of_false nofun fun ⟨d', hd', h⟩ => hnot d' hd' h,
          fun d' hd' h => absurd h (hnot d' hd'), fun _ h => ?_⟩
        obtain rfl := Except.error.inj h
        exact ⟨rfl, hgrown.clock, htrack⟩

/-! ### Events that add -/

/-- An event that adds, and the jobs that it calls for: the one that adds, with the assignment that
it selects, those before it and those after it. -/
structure Addition where
  event : Event
  before : List Job
  job : Job
  later : List Job
  assignment : Assignment

namespace Addition

variable (schema : Schema) (s : Store) (path : List String) (a : Addition)

/-- What paths are resolved against. -/
def scope : Scope :=
  ⟨schema.table, a.event⟩

/-- The store that the job finds. -/
def found : Store :=
  Job.after (a.scope schema) s a.before

/-- The store that the job leaves. -/
def left : Store :=
  a.job.store (a.scope schema) (a.found schema s)

/-- What is to be added. -/
def amount? : Option Int :=
  a.assignment.term.amount? a.event

/-- The event adds to the counter at a path.

* `jobs` and `selected`: one of its jobs selects an assignment.
* `increment` and `target`: the assignment increments, and its target spells the path.
* `timely`: the event is not before the clock.
* `before` and `later`: the other jobs leave alone what is recorded of the counter. -/
structure AddsTo : Prop where
  jobs : schema.jobsFor a.event.name = a.before ++ a.job :: a.later
  selected : (a.job.change.select (a.scope schema) (a.found schema s)).val = some a.assignment
  increment : a.assignment.term.increment = true
  target : ∃ ns, (a.scope schema).Spells (a.found schema s) a.assignment.target ns ∧
    ns.names? = some path
  timely : ∀ c ∈ s.clock, c ≤ a.event.timestamp
  before : (a.found schema s).trackAt path = s.trackAt path
  later : (Job.after (a.scope schema) (a.left schema s) a.later).trackAt path =
    (a.left schema s).trackAt path

/-- What comes of an event that adds to a counter which stands at `n`.

* `accepted`: its job succeeds if and only if there is an amount and the sum fits.
* `adds`: then the counter holds the sum, and the clock stands at the time of the event.
* `refused`: otherwise an invalid mutation is reported, and the job leaves the clock and everything
  recorded as they were.
* `reported`: the journal tells of that failure, and besides only of failures of the other jobs. -/
structure Counted (n : Int) : Prop where
  accepted : a.job.failure? (a.scope schema) (a.found schema s) = none ↔
    ∃ d, a.amount? = some d ∧ Fits32 (n + d)
  adds : ∀ d, a.amount? = some d → Fits32 (n + d) →
    (a.left schema s).clock = some a.event.timestamp ∧
      ∃ i, ((a.left schema s).trackAt path).ongoing = .int i ∧ i.toInt = n + d
  refused : ∀ f, a.job.failure? (a.scope schema) (a.found schema s) = some f →
    f.error.category = .invalidMutation ∧ (a.left schema s).clock = (a.found schema s).clock ∧
      ∀ other, (a.left schema s).trackAt other = (a.found schema s).trackAt other
  reported : (schema.process s a.event).1.failures =
    Job.failures (a.scope schema) s a.before ++
      (a.job.failure? (a.scope schema) (a.found schema s)).toList ++
        Job.failures (a.scope schema) (a.left schema s) a.later

variable {schema s path a} {n : Int}

/-- The counter is left as the job leaves it. -/
theorem AddsTo.trackAt_process (h : a.AddsTo schema s path) :
    (schema.process s a.event).2.trackAt path = (a.left schema s).trackAt path := by
  rw [(schema.process_eq_jobs s a.event).1, h.jobs, Job.after_append]
  exact h.later

/-- **An event that adds to a counter adds exactly, or does nothing to it.** -/
theorem AddsTo.counted (h : a.AddsTo schema s path) (hschema : schema.check = .ok ())
    (hs : s.Reachable) (hn : (s.trackAt path).ongoing.CountsAs n) :
    a.Counted schema s path n := by
  have ht : (a.scope schema).table.check = .ok () := (Schema.check_eq_ok_iff.mp hschema).1
  have hjob : a.job.change.check schema.table = .ok () :=
    Schema.check_of_mem_jobsFor hschema (by rw [h.jobs]; simp)
  have hclock : ∀ c ∈ (a.found schema s).clock, c ≤ a.event.timestamp := fun c hc => by
    have hclocked := Job.clocked_after ht hs a.before
    rw [found, hclocked.clock] at hc
    split at hc
    · obtain rfl := Option.some.inj hc
      exact Int64.le_refl _
    · exact h.timely c hc
  have hfound : (a.found schema s).Reachable := Job.reachable_after ht hs a.before
  obtain ⟨ns, hns, hpath⟩ := h.target
  have hcounts := Assignment.counts ht hfound
    (Change.sound_of_select _ hjob h.selected) h.increment hns hpath hclock (h.before ▸ hn)
  obtain ⟨hresult, hstore, -⟩ := Change.apply_of_select h.selected
  rw [← hresult, ← hstore] at hcounts
  have hnone : a.job.failure? (a.scope schema) (a.found schema s) = none ↔
      (a.job.change.apply (a.scope schema) (a.found schema s)).failures = .ok () := by
    rw [Job.failure?]
    cases (a.job.change.apply (a.scope schema) (a.found schema s)).failures <;> simp
  refine ⟨hnone.trans hcounts.succeeds, hcounts.adds, fun f hf => ?_, ?_⟩
  · obtain ⟨e, he, rfl⟩ := Job.exists_of_failure? hf
    exact hcounts.refused e he
  · rw [(schema.process_eq_jobs s a.event).2.1, h.jobs, Job.failures_append, List.append_assoc]
    rfl

/-- The event adds its amount to what is recorded of the counter. -/
theorem AddsTo.summed (h : a.AddsTo schema s path) (hcounted : a.Counted schema s path n) :
    (s.trackAt path).Summed n [a.amount?] ((schema.process s a.event).2.trackAt path) := by
  rw [h.trackAt_process]
  by_cases hd : ∃ d, a.amount? = some d ∧ Fits32 (n + d)
  · obtain ⟨d, hd, hfits⟩ := hd
    obtain ⟨-, i, hi, hsum⟩ := hcounted.adds d hd hfits
    have haccepted : accepted n [a.amount?] = [d] := by
      rw [hd, accepted_singleton_of_fits hfits]
    refine ⟨fun _ => ⟨i, hi, ?_⟩, fun hnone => ?_⟩
    · rw [accumulated, haccepted, List.sum_singleton, hsum]
    · rw [haccepted] at hnone
      cases hnone
  · have hnone : accepted n [a.amount?] = [] :=
      accepted_singleton_eq_nil fun d hamount hfits => hd ⟨d, hamount, hfits⟩
    refine ⟨fun hsome => absurd hnone hsome, fun _ => ?_⟩
    cases hf : a.job.failure? (a.scope schema) (a.found schema s) with
    | none => exact absurd (hcounted.accepted.mp hf) hd
    | some f => rw [(hcounted.refused f hf).2.2, h.before]

end Addition

/-! ### Runs that add -/

namespace Schema

/-- Events add to the counter at a path, each on the store that those before it left. -/
def Counting (schema : Schema) (path : List String) (s : Store) : List Addition → Prop
  | [] => True
  | a :: rest => a.AddsTo schema s path ∧ schema.Counting path (schema.process s a.event).2 rest

/-- What comes of events that add to a counter which stands at `n`.

* `each`: each adds to what those before it came to, or is reported and does nothing.
* `summed`: in the end the counter holds what it held at first and all that was accepted. -/
structure CountsExactly (schema : Schema) (s : Store) (path : List String) (n : Int)
    (additions : List Addition) : Prop where
  each : ∀ done a rest, additions = done ++ a :: rest →
    a.Counted schema (schema.run s (done.map Addition.event)).2 path
      (accumulated n (done.map Addition.amount?))
  summed : (s.trackAt path).Summed n (additions.map Addition.amount?)
    ((schema.run s (additions.map Addition.event)).2.trackAt path)

variable {schema : Schema} {s : Store} {path : List String} {n : Int} {additions : List Addition}

/-- **Counters accumulate exactly and never wrap,** whatever is refused on the way. -/
theorem counts_exactly (h : schema.Accepted) (hs : s.Reachable)
    (hn : (s.trackAt path).ongoing.CountsAs n) (ha : schema.Counting path s additions) :
    schema.CountsExactly s path n additions := by
  have hcheck := accepted_iff.mp h
  induction additions generalizing s n with
  | nil =>
      refine ⟨fun done a rest hsplit => ?_, .refl _ n⟩
      cases done <;> cases hsplit
  | cons a rest ih =>
      obtain ⟨hadds, hrest⟩ := ha
      have hcounted := hadds.counted hcheck hs hn
      have hsummed := hadds.summed hcounted
      have hlater := ih (reachable_process hcheck hs a.event) (hsummed.countsAs hn) hrest
      refine ⟨fun done b more hsplit => ?_, ?_⟩
      · cases done with
        | nil =>
            obtain ⟨rfl, -⟩ := List.cons.inj hsplit
            rw [List.map_nil, List.map_nil, accumulated_nil]
            exact hcounted
        | cons c done =>
            obtain ⟨rfl, hmore⟩ := List.cons.inj hsplit
            rw [List.map_cons, List.map_cons, run_cons, accumulated_cons]
            exact hlater.each done b more hmore
      · rw [List.map_cons, List.map_cons, run_cons]
        exact hsummed.cons hlater.summed

/-- A counter that is 7 short of the largest integer. The first amount is accepted, the second does
not fit, the third is no integer, and of the fourth only the low 32 bits count. Each event writes
its name besides, so that the clock moves even if nothing is added. -/
theorem counts_exactly_of_full :
    let total : Assignment := ⟨[.constant "Total"], ⟨.eventField "n", true, .none⟩⟩
    let last : Change := .assign [.constant "Last"] ⟨.eventName, false, .none⟩
    let schema : Schema := {
      handlers := [⟨.ofText "tick", [last, .assign total.target total.term]⟩] }
    let s := ({} : Store).callEach [.create .root "Total", .mutate 0 3 (.set (.int 2147483640))]
    let adding (t : Int64) (v : Field) : Addition := {
      event := { name := "tick", timestamp := t, fields := [("n", v)] }
      before := [⟨"tick", 0, last⟩]
      job := ⟨"tick", 1, .assign total.target total.term⟩
      later := []
      assignment := total }
    let additions := [adding 3 (.int 5), adding 4 (.int 10), adding 6 (.text "a"),
      adding 6 (.long 4294967297)]
    schema.Accepted ∧ s.Reachable ∧ (s.trackAt ["Total"]).ongoing.CountsAs 2147483640 ∧
      schema.Counting ["Total"] s additions ∧
      schema.CountsExactly s ["Total"] 2147483640 additions ∧
      accepted 2147483640 (additions.map Addition.amount?) = [5, 1] ∧
      ((schema.run s (additions.map Addition.event)).2.trackAt ["Total"]).ongoing =
        .int 2147483646 := by
  intro total last schema s adding additions
  have h : schema.Accepted := accepted_iff.mpr rfl
  have hs : s.Reachable := Store.Reachable.empty.callEach _
  have hn : (s.trackAt ["Total"]).ongoing.CountsAs 2147483640 :=
    .inr ⟨2147483640, by decide +kernel, by decide +kernel⟩
  have htarget : ∀ scope s, ∃ ns, Scope.Spells scope s total.target ns ∧
      ns.names? = some ["Total"] := fun _ _ => ⟨_, .constant .nil, rfl⟩
  have ha : schema.Counting ["Total"] s additions :=
    ⟨⟨rfl, rfl, rfl, htarget _ _, Store.clock_le_of_eq (c := 3) (by decide +kernel) (by decide),
        by decide +kernel, rfl⟩,
      ⟨rfl, rfl, rfl, htarget _ _, Store.clock_le_of_eq (c := 3) (by decide +kernel) (by decide),
        by decide +kernel, rfl⟩,
      ⟨rfl, rfl, rfl, htarget _ _, Store.clock_le_of_eq (c := 4) (by decide +kernel) (by decide),
        by decide +kernel, rfl⟩,
      ⟨rfl, rfl, rfl, htarget _ _, Store.clock_le_of_eq (c := 6) (by decide +kernel) (by decide),
        by decide +kernel, rfl⟩, trivial⟩
  exact ⟨h, hs, hn, ha, counts_exactly h hs hn ha, by decide +kernel, by decide +kernel⟩

end Schema
end Chronicle
