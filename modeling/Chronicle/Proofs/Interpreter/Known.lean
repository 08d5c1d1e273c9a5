import Chronicle.Proofs.Interpreter.Reach

/-!
# Locations that are looked up are there

In a schema that has passed its check every path names locations that are defined, at any depth: in
queries and in the paths of other locations. So a location that is not defined is never looked up,
whatever is resolved, evaluated or applied (`Change.known_apply`).
-/

namespace Chronicle

namespace Observation

/-- No location was looked up that is not defined. -/
def Known (o : Observation) : Prop :=
  ∀ name, .locationUnknown name ∉ o.remarks

theorem known_empty : ({} : Observation).Known :=
  fun _ => List.not_mem_nil

theorem Known.append {a b : Observation} (ha : a.Known) (hb : b.Known) : (a ++ b).Known := by
  intro name h
  rcases List.mem_append.mp h with h | h
  · exact ha name h
  · exact hb name h

theorem known_join {os : List Observation} (h : ∀ o ∈ os, o.Known) : (join os).Known := by
  intro name hn
  obtain ⟨o, ho, hr⟩ := mem_remarks_join.mp hn
  exact h o ho name hr

end Observation

namespace Observed

variable {α β : Type} {x : Observed α}

theorem known_pure (a : α) : (pure a : Observed α).Known :=
  Observation.known_empty

theorem known_remark {r : Remark} (h : ∀ name, r ≠ .locationUnknown name) :
    (remark r).Known :=
  fun name hr => h name (List.mem_singleton.mp hr).symm

/-- Something else is remarked on. -/
theorem known_remarked {r : Remark} (h : ∀ name, r ≠ .locationUnknown name) (a : α) :
    (do remark r; return a).Known :=
  (known_remark h).append (known_pure a)

theorem known_bind {f : α → Observed β} (hx : x.Known) (hf : ∀ a, (f a).Known) :
    (x >>= f).Known :=
  hx.append (hf x.val)

theorem known_onward {x : Observed (Except Unresolved Quark)}
    {f : Quark → Observed (Except Unresolved Quark)} (hx : x.Known) (hf : ∀ q, (f q).Known) :
    (x.onward f).Known := by
  refine known_bind hx fun r => ?_
  cases r with
  | ok q => exact hf q
  | error u => exact known_pure _

end Observed

theorem Growth.known_onward {g : Growth} {f : Store → Quark → Growth} (hg : g.Known)
    (hf : ∀ s q, (f s q).Known) : (g.onward f).Known := by
  unfold onward
  cases g.result with
  | ok next => exact hg.append (hf g.store next)
  | error u => exact hg

theorem Store.known_lookupNamed (s : Store) (q : Quark) (name : Option String) :
    (s.lookupNamed q name).Known := by
  cases name <;> exact fun _ => List.not_mem_nil

theorem Event.known_nameIn (e : Event) (field : String) : (e.nameIn field).Known := by
  intro name h
  unfold nameIn at h
  simp only at h
  split at h
  · cases List.mem_singleton.mp h
  · cases h

theorem Store.known_grow {s : Store} {q : Quark} {name : Observed (Option String)}
    (h : name.Known) : (s.grow q name).Known := by
  unfold grow
  split
  · split <;> exact h
  · exact h

namespace Scope

variable {scope : Scope} (ht : scope.table.check = .ok ())

include ht

theorem known_find {s : Store} (path : List Locator) :
    Locator.checkEach scope.table path = .ok () → ∀ q, (scope.find s q path).Known := by
  induction path using Table.path_induction (h := ht) with
  | nil => exact fun _ _ => Observed.known_pure _
  | constant name rest ih =>
      intro h q
      obtain ⟨-, hrest⟩ := Locator.checkEach_cons_iff.mp h
      rw [find_cons, findOne_constant]
      exact Observed.known_onward (s.known_lookupNamed q (some name)) fun c => ih hrest c
  | eventField name rest ih =>
      intro h q
      obtain ⟨-, hrest⟩ := Locator.checkEach_cons_iff.mp h
      rw [find_cons, findOne_eventField]
      exact Observed.known_onward
        (Observed.known_bind (scope.event.known_nameIn name) fun n => s.known_lookupNamed q n)
        fun c => ih hrest c
  | query path rest ihp ih =>
      intro h q
      obtain ⟨hl, hrest⟩ := Locator.checkEach_cons_iff.mp h
      obtain ⟨-, hp⟩ := Locator.check_query_iff.mp hl
      rw [find_cons, findOne_query]
      exact Observed.known_onward
        (Observed.known_onward (ihp hp Quark.root) fun target => s.known_lookupNamed q _)
        fun c => ih hrest c
  | location name rest ihp ih =>
      intro h q
      obtain ⟨hl, hrest⟩ := Locator.checkEach_cons_iff.mp h
      obtain ⟨path, hp⟩ := Table.defines_iff.mp (Locator.check_location_iff.mp hl)
      rw [find_cons, findOne_location ht, hp]
      exact Observed.known_onward (ihp path hp (Table.sound_of_path? ht hp).2 q) fun c => ih hrest c

theorem known_valueAt {s : Store} {path : List Locator}
    (hp : Locator.Sound scope.table path) : (scope.valueAt s path).Known := by
  refine Observed.known_bind (known_find ht path hp.2 Quark.root) fun r => ?_
  cases r <;> exact Observed.known_pure _

theorem known_grow (path : List Locator) :
    Locator.checkEach scope.table path = .ok () → ∀ s q, (scope.grow s q path).Known := by
  induction path using Table.path_induction (h := ht) with
  | nil => exact fun _ _ _ => Observation.known_empty
  | constant name rest ih =>
      intro h s q
      obtain ⟨-, hrest⟩ := Locator.checkEach_cons_iff.mp h
      rw [grow_cons, growOne_constant]
      exact Growth.known_onward (Store.known_grow (Observed.known_pure _)) fun s c => ih hrest s c
  | eventField name rest ih =>
      intro h s q
      obtain ⟨-, hrest⟩ := Locator.checkEach_cons_iff.mp h
      rw [grow_cons, growOne_eventField]
      exact Growth.known_onward (Store.known_grow (scope.event.known_nameIn name))
        fun s c => ih hrest s c
  | query path rest _ ih =>
      intro h s q
      obtain ⟨hl, hrest⟩ := Locator.checkEach_cons_iff.mp h
      rw [grow_cons, growOne_query]
      exact Growth.known_onward
        (Store.known_grow (Observed.known_bind (known_valueAt ht (Locator.check_query_iff.mp hl))
          fun v => Observed.known_pure _))
        fun s c => ih hrest s c
  | location name rest ihp ih =>
      intro h s q
      obtain ⟨hl, hrest⟩ := Locator.checkEach_cons_iff.mp h
      obtain ⟨path, hp⟩ := Table.defines_iff.mp (Locator.check_location_iff.mp hl)
      rw [grow_cons, growOne_location ht, hp]
      exact Growth.known_onward (ihp path hp (Table.sound_of_path? ht hp).2 s q)
        fun s c => ih hrest s c

end Scope

section

variable {scope : Scope} (ht : scope.table.check = .ok ()) (s : Store)

include ht

theorem Source.known_evaluate {source : Source}
    (h : ∀ path, source = .query path → Locator.Sound scope.table path) :
    (source.evaluate scope s).Known := by
  cases source with
  | query path =>
      refine Observed.known_bind (Scope.known_valueAt ht (h path rfl)) fun v => ?_
      cases v with
      | some v => exact Observed.known_pure _
      | none => exact Observed.known_remarked (by simp) _
  | eventField name kind => cases kind <;> exact Observed.known_pure _
  | _ => exact Observed.known_pure _

theorem Operand.known_evaluate {operand : Operand} (h : operand.Sound scope.table) :
    (operand.evaluate scope s).Known := by
  cases h with
  | ofPath h =>
      refine Observed.known_bind (Scope.known_valueAt ht h) fun v => ?_
      cases v with
      | some v => exact Observed.known_pure _
      | none => exact Observed.known_remarked (by simp) _
  | ofTerm _ h =>
      refine Observed.known_bind (Source.known_evaluate ht s h.query) fun v => ?_
      cases v with
      | ok v => exact Observed.known_pure _
      | error e => exact Observed.known_remarked (by simp) _

theorem Comparison.known_test {l : Comparison} (h : l.Sound scope.table) :
    (l.test scope s).Known := by
  refine Observed.known_bind (Operand.known_evaluate ht s h.operand) fun v => ?_
  cases v with
  | none => exact Observed.known_pure _
  | some v =>
      refine Observed.known_bind (Source.known_evaluate ht s h.expected.query) fun w => ?_
      cases w with
      | ok w => exact Observed.known_pure _
      | error e => exact Observed.known_remarked (by simp) _

theorem Condition.known_test {c : Condition} (h : c.check scope.table = .ok ()) :
    (c.test scope s).Known := by
  rw [observation_test]
  refine Observation.known_join fun o ho => ?_
  obtain ⟨l, hl, rfl⟩ := List.mem_map.mp ho
  exact Comparison.known_test ht s (sound_of_mem_leaves h hl)

theorem Term.known_mutation? {m : Term} (h : m.Sound scope.table) (q : Quark) :
    (m.mutation? scope s q).Known := by
  unfold mutation?
  split
  · exact Observed.known_remarked (by simp) _
  · split
    · exact Observed.known_pure _
    · refine Observed.known_bind (Source.known_evaluate ht s h.query) fun v => ?_
      cases v with
      | error fault => exact Observed.known_pure _
      | ok v =>
          cases m.stack with
          | peek => exact Observed.known_remarked (by simp) _
          | _ => exact Observed.known_pure _

omit ht in
theorem Store.known_remarks (q : Quark) (m : Mutation) :
    Observation.Known { remarks := s.remarks q m } := by
  intro name h
  cases m <;> simp [remarks] at h

theorem Assignment.known_perform {a : Assignment} (h : a.Sound scope.table) :
    (perform scope s (some a)).Known := by
  have hgrown := Scope.known_grow ht a.target h.target.2 s Quark.root
  have hseen := fun q => hgrown.append
    (Term.known_mutation? ht (scope.grow s Quark.root a.target).store h.term q)
  have hperform : perform scope s (some a) = Change.assignTo scope s a.target a.term := rfl
  rw [hperform, Change.assignTo]
  dsimp only
  split
  · exact hgrown
  · next q _ =>
    split
    · exact hseen q
    · exact hseen q
    · next m _ =>
      split
      · exact (hseen q).append (Store.known_remarks _ q m)
      · exact hseen q

end

mutual

theorem Change.known_select {scope : Scope} (ht : scope.table.check = .ok ()) (s : Store) :
    ∀ change : Change, change.check scope.table = .ok () → (change.select scope s).Known
  | .assign path m, _ => Observed.known_pure _
  | .conditional c yes no, h => by
    obtain ⟨-, hc, hyes, hno⟩ := check_conditional_iff.mp h
    rw [select]
    refine Observed.known_bind (Condition.known_test ht s hc) fun b => ?_
    cases b with
    | true => exact known_selectBranch ht s yes hyes
    | false => exact known_selectBranch ht s no hno

theorem Change.known_selectBranch {scope : Scope} (ht : scope.table.check = .ok ()) (s : Store) :
    ∀ branch : Option Change, (∀ change ∈ branch, change.check scope.table = .ok ()) →
      (selectBranch scope s branch).Known
  | none, _ => Observed.known_pure _
  | some change, h => known_select ht s change (h change rfl)

end

theorem Change.known_apply {scope : Scope} (ht : scope.table.check = .ok ()) (s : Store)
    {change : Change} (h : change.check scope.table = .ok ()) : (change.apply scope s).Known := by
  rw [apply_eq, performSelected]
  refine Observation.Known.append (known_select ht s change h) ?_
  cases ha : (change.select scope s).val with
  | none => exact Observation.known_empty
  | some a => exact Assignment.known_perform ht s (sound_of_select change h ha)

end Chronicle
