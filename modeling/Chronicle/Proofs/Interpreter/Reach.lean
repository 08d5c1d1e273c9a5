import Chronicle.Proofs.Interpreter.Assignments
import Chronicle.Proofs.Interpreter.Jobs
import Chronicle.Proofs.Interpreter.Names

/-!
# Processing is made of calls

Whatever a schema does to a store it does by calls (`Change.leadsTo_apply`,
`Schema.leadsTo_process`, `Schema.leadsTo_run`). So what calls keep is kept by state changes, events
and runs, and from a store that calls lead to they come to stores that calls lead to
(`Change.reachable_apply`, `Schema.reachable_process`, `Schema.reachable_run`). A sound path spells
at least one name, so it leads to an attribute and not to the root (`Scope.contains_of_find`,
`Scope.contains_of_grow`).
-/

namespace Chronicle

theorem Spelling.ne_nil_of_names? {ns : Spelling} {names : List String} (hn : ns ≠ [])
    (h : ns.names? = some names) : names ≠ [] := by
  rcases ns with _ | ⟨_ | name, rest⟩
  · exact absurd rfl hn
  · cases h
  · obtain ⟨more, -, rfl⟩ := Option.map_eq_some_iff.mp h
    exact List.cons_ne_nil _ _

namespace Store

theorem leadsTo_of_mutate {s after : Store} {q : Quark} {t : Int64} {m : Mutation}
    (h : s.mutate q t m = .ok after) : s.LeadsTo after := by
  have hcall : s.call (.mutate q t m) = after := by
    rw [Store.call, h]
  exact hcall ▸ s.leadsTo_call _

end Store

namespace Scope

variable {scope : Scope} {s : Store} {path : List Locator} {q : Quark}

theorem Spells.ne_nil (ht : scope.table.check = .ok ()) {ns : Spelling}
    (h : scope.Spells s path ns) (hp : path ≠ []) : ns ≠ [] := by
  induction h with
  | nil => exact absurd rfl hp
  | location hpath _ _ ihp _ =>
      exact List.append_ne_nil_of_left_ne_nil (ihp (Table.sound_of_path? ht hpath).1) _
  | _ => exact List.cons_ne_nil _ _

/-- To find a sound path is to come to an attribute. -/
theorem contains_of_find (ht : scope.table.check = .ok ()) (hp : Locator.Sound scope.table path)
    (h : (scope.find s Quark.root path).val = .ok q) : s.tree.contains q = true := by
  obtain ⟨ns, hns⟩ := exists_spells ht s path
  rw [hns.val_find ht, Store.arrive] at h
  split at h
  · next c hled =>
    obtain rfl := Except.ok.inj h
    obtain ⟨names, hnames, hwalk⟩ := Option.bind_eq_some_iff.mp hled
    exact Tree.contains_of_walk? (Spelling.ne_nil_of_names? (hns.ne_nil ht hp.1) hnames) hwalk
  · cases h

section

variable (ht : scope.table.check = .ok ()) (hs : s.Reachable)

include ht hs

theorem growsTo_grow (path : List Locator) : s.GrowsTo (scope.grow s Quark.root path).store := by
  obtain ⟨ns, hns⟩ := exists_spells ht s path
  rw [(hns.grow_root ht hs).store]
  exact s.growsTo_planted Quark.root ns.leading

theorem leadsTo_grow (path : List Locator) : s.LeadsTo (scope.grow s Quark.root path).store := by
  obtain ⟨ns, hns⟩ := exists_spells ht s path
  rw [(hns.grow_root ht hs).store]
  exact hs.leadsTo_planted (.inl rfl) ns.leading

theorem reachable_grow (path : List Locator) : (scope.grow s Quark.root path).store.Reachable :=
  hs.leadsTo (leadsTo_grow ht hs path)

/-- To grow along a sound path is to come to an attribute. -/
theorem contains_of_grow (hp : Locator.Sound scope.table path)
    (h : (scope.grow s Quark.root path).result = .ok q) :
    (scope.grow s Quark.root path).store.tree.contains q = true := by
  obtain ⟨ns, hns⟩ := exists_spells ht s path
  obtain ⟨names, hnames, hwalk⟩ :=
    ((hns.grow_root ht hs).result_eq_ok_iff q).mp h
  exact Tree.contains_of_walk? (Spelling.ne_nil_of_names? (hns.ne_nil ht hp.1) hnames) hwalk

end

end Scope

/-! ### State changes, events and runs -/

section

variable {scope : Scope} {s : Store} (ht : scope.table.check = .ok ()) (hs : s.Reachable)

include ht hs

theorem Assignment.Comes.leadsTo {a : Assignment} {result : Except ChangeError Unit}
    {after : Store} {tried : List Quark} (h : a.Comes scope s result after tried) :
    s.LeadsTo after := by
  have hgrown := Scope.leadsTo_grow ht hs a.target
  cases h with
  | done _ _ hm => exact hgrown.trans (Store.leadsTo_of_mutate hm)
  | _ => exact hgrown

theorem Change.leadsTo_apply (change : Change) : s.LeadsTo (change.apply scope s).store := by
  rw [apply_eq, performSelected]
  cases (change.select scope s).val with
  | none => exact .refl s
  | some a => exact (a.comes scope s).leadsTo ht hs

theorem Change.reachable_apply (change : Change) : (change.apply scope s).store.Reachable :=
  hs.leadsTo (change.leadsTo_apply ht hs)

theorem Job.leadsTo_after (jobs : List Job) : s.LeadsTo (after scope s jobs) := by
  induction jobs generalizing s with
  | nil => exact .refl s
  | cons job rest ih =>
      exact (job.change.leadsTo_apply ht hs).trans (ih (job.change.reachable_apply ht hs))

theorem Job.reachable_after (jobs : List Job) : (after scope s jobs).Reachable :=
  hs.leadsTo (leadsTo_after ht hs jobs)

end

namespace Schema

variable {schema : Schema} {s : Store} (h : schema.check = .ok ()) (hs : s.Reachable)

include h hs

theorem leadsTo_process (e : Event) : s.LeadsTo (schema.process s e).2 := by
  have ht : (⟨schema.table, e⟩ : Scope).table.check = .ok () := (check_eq_ok_iff.mp h).1
  rw [(schema.process_eq_jobs s e).1]
  exact Job.leadsTo_after ht hs _

theorem reachable_process (e : Event) : (schema.process s e).2.Reachable :=
  hs.leadsTo (leadsTo_process h hs e)

theorem leadsTo_run (events : List Event) : s.LeadsTo (schema.run s events).2 := by
  induction events generalizing s with
  | nil => exact .refl s
  | cons e rest ih => exact (leadsTo_process h hs e).trans (ih (reachable_process h hs e))

theorem reachable_run (events : List Event) : (schema.run s events).2.Reachable :=
  hs.leadsTo (leadsTo_run h hs events)

end Schema
end Chronicle
