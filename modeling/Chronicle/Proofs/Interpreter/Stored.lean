import Chronicle.Proofs.Interpreter.Causes
import Chronicle.Proofs.Interpreter.Footprint

/-!
# Fields that are stored and queried

An event field names an attribute in two ways: as a locator it is rendered at once, while a query
renders what is held at a path. If the field was stored at that path, the two agree
(`Change.names_of_stored`).

The path is `Plain`: nothing is queried on the way, so where it leads does not hang on what is
stored. So what an assignment sets is read back at its target
(`Change.valueAt_of_assign`), and a query of the target spells the name of what was set. That the
value of a field and the field itself give one name is `Event.segment?_value`, and paths that spell
the same names come to the same (`Scope.Spells.meet`).
-/

namespace Chronicle

/-! ### Plain paths -/

namespace Table

/-- Nothing is queried while the path is resolved, and so not in the paths of its locations. -/
def Plain (t : Table) (path : List Locator) : Prop :=
  ∀ inner, ¬t.Queries inner path

variable {t : Table} {l : Locator} {path rest : List Locator}

theorem Queries.cons {inner : List Locator} (h : t.Queries inner rest) :
    t.Queries inner (l :: rest) := by
  cases h with
  | here hmem => exact .here (List.mem_cons_of_mem l hmem)
  | query hmem hinner => exact .query (List.mem_cons_of_mem l hmem) hinner
  | location hmem hpath hinner => exact .location (List.mem_cons_of_mem l hmem) hpath hinner

theorem plain_nil : t.Plain [] := by
  intro inner h
  cases h with
  | here hmem => cases hmem
  | query hmem _ => cases hmem
  | location hmem _ _ => cases hmem

/-- A path is plain if it goes on plainly after a locator that is no query, and that expands to a
plain path if it is a location. -/
theorem plain_cons_iff : t.Plain (l :: rest) ↔ (∀ p, l ≠ .query p) ∧
    (∀ name p, l = .location name → t.path? name = some p → t.Plain p) ∧ t.Plain rest := by
  constructor
  · intro h
    refine ⟨?_, ?_, fun inner hq => h inner hq.cons⟩
    · rintro p rfl
      exact h p (.here List.mem_cons_self)
    · rintro name p rfl hp inner hq
      exact h inner (.location List.mem_cons_self hp hq)
  · rintro ⟨hquery, hlocation, hrest⟩ inner h
    cases h with
    | here hmem =>
        rcases List.mem_cons.mp hmem with rfl | hmem
        · exact hquery _ rfl
        · exact hrest _ (.here hmem)
    | query hmem hinner =>
        rcases List.mem_cons.mp hmem with rfl | hmem
        · exact hquery _ rfl
        · exact hrest _ (.query hmem hinner)
    | location hmem hpath hinner =>
        rcases List.mem_cons.mp hmem with rfl | hmem
        · exact hlocation _ _ rfl hpath _ hinner
        · exact hrest _ (.location hmem hpath hinner)

end Table

namespace Scope

variable {scope : Scope} {s : Store} {path other : List Locator} {ns : Spelling}

/-- **A plain path spells the same names in every store.** -/
theorem Spells.of_plain (h : scope.Spells s path ns) (hplain : scope.table.Plain path)
    (s' : Store) : scope.Spells s' path ns := by
  induction h with
  | nil => exact .nil
  | constant _ ih => exact .constant (ih (Table.plain_cons_iff.mp hplain).2.2)
  | eventField _ ih => exact .eventField (ih (Table.plain_cons_iff.mp hplain).2.2)
  | query _ _ _ _ => exact absurd rfl ((Table.plain_cons_iff.mp hplain).1 _)
  | location hp _ _ ihp ih =>
      obtain ⟨-, hlocation, hrest⟩ := Table.plain_cons_iff.mp hplain
      exact .location hp (ihp (hlocation _ _ rfl hp)) (ih hrest)
  | unknown hp _ ih => exact .unknown hp (ih (Table.plain_cons_iff.mp hplain).2.2)

/-! ### Paths that come to the same -/

/-- Two paths come to the same from `q` on: what is found, what is grown, and the store that growing
leaves. -/
structure Meet (scope : Scope) (s : Store) (q : Quark) (path other : List Locator) : Prop where
  find : (scope.find s q path).val = (scope.find s q other).val
  grow : (scope.grow s q path).result = (scope.grow s q other).result
  store : (scope.grow s q path).store = (scope.grow s q other).store

/-- A path comes to nothing from `q` on, and nothing is created on the way. -/
structure Fails (scope : Scope) (s : Store) (q : Quark) (path : List Locator) : Prop where
  find : (scope.find s q path).val = .error .absent
  grow : (scope.grow s q path).result = .error .absent
  store : (scope.grow s q path).store = s

section

variable (ht : scope.table.check = .ok ()) (hs : s.Reachable) {q : Quark}
  (hq : q = Quark.root ∨ s.tree.contains q = true)

include ht hs hq

/-- Paths that spell the same names come to the same. -/
theorem Spells.meet (h : scope.Spells s path ns) (hother : scope.Spells s other ns) :
    scope.Meet s q path other := by
  have hf := h.grow_follows ht hs hs (.refl s) hq
  have hf' := hother.grow_follows ht hs hs (.refl s) hq
  refine ⟨(h.val_find ht q).trans (hother.val_find ht q).symm, ?_, hf.store.trans hf'.store.symm⟩
  cases hn : ns.names? with
  | none => rw [hf.error hn, hf'.error hn]
  | some names => rw [hf.ok names hn, hf'.ok names hn]

/-- A path whose first name is undefined comes to nothing. -/
theorem Spells.fails (h : scope.Spells s path (none :: ns)) : scope.Fails s q path := by
  have hf := h.grow_follows ht hs hs (.refl s) hq
  refine ⟨h.val_find ht q, hf.error rfl, ?_⟩
  rw [hf.store]
  exact Store.withTree_self hs.tracks_size

end

end Scope

/-! ### What is stored is read back -/

namespace Store

variable {s after : Store} {q : Quark} {t : Int64} {v : Value}

theorem tree_of_mutate {m : Mutation} (h : s.mutate q t m = .ok after) : after.tree = s.tree := by
  rw [(mutate_eq_ok_iff.mp h).2, perform_tree]

/-- An attribute holds what it was set to. -/
theorem ongoing_of_mutate_set (hs : s.tracks.size = s.tree.size)
    (h : s.mutate q t (.set v) = .ok after) : after.ongoing q = v := by
  obtain ⟨haccepts, rfl⟩ := mutate_eq_ok_iff.mp h
  rw [ongoing, track_perform hs haccepts.contains, if_pos (Mutation.self_mem_reach ..)]
  rfl

end Store

/-- Sets the attribute at a path to the value of a source. -/
def Change.setting (path : List Locator) (source : Source) : Change :=
  .assign path ⟨source, false, .none⟩

/-- A term that sets asks to set the value of its source. -/
theorem Term.exists_set_of_mutation? {scope : Scope} {s : Store} {q : Quark} {source : Source}
    {asked : Option Mutation} (hsource : source.isDelete = false)
    (h : ((⟨source, false, .none⟩ : Term).mutation? scope s q).val = .ok asked) :
    ∃ v, (source.evaluate scope s).val = .ok v ∧ asked = some (.set v) := by
  rw [Term.val_mutation?] at h
  simp only [hsource, Bool.false_eq_true, if_false] at h
  split at h
  · cases h
  · next v hv => exact ⟨v, hv, (Except.ok.inj h).symm⟩

section

variable {scope : Scope} {s : Store} (ht : scope.table.check = .ok ()) (hs : s.Reachable)
  {path : List Locator} (hplain : scope.table.Plain path) {source : Source}
  (hsource : source.isDelete = false)

include ht hs hplain hsource

theorem Assignment.Comes.valueAt {after : Store} {tried : List Quark}
    (h : Comes scope s ⟨path, ⟨source, false, .none⟩⟩ (.ok ()) after tried) :
    ∃ v, (source.evaluate scope (scope.grow s Quark.root path).store).val = .ok v ∧
      (scope.valueAt after path).val = some v := by
  obtain ⟨ns, hns⟩ := Scope.exists_spells ht s path
  cases h with
  | looked _ hm =>
      obtain ⟨v, -, hasked⟩ := Term.exists_set_of_mutation? hsource hm
      cases hasked
  | @done q m after hq hm hdone =>
      obtain ⟨v, hv, hasked⟩ := Term.exists_set_of_mutation? hsource hm
      obtain rfl := Option.some.inj hasked
      obtain ⟨names, hnames, hwalk⟩ := ((hns.grow_root ht hs).result_eq_ok_iff q).mp hq
      -- the target is where it was, since only its track has changed
      have hled : after.led? Quark.root ns = some q := by
        rw [Store.led?, hnames, Store.tree_of_mutate hdone]
        exact hwalk
      have hheld := Store.ongoing_of_mutate_set (Scope.reachable_grow ht hs path).tracks_size hdone
      refine ⟨v, hv, ?_⟩
      rw [(hns.of_plain hplain after).val_valueAt_eq ht, hled, Option.map_some, hheld]

/-- **What an assignment sets is read back at its target,** if the target is plain. -/
theorem Change.valueAt_of_assign
    (h : ((setting path source).apply scope s).failures = .ok ()) :
    ∃ v, (source.evaluate scope (scope.grow s Quark.root path).store).val = .ok v ∧
      (scope.valueAt ((setting path source).apply scope s).store path).val = some v := by
  let a : Assignment := ⟨path, ⟨source, false, .none⟩⟩
  have hselect : ((setting path source).select scope s).val = some a := rfl
  obtain ⟨hfailures, hstore, -⟩ := apply_of_select hselect
  have hcomes := a.comes scope s
  rw [← hfailures, h, ← hstore] at hcomes
  exact hcomes.valueAt ht hs hplain hsource

end

/-! ### Fields -/

/-- A query of `path` and the event field `field` name the same attribute.

* `meet`: from the root and from every attribute they come to the same, found or grown.
* `grown`: if the event has the field, growing comes to the child that is called what the field is
  rendered to.
* `fails`: if the event has no such field, or no source for `cpu`, both come to nothing. -/
structure Scope.NamesField (scope : Scope) (s : Store) (path : List Locator) (field : String) :
    Prop where
  meet : ∀ q, q = Quark.root ∨ s.tree.contains q = true →
    scope.Meet s q [.query path] [.eventField field]
  grown : ∀ f, scope.event.reading? field = some f →
    ∀ q, q = Quark.root ∨ s.tree.contains q = true →
      ∃ c, (scope.grow s q [.query path]).result = .ok c ∧
        (scope.grow s q [.query path]).store.tree.child? q f.render = some c
  fails : scope.event.reading? field = none → ∀ q, q = Quark.root ∨ s.tree.contains q = true →
    scope.Fails s q [.query path] ∧ scope.Fails s q [.eventField field]

namespace Scope

variable {scope : Scope} {s : Store} {path : List Locator} {field : String}

/-- If the value of the field is held at the path, a query of the path spells the field. -/
theorem spells_query_of_valueAt (ht : scope.table.check = .ok ())
    (h : (scope.valueAt s path).val = some (scope.event.value field)) :
    scope.Spells s [.query path] [scope.event.segment? field] := by
  obtain ⟨ms, hms⟩ := exists_spells ht s path
  have hname : s.nameAt? ms = scope.event.segment? field := by
    rw [← hms.val_valueAt ht, h, Option.bind_some, Event.segment?_value]
  rw [← hname]
  exact .query hms .nil

theorem namesField_of_valueAt (ht : scope.table.check = .ok ()) (hs : s.Reachable)
    (h : (scope.valueAt s path).val = some (scope.event.value field)) :
    scope.NamesField s path field := by
  have hquery := spells_query_of_valueAt ht h
  have hfield : scope.Spells s [.eventField field] [scope.event.segment? field] :=
    .eventField .nil
  refine ⟨fun q hq => hquery.meet ht hs hq hfield, fun f hf q hq => ?_, fun hnone q hq => ?_⟩
  · have hsegment : scope.event.segment? field = some f.render := by
      rw [Event.segment?, hf, Option.map_some]
    rw [hsegment] at hquery
    have hfollows := hquery.grow_follows ht hs hs (.refl s) hq
    obtain ⟨c, hc⟩ := hfollows.exists_ok_iff.mpr rfl
    obtain ⟨names, hnames, hwalk⟩ := (hfollows.result_eq_ok_iff c).mp hc
    obtain rfl := Option.some.inj hnames
    refine ⟨c, hc, ?_⟩
    simpa only [Tree.walk?, Option.bind_fun_some] using hwalk
  · have hsegment : scope.event.segment? field = none := by
      rw [Event.segment?, hnone, Option.map_none]
    rw [hsegment] at hquery hfield
    exact ⟨hquery.fails ht hs hq, hfield.fails ht hs hq⟩

end Scope

/-- **A field that was stored at a plain path is named by a query of that path.** Whatever the event
has under the name, if the assignment is accepted then a query of its target and the field itself
lead to the same attribute and leave the same store, and both fail if there is nothing to read. -/
theorem Change.names_of_stored {scope : Scope} {s : Store} (ht : scope.table.check = .ok ())
    (hs : s.Reachable) {path : List Locator} (hplain : scope.table.Plain path) {field : String}
    (h : ((setting path (.eventField field none)).apply scope s).failures = .ok ()) :
    scope.NamesField ((setting path (.eventField field none)).apply scope s).store path field := by
  obtain ⟨v, hv, hread⟩ := valueAt_of_assign ht hs hplain rfl h
  rw [Source.val_evaluate_eventField] at hv
  obtain rfl := Except.ok.inj hv
  exact Scope.namesField_of_valueAt ht (reachable_apply ht hs _) hread

/-- The event has a field that is called `cpu`, too. What is stored is its source, and that is what
both are named after. -/
theorem Change.names_of_stored_of_shadowed :
    let scope : Scope := {
      table := .ofList [⟨"Home", [.constant "CPUs", .eventField "cpu", .constant "Home"]⟩]
      event :=
        { name := "tick", timestamp := 20, source := some 1, fields := [("cpu", .text "9")] } }
    let s := ({} : Store).callEach [.create .root "CPUs", .create 0 "9", .create 0 "1"]
    let path : List Locator := [.location "Home"]
    let stored := (setting path (.eventField "cpu" none)).apply scope s
    scope.table.check = .ok () ∧ s.Reachable ∧ scope.table.Plain path ∧ stored.failures = .ok () ∧
      scope.NamesField stored.store path "cpu" ∧
      (scope.find stored.store 0 [.query path]).val.toOption = some 2 := by
  intro scope s path stored
  have ht : scope.table.check = .ok () := rfl
  have hs : s.Reachable := Store.Reachable.empty.callEach _
  have hplain : scope.table.Plain path := by
    refine Table.plain_cons_iff.mpr ⟨nofun, ?_, Table.plain_nil⟩
    rintro _ _ ⟨⟩ ⟨⟩
    exact Table.plain_cons_iff.mpr ⟨nofun, nofun, Table.plain_cons_iff.mpr ⟨nofun, nofun,
      Table.plain_cons_iff.mpr ⟨nofun, nofun, Table.plain_nil⟩⟩⟩
  have hok : stored.failures = .ok () := by
    have hdone : stored.failures.toOption = some () := by decide +kernel
    cases hf : stored.failures with
    | ok u => rfl
    | error e =>
        rw [hf] at hdone
        cases hdone
  exact ⟨ht, hs, hplain, hok, names_of_stored ht hs hplain hok, by decide +kernel⟩

end Chronicle
