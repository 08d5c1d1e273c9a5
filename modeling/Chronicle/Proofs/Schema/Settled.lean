import Chronicle.Schema.Check

/-!
# Induction over the locations of a sound table

In a table that has passed its check every location is settled, that is, its path names only
undefined locations and locations that were settled in an earlier round. So a property of all paths
can be proved by induction on their locators, where a path that names a location may use the
property of that location's path (`Table.path_induction`).
-/

namespace Chronicle

namespace Locator

/-- Induction over a path and the paths of the queries in it. -/
theorem path_induction {P : List Locator → Prop} (nil : P [])
    (constant : ∀ name rest, P rest → P (.constant name :: rest))
    (eventField : ∀ name rest, P rest → P (.eventField name :: rest))
    (query : ∀ path rest, P path → P rest → P (.query path :: rest))
    (location : ∀ name rest, P rest → P (.location name :: rest)) : ∀ path, P path
  | [] => nil
  | .constant name :: rest =>
      constant name rest (path_induction nil constant eventField query location rest)
  | .eventField name :: rest =>
      eventField name rest (path_induction nil constant eventField query location rest)
  | .query path :: rest =>
      query path rest (path_induction nil constant eventField query location path)
        (path_induction nil constant eventField query location rest)
  | .location name :: rest =>
      location name rest (path_induction nil constant eventField query location rest)

end Locator

namespace Table

variable {t : Table}

theorem mem_of_path? {name : String} {path : List Locator} (h : t.path? name = some path) :
    ∃ l ∈ t.locations, l.name = name ∧ l.path = path := by
  obtain ⟨l, hl, rfl⟩ := Option.map_eq_some_iff.mp h
  exact ⟨l, List.mem_of_find?_eq_some hl, by simpa using List.find?_some hl, rfl⟩

theorem find?_of_mem {ls : List Location} (hn : (ls.map Location.name).Nodup) {l : Location}
    (h : l ∈ ls) : ls.find? (fun m => m.name == l.name) = some l := by
  induction ls with
  | nil => cases h
  | cons m rest ih =>
      obtain ⟨hm, hn⟩ := List.nodup_cons.mp hn
      rcases List.mem_cons.mp h with rfl | h
      · simp
      · have hne : m.name ≠ l.name := fun e => hm (e ▸ List.mem_map_of_mem h)
        rw [List.find?_cons_of_neg (by simpa using hne)]
        exact ih hn h

/-- A location is found under its name, since no other has that name. -/
theorem path?_of_mem {l : Location} (h : l ∈ t.locations) : t.path? l.name = some l.path := by
  rw [path?, find?, find?_of_mem t.distinct h]
  rfl

theorem defines_iff {name : String} : t.defines name = true ↔ ∃ path, t.path? name = some path := by
  unfold defines path?
  cases t.find? name <;> simp

theorem defines_eq_false_iff {name : String} : t.defines name = false ↔ t.path? name = none := by
  unfold defines path?
  cases t.find? name <;> simp

/-- A location that is settled names what was settled before. -/
theorem mem_settled_of_reference {n : Nat} {name r : String} {path : List Locator}
    (h : name ∈ t.settled (n + 1)) (hp : t.path? name = some path)
    (hr : r ∈ Locator.referencesEach path) (hd : t.defines r = true) : r ∈ t.settled n := by
  obtain ⟨l, hl, rfl⟩ := List.mem_map.mp h
  obtain ⟨hmem, hall⟩ := List.mem_filter.mp hl
  obtain rfl := Option.some.inj ((path?_of_mem hmem).symm.trans hp)
  have hone := List.all_eq_true.mp hall r hr
  simpa [hd] using hone

theorem loop?_eq_none_iff :
    t.loop? = none ↔ ∀ l ∈ t.locations, l.name ∈ t.settled t.size := by
  rw [loop?, Option.map_eq_none_iff, List.head?_eq_none_iff, unsettled]
  simp [List.filter_eq_nil_iff]

theorem check_eq_ok_iff :
    t.check = .ok () ↔ t.locations.forM t.checkLocation = .ok () ∧ t.loop? = none := by
  unfold check
  cases t.locations.forM t.checkLocation with
  | error e => exact ⟨nofun, nofun⟩
  | ok u => cases t.loop? <;> simp [bind, Except.bind]

/-- No location of the table is inside itself. -/
theorem mem_settled_of_check (h : t.check = .ok ()) {name : String} (hd : t.defines name = true) :
    name ∈ t.settled t.size := by
  obtain ⟨path, hp⟩ := defines_iff.mp hd
  obtain ⟨l, hl, rfl, -⟩ := mem_of_path? hp
  exact loop?_eq_none_iff.mp (check_eq_ok_iff.mp h).2 l hl

section

variable {P : List Locator → Prop}
variable (nil : P [])
variable (constant : ∀ name rest, P rest → P (.constant name :: rest))
variable (eventField : ∀ name rest, P rest → P (.eventField name :: rest))
variable (query : ∀ path rest, P path → P rest → P (.query path :: rest))
variable (location : ∀ name rest, (∀ path, t.path? name = some path → P path) → P rest →
  P (.location name :: rest))

include nil constant eventField query location

/-- A property of the paths of the locations that a path names holds of the path. -/
theorem of_references (path : List Locator) :
    (∀ name ∈ Locator.referencesEach path, ∀ p, t.path? name = some p → P p) → P path := by
  induction path using Locator.path_induction with
  | nil => exact fun _ => nil
  | constant name rest ih => exact fun h => constant name rest (ih h)
  | eventField name rest ih => exact fun h => eventField name rest (ih h)
  | query path rest ihp ih =>
      exact fun h => query path rest (ihp fun n hn => h n (List.mem_append_left _ hn))
        (ih fun n hn => h n (List.mem_append_right _ hn))
  | location name rest ih =>
      exact fun h => location name rest (h name (List.mem_append_left _ List.mem_cons_self))
        (ih fun n hn => h n (List.mem_append_right _ hn))

/-- **Induction over the paths of a sound table.** What holds of a path if it holds of the rest of
the path, of the queries in it and of the paths of the locations that it names, holds of all
paths. -/
theorem path_induction (h : t.check = .ok ()) (path : List Locator) : P path := by
  have hsettled : ∀ n, ∀ name ∈ t.settled n, ∀ p, t.path? name = some p → P p := by
    intro n
    induction n with
    | zero => intro name hname; cases hname
    | succ n ih =>
        intro name hname p hp
        refine of_references nil constant eventField query location p fun r hr q hq => ?_
        exact ih r (mem_settled_of_reference hname hp hr (defines_iff.mpr ⟨q, hq⟩)) q hq
  refine of_references nil constant eventField query location path fun r _ q hq => ?_
  exact hsettled t.size r (mem_settled_of_check h (defines_iff.mpr ⟨q, hq⟩)) q hq

end

end Table
end Chronicle
