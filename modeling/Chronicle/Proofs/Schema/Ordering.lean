import Chronicle.Proofs.Schema.Sound

/-!
# Locations in any order

A location is found by its name, and no two have the same name, so it is of no account in which
order the locations of a table stand: the same are defined, they are settled in the same rounds, and
the check lets the table through in any order (`Table.check_of_perm`). What else is checked knows a
table by what it defines (`Handler.check_congr`).

A table is made of its locations (`Table.ofList_locations`), and one that is made of a list has
locations of the list only (`Table.mem_of_mem_ofList`).
-/

namespace Chronicle

/-! ### What is found and what is settled -/

namespace Table

variable {t u : Table}

theorem find?_eq_some_iff {name : String} {l : Location} :
    t.find? name = some l ↔ l ∈ t.locations ∧ l.name = name := by
  constructor
  · exact fun h => ⟨List.mem_of_find?_eq_some h, by simpa using List.find?_some h⟩
  · rintro ⟨hl, rfl⟩
    exact find?_of_mem t.distinct hl

/-- Locations are found in whatever order they stand. -/
theorem find?_of_perm (h : u.locations.Perm t.locations) (name : String) :
    u.find? name = t.find? name := by
  ext l
  rw [find?_eq_some_iff, find?_eq_some_iff, h.mem_iff]

theorem defines_of_perm (h : u.locations.Perm t.locations) (name : String) :
    u.defines name = t.defines name := by
  rw [defines, find?_of_perm h, defines]

/-- Locations are settled in the same rounds in whatever order they stand. -/
theorem mem_settled_of_perm (h : u.locations.Perm t.locations) (n : Nat) (name : String) :
    name ∈ u.settled n ↔ name ∈ t.settled n := by
  induction n generalizing name with
  | zero => rfl
  | succ n ih =>
      have hbefore : ∀ r, (u.settled n).contains r = (t.settled n).contains r := fun r => by
        rw [Bool.eq_iff_iff, List.contains_iff_mem, List.contains_iff_mem, ih]
      simp only [settled, List.mem_map, List.mem_filter, h.mem_iff, hbefore, defines_of_perm h]

end Table

/-! ### Checks know a table by what it defines -/

section

variable {t u : Table}

theorem Locator.checkEach_congr_of_mem {path : List Locator}
    (h : ∀ l ∈ path, l.check u = l.check t) : checkEach u path = checkEach t path := by
  induction path with
  | nil => rfl
  | cons l rest ih =>
      obtain ⟨hl, hrest⟩ := List.forall_mem_cons.mp h
      rw [checkEach, checkEach, hl, ih hrest]

theorem Condition.checkEach_congr_of_mem {cs : List Condition}
    (h : ∀ c ∈ cs, c.check u = c.check t) : checkEach u cs = checkEach t cs := by
  induction cs with
  | nil => rfl
  | cons c rest ih =>
      obtain ⟨hc, hrest⟩ := List.forall_mem_cons.mp h
      rw [checkEach, checkEach, hc, ih hrest]

variable (h : ∀ name, u.defines name = t.defines name)

include h

theorem Locator.check_congr (l : Locator) : l.check u = l.check t := by
  induction l using Locator.induction with
  | constant name => rfl
  | eventField name => rfl
  | location name => rw [check, check, h]
  | query path ih => rw [check, check, checkEach_congr_of_mem ih]

theorem Locator.checkEach_congr (path : List Locator) : checkEach u path = checkEach t path :=
  checkEach_congr_of_mem fun l _ => l.check_congr h

theorem Term.check_congr (m : Term) : m.check u = m.check t := by
  obtain ⟨source, increment, stack⟩ := m
  cases source with
  | query path => simp only [check, Locator.checkEach_congr h]
  | _ => rfl

theorem Operand.check_congr (o : Operand) : o.check u = o.check t := by
  rcases o with path | m
  · rw [check, check, Locator.checkEach_congr h]
  · rw [check, check, Term.check_congr h]

theorem Condition.check_congr (c : Condition) : c.check u = c.check t := by
  induction c using Condition.induction with
  | leaf operand expected =>
      rw [check, check, Operand.check_congr h, Term.check_congr h]
  | not c ih => rw [check, check, ih]
  | all cs ih => rw [check, check, checkEach_congr_of_mem ih]
  | any cs ih => rw [check, check, checkEach_congr_of_mem ih]

theorem Change.check_congr (change : Change) : change.check u = change.check t := by
  induction change using Change.induction with
  | assign path m => rw [check, check, Locator.checkEach_congr h, Term.check_congr h]
  | conditional c yes no ihyes ihno =>
      have hbranch : ∀ branch : Option Change,
          (∀ change ∈ branch, change.check u = change.check t) →
            checkBranch u branch = checkBranch t branch := by
        intro branch hb
        cases branch with
        | none => rfl
        | some change => exact hb change rfl
      rw [check, check, Condition.check_congr h, hbranch yes ihyes, hbranch no ihno]

theorem Handler.check_congr (handler : Handler) : handler.check u = handler.check t := by
  have hchanges : Change.check u = Change.check t := funext (Change.check_congr h)
  rw [check, check, hchanges]

end

/-- A table is sound in whatever order its locations stand. -/
theorem Table.check_of_perm {t u : Table} (h : u.locations.Perm t.locations)
    (ht : t.check = .ok ()) : u.check = .ok () := by
  obtain ⟨hlocations, hloop⟩ := check_eq_ok_iff.mp ht
  have hsize : u.size = t.size := h.length_eq
  rw [check_eq_ok_iff, check_forM_iff, loop?_eq_none_iff]
  refine ⟨fun l hl => ?_, fun l hl => ?_⟩
  · rw [checkLocation, Locator.checkEach_congr (defines_of_perm h)]
    exact check_forM_iff.mp hlocations l (h.mem_iff.mp hl)
  · rw [hsize, mem_settled_of_perm h]
    exact loop?_eq_none_iff.mp hloop l (h.mem_iff.mp hl)

/-! ### Tables as lists of locations -/

namespace Table

theorem place_of_not_mem {l : Location} {ls : List Location} (h : l.name ∉ ls.map Location.name) :
    place l ls = ls ++ [l] := by
  induction ls with
  | nil => rfl
  | cons m rest ih =>
      rw [List.map_cons, List.mem_cons, not_or] at h
      rw [place, if_neg (Ne.symm h.1), ih h.2, List.cons_append]

theorem mem_of_mem_place {l m : Location} {ls : List Location} (h : l ∈ place m ls) :
    l = m ∨ l ∈ ls := by
  induction ls with
  | nil => exact .inl (List.mem_singleton.mp h)
  | cons k rest ih =>
      rw [place] at h
      split at h
      · rcases List.mem_cons.mp h with rfl | h
        · exact .inl rfl
        · exact .inr (List.mem_cons_of_mem _ h)
      · rcases List.mem_cons.mp h with rfl | h
        · exact .inr List.mem_cons_self
        · exact (ih h).imp_right (List.mem_cons_of_mem _)

theorem mem_of_mem_foldl {ls : List Location} {t : Table} {l : Location}
    (h : l ∈ (ls.foldl insert t).locations) : l ∈ t.locations ∨ l ∈ ls := by
  induction ls generalizing t with
  | nil => exact .inl h
  | cons m rest ih =>
      rcases ih h with h | h
      · rcases mem_of_mem_place h with rfl | h
        · exact .inr List.mem_cons_self
        · exact .inl h
      · exact .inr (List.mem_cons_of_mem _ h)

/-- The locations of a table that is made of a list are from the list. -/
theorem mem_of_mem_ofList {ls : List Location} {l : Location} (h : l ∈ (ofList ls).locations) :
    l ∈ ls :=
  (mem_of_mem_foldl h).resolve_left List.not_mem_nil

theorem locations_foldl {ls : List Location} {t : Table}
    (h : ((t.locations ++ ls).map Location.name).Nodup) :
    (ls.foldl insert t).locations = t.locations ++ ls := by
  induction ls generalizing t with
  | nil => exact (List.append_nil _).symm
  | cons l rest ih =>
      have hl : l.name ∉ t.locations.map Location.name := by
        rw [List.map_append, List.nodup_append] at h
        exact fun hl => h.2.2 l.name hl l.name List.mem_cons_self rfl
      have hinsert : (t.insert l).locations = t.locations ++ [l] := place_of_not_mem hl
      rw [List.foldl_cons, ih (by rwa [hinsert, List.append_assoc]), hinsert, List.append_assoc]
      rfl

theorem ext {t u : Table} (h : t.locations = u.locations) : t = u := by
  cases t
  cases u
  cases h
  rfl

/-- A table is made of its locations. -/
theorem ofList_locations (t : Table) : ofList t.locations = t :=
  ext (locations_foldl (t := {}) t.distinct)

end Table

end Chronicle
