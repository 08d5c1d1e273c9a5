import Chronicle.Proofs.Except
import Chronicle.Proofs.Schema.Search

/-!
# What the check of a table lets through

A locator is well-formed if nothing in it is empty and every location that it names is in the table
(`Locator.WellFormed`), and a table is if the paths of its locations are (`Table.WellFormed`). The
check lets a table through if and only if it is well-formed and has no location inside itself, and a
location that it tells of as inside itself is (`Table.CheckedExactly`).

A location that several others name, or that one path names twice, is not a loop for that: where
references only ever lead down, none is told of.
-/

namespace Chronicle

open Schema (Refusal Fault)
open Relation (ReflTransGen TransGen)

/-! ### Refusals one after another -/

section

variable {ε α : Type} {e : ε}

theorem bind_ne_error {x : Except ε Unit} {y : Except ε α} (hx : x ≠ .error e)
    (hy : y ≠ .error e) : (x >>= fun _ => y) ≠ .error e := by
  cases x with
  | error other => simpa [bind, Except.bind] using hx
  | ok u => exact hy

theorem forM_ne_error {f : α → Except ε Unit} {l : List α} (h : ∀ a ∈ l, f a ≠ .error e) :
    l.forM f ≠ .error e := fun hl => by
  obtain ⟨before, a, later, rfl, -, ha⟩ := forM_eq_error_iff.mp hl
  exact h a (by simp) ha

theorem refuseIf_ne_error {c : Bool} {f other : Fault} (h : f ≠ other) :
    refuseIf c f ≠ .error (.fault other) := by
  cases c <;> simp [refuseIf, h]

end

/-! ### Locators -/

namespace Locator

variable {t : Table} {l : Locator} {path : List Locator}

/-- Nothing in the locator is empty, and the locations that it names are in the table. -/
inductive WellFormed (t : Table) : Locator → Prop
  | constant {name : String} : name ≠ "" → WellFormed t (.constant name)
  | eventField {name : String} : name ≠ "" → WellFormed t (.eventField name)
  | query {path : List Locator} : path ≠ [] → (∀ l ∈ path, WellFormed t l) →
      WellFormed t (.query path)
  | location {name : String} : t.defines name = true → WellFormed t (.location name)

theorem checkEach_eq_forM : checkEach t path = path.forM (check t) := by
  induction path with
  | nil => rfl
  | cons l rest ih => rw [checkEach, List.forM, ih]

/-- The check lets the well-formed locators through. -/
theorem check_eq_ok_iff : l.check t = .ok () ↔ l.WellFormed t := by
  induction l using induction with
  | constant name =>
      rw [check, refuseIf_eq_ok_iff, String.isEmpty_eq_false_iff]
      constructor
      · exact .constant
      · rintro (h | _ | _ | _)
        exact h
  | eventField name =>
      rw [check, refuseIf_eq_ok_iff, String.isEmpty_eq_false_iff]
      constructor
      · exact .eventField
      · rintro (_ | h | _ | _)
        exact h
  | location name =>
      rw [check_location_iff]
      constructor
      · exact .location
      · rintro (_ | _ | _ | h)
        exact h
  | query path ih =>
      rw [check_query_iff, Sound, checkEach_eq_forM, check_forM_iff]
      constructor
      · rintro ⟨hpath, hall⟩
        exact .query hpath fun l hl => (ih l hl).mp (hall l hl)
      · rintro (_ | _ | ⟨hpath, hall⟩ | _)
        exact ⟨hpath, fun l hl => (ih l hl).mpr (hall l hl)⟩

/-- The check of a locator never tells of a loop. -/
theorem check_ne_loop (name : String) :
    l.check t ≠ .error (.fault (.locationInItself name)) := by
  induction l using induction with
  | constant _ => exact refuseIf_ne_error (by simp)
  | eventField _ => exact refuseIf_ne_error (by simp)
  | location other =>
      rw [check]
      split <;> simp
  | query path ih =>
      rw [check, checkEach_eq_forM]
      exact bind_ne_error (refuseIf_ne_error (by simp)) (forM_ne_error ih)

end Locator

/-! ### Tables -/

namespace Table

variable {t u : Table} {name : String}

/-- The paths of the locations are well-formed and none is empty. -/
def WellFormed (t : Table) : Prop :=
  ∀ l ∈ t.locations, l.path ≠ [] ∧ ∀ step ∈ l.path, step.WellFormed t

theorem checkLocation_eq_ok_iff {l : Location} : t.checkLocation l = .ok () ↔
    l.path ≠ [] ∧ ∀ step ∈ l.path, step.WellFormed t := by
  simp only [checkLocation, check_bind_iff, refuseIf_eq_ok_iff, List.isEmpty_eq_false_iff,
    Locator.checkEach_eq_forM, check_forM_iff, Locator.check_eq_ok_iff]

theorem checkLocation_ne_loop {l : Location} :
    t.checkLocation l ≠ .error (.fault (.locationInItself name)) := by
  rw [checkLocation, Locator.checkEach_eq_forM]
  exact bind_ne_error (refuseIf_ne_error (by simp))
    (forM_ne_error fun step _ => step.check_ne_loop name)

theorem forM_checkLocation_iff : t.locations.forM t.checkLocation = .ok () ↔ t.WellFormed := by
  simp only [check_forM_iff, checkLocation_eq_ok_iff, WellFormed]

theorem check_iff : t.check = .ok () ↔ t.WellFormed ∧ t.Acyclic := by
  rw [check_eq_ok_iff, forM_checkLocation_iff, loop?_eq_none_iff_acyclic]

/-- A loop is told of after the locations, by themselves, have passed. -/
theorem check_eq_loop_iff : t.check = .error (.fault (.locationInItself name)) ↔
    t.WellFormed ∧ t.loop? = some name := by
  rw [← forM_checkLocation_iff, check]
  cases hall : t.locations.forM t.checkLocation with
  | ok u => cases t.loop? <;> simp [bind, Except.bind]
  | error e =>
      have hne : e ≠ .fault (.locationInItself name) := by
        rintro rfl
        exact forM_ne_error (fun l _ => checkLocation_ne_loop) hall
      simpa [bind, Except.bind] using hne

/-- References that only ever lead down lead to no location from itself. -/
theorem acyclic_of_rank (rank : String → Nat)
    (hrank : ∀ name next, t.Refers name next → rank next < rank name) : t.Acyclic := by
  have hdown : ∀ name next, TransGen t.Refers name next → rank next < rank name := by
    intro name next h
    induction h with
    | single h => exact hrank _ _ h
    | tail _ h ih => exact (hrank _ _ h).trans ih
  exact fun name h => Nat.lt_irrefl _ (hdown name name h)

/-- A table has no loops if and only if the search is done from each location. -/
theorem forall_visits_iff_acyclic :
    (∀ l ∈ t.locations, t.Visits ∅ [l.name] (.ok ∅)) ↔ t.Acyclic := by
  simp only [visits_ok_iff]
  constructor
  · intro h name hname
    obtain ⟨next, hnext, -⟩ := TransGen.head'_iff.mp hname
    obtain ⟨l, hl, rfl⟩ := List.mem_map.mp (mem_names_iff.mpr hnext.defines)
    exact h l hl hname.loops
  · rintro h l - ⟨inner, -, hinner⟩
    exact h inner hinner

/-- A search that comes back tells of a location inside itself. -/
theorem inItself_of_visits {again : String} (h : t.Visits ∅ [name] (.error again)) :
    t.InItself again := by
  obtain ⟨other, -, -, hopen⟩ := h.reaches_of_error _ rfl
  exact hopen.resolve_left (Finset.notMem_empty _)

/-- What the check of a table finds.

* It lets through what is well-formed and has no location inside itself.
* It tells of a loop if and only if the table is well-formed but for one, and the location that it
  tells of is inside itself.
* It tells of none where references only lead down, however often they lead to one location.
* Its verdict is the same in whatever order the locations stand.
* A search with any locations open comes to one end, in every table. It is done from each location
  if and only if none is inside itself, and where it comes back it tells of one that is. -/
structure CheckedExactly (t : Table) : Prop where
  ok_iff : t.check = .ok () ↔ t.WellFormed ∧ t.Acyclic
  told_iff : (∃ name, t.check = .error (.fault (.locationInItself name))) ↔
    t.WellFormed ∧ ¬t.Acyclic
  told : ∀ name, t.check = .error (.fault (.locationInItself name)) → t.InItself name
  shared : ∀ rank : String → Nat, (∀ name next, t.Refers name next → rank next < rank name) →
    ∀ name, t.check ≠ .error (.fault (.locationInItself name))
  order : ∀ u : Table, u.locations.Perm t.locations → (u.check = .ok () ↔ t.check = .ok ())
  search_ends : ∀ opened names, ∃! result, t.Visits opened names result
  search_done_iff : (∀ l ∈ t.locations, t.Visits ∅ [l.name] (.ok ∅)) ↔ t.Acyclic
  search_told : ∀ name again, t.Visits ∅ [name] (.error again) → t.InItself again

/-- **The check of a table lets through exactly what is well-formed and has no loops**, loops it
tells of are there, and a search for them comes to an end. -/
theorem checked_exactly (t : Table) : t.CheckedExactly where
  ok_iff := check_iff
  told_iff := by
    simp only [check_eq_loop_iff, exists_and_left, ← loop?_eq_none_iff_acyclic,
      ← Option.isSome_iff_exists, Option.isSome_iff_ne_none, ne_eq]
  told _ h := inItself_of_loop? (check_eq_loop_iff.mp h).2
  shared rank hrank _ h :=
    acyclic_of_rank rank hrank _ (inItself_of_loop? (check_eq_loop_iff.mp h).2)
  order _ h := ⟨check_of_perm h.symm, check_of_perm h⟩
  search_ends opened names := by
    obtain ⟨result, h⟩ := t.exists_visits opened names
    exact ⟨result, h, fun _ h' => h'.unique h⟩
  search_done_iff := forall_visits_iff_acyclic
  search_told _ _ := inItself_of_visits

/-- One location that two others name, and that the one at the top names twice over. -/
example : (ofList [⟨"top", [.location "left", .query [.location "right"]]⟩,
    ⟨"left", [.location "shared"]⟩, ⟨"right", [.location "shared", .location "shared"]⟩,
    ⟨"shared", [.constant "threads"]⟩]).check = .ok () := by
  rfl

end Table
end Chronicle
