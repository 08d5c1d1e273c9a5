import Chronicle.Proofs.Schema.Loops
import Chronicle.Proofs.Schema.Ordering

/-!
# The check for loops as a search

Loops can be looked for depth first. To visit a location is to visit, while it is open, those that
its path names, one after another, and a visit to one that is open has come back to it
(`Table.Visits`). What has been visited is not marked, so a location that is reached in two ways is
visited twice.

* Every visit comes to an end, in a table with cycles too, as one opens one more location of the
  table (`Table.exists_visits`), and to one end only (`Table.Visits.unique`).
* A visit that is done leaves open what was open (`Table.Visits.eq_of_ok`).
* A visit that comes back has come to a location inside itself, unless to one that was open from
  the start (`Table.Visits.reaches_of_error`), and one that is done has passed none
  (`Table.Visits.not_mem_of_ok`).

So the search comes back from some location if and only if there is a cycle, as the check in rounds
does, and `Table.checked_exactly` says what the check lets through.
-/

namespace Chronicle

open Relation (ReflTransGen TransGen)

namespace Table

/-! ### Visiting -/

/-- Visits to locations one after another, while some are open: either one comes back to a location
that is open, or all are done and the open ones are told. -/
inductive Visits (t : Table) : Finset String → List String → Except String (Finset String) → Prop
  | nil {opened : Finset String} : Visits t opened [] (.ok opened)
  | back {opened : Finset String} {name : String} {rest : List String} : name ∈ opened →
      Visits t opened (name :: rest) (.error name)
  | within {opened : Finset String} {name again : String} {rest : List String} : name ∉ opened →
      Visits t (Insert.insert name opened) (t.references name) (.error again) →
        Visits t opened (name :: rest) (.error again)
  | done {opened between : Finset String} {name : String} {rest : List String}
      {result : Except String (Finset String)} : name ∉ opened →
      Visits t (Insert.insert name opened) (t.references name) (.ok between) →
      Visits t (between.erase name) rest result →
        Visits t opened (name :: rest) result

variable {t : Table} {opened : Finset String} {names : List String}

/-- A visit that is done closes what it has opened. -/
theorem Visits.eq_of_ok {result : Except String (Finset String)}
    (h : t.Visits opened names result) : ∀ after, result = .ok after → after = opened := by
  induction h with
  | nil => rintro _ ⟨rfl⟩; rfl
  | back _ => exact nofun
  | within _ _ _ => exact nofun
  | done hnot _ _ ih ihrest =>
      intro after hafter
      rw [ihrest after hafter, ih _ rfl, Finset.erase_insert hnot]

/-- Visits that are done have come to nothing that was open and to no location inside itself. -/
theorem Visits.not_mem_of_ok {result : Except String (Finset String)}
    (h : t.Visits opened names result) : ∀ after, result = .ok after →
      ∀ name ∈ names, ∀ other, ReflTransGen t.Refers name other →
        other ∉ opened ∧ ¬t.InItself other := by
  induction h with
  | nil => exact fun _ _ _ hname => absurd hname List.not_mem_nil
  | back _ => exact nofun
  | within _ _ _ => exact nofun
  | @done opened between first rest result hnot hinner _ ih ihrest =>
      have hbetween := hinner.eq_of_ok _ rfl
      rw [hbetween, Finset.erase_insert hnot] at ihrest
      intro after hafter name hname
      rcases List.mem_cons.mp hname with rfl | hname
      · intro other hother
        rcases ReflTransGen.cases_head hother with rfl | ⟨next, hnext, hother⟩
        · -- a way back to the location itself would have found it open
          refine ⟨hnot, fun hloop => ?_⟩
          obtain ⟨next, hnext, hback⟩ := TransGen.head'_iff.mp hloop
          exact (ih _ rfl next (refers_iff.mp hnext) _ hback).1 (Finset.mem_insert_self _ _)
        · obtain ⟨hclosed, hloop⟩ := ih _ rfl next (refers_iff.mp hnext) other hother
          exact ⟨fun hmem => hclosed (Finset.mem_insert_of_mem hmem), hloop⟩
      · exact ihrest after hafter name hname

/-- A visit that comes back has come to a location that was open, or is inside itself. -/
theorem Visits.reaches_of_error {result : Except String (Finset String)}
    (h : t.Visits opened names result) : ∀ again, result = .error again →
      ∃ name ∈ names, ReflTransGen t.Refers name again ∧ (again ∈ opened ∨ t.InItself again) := by
  induction h with
  | nil => exact nofun
  | @back opened name rest hmem =>
      rintro _ ⟨rfl⟩
      exact ⟨name, List.mem_cons_self, .refl, .inl hmem⟩
  | @within opened first again rest _ _ ih =>
      rintro _ ⟨rfl⟩
      obtain ⟨next, hnext, hreaches, hopen⟩ := ih _ rfl
      have hfirst := refers_iff.mpr hnext
      refine ⟨first, List.mem_cons_self, .head hfirst hreaches, ?_⟩
      rcases hopen with hmem | hloop
      · rcases Finset.mem_insert.mp hmem with rfl | hmem
        · exact .inr (.head' hfirst hreaches)
        · exact .inl hmem
      · exact .inr hloop
  | @done opened between first rest result hnot hinner _ _ ihrest =>
      intro again hagain
      obtain ⟨name, hname, hreaches, hopen⟩ := ihrest again hagain
      rw [hinner.eq_of_ok _ rfl, Finset.erase_insert hnot] at hopen
      exact ⟨name, List.mem_cons_of_mem _ hname, hreaches, hopen⟩

/-- Visits come to one end. -/
theorem Visits.unique {result other : Except String (Finset String)}
    (h : t.Visits opened names result) (h' : t.Visits opened names other) : result = other := by
  induction h generalizing other with
  | nil => cases h'; rfl
  | back hmem =>
      cases h' with
      | back _ => rfl
      | within hnot _ => exact absurd hmem hnot
      | done hnot _ _ => exact absurd hmem hnot
  | within hnot _ ih =>
      cases h' with
      | back hmem => exact absurd hmem hnot
      | within _ hinner => exact ih hinner
      | done _ hinner _ => cases ih hinner
  | done hnot _ _ ih ihrest =>
      cases h' with
      | back hmem => exact absurd hmem hnot
      | within _ hinner => cases ih hinner
      | done _ hinner hrest =>
          cases ih hinner
          exact ihrest hrest

theorem references_of_not_defines {name : String} (h : t.defines name = false) :
    t.references name = [] := by
  rw [references, defines_eq_false_iff.mp h]
  rfl

/-- The locations of the table that are not open. -/
def unopened (t : Table) (opened : Finset String) : Finset String :=
  (t.locations.map Location.name).toFinset \ opened

/-- To open a location of the table leaves fewer that are not open. -/
theorem card_unopened_lt {name : String} (hd : t.defines name = true) (hnot : name ∉ opened) :
    (t.unopened (Insert.insert name opened)).card < (t.unopened opened).card := by
  have hname : name ∈ t.unopened opened := by
    rw [unopened, Finset.mem_sdiff, List.mem_toFinset, mem_names_iff]
    exact ⟨hd, hnot⟩
  rw [unopened, Finset.sdiff_insert]
  exact Finset.card_erase_lt_of_mem hname

/-- **Every visit comes to an end**, whatever is open: one that goes on opens a location of the
table, and there are only so many. -/
theorem exists_visits (t : Table) (opened : Finset String) (names : List String) :
    ∃ result, t.Visits opened names result := by
  -- by the number of locations that are not open, and then along the list
  induction hleft : (t.unopened opened).card using Nat.strong_induction_on
    generalizing opened names with
  | _ left ih =>
      have hinner : ∀ name, name ∉ opened →
          ∃ result, t.Visits (Insert.insert name opened) (t.references name) result := by
        intro name hnot
        cases hd : t.defines name with
        | false => exact references_of_not_defines hd ▸ ⟨_, .nil⟩
        | true => exact ih _ (hleft ▸ card_unopened_lt hd hnot) _ _ rfl
      induction names with
      | nil => exact ⟨_, .nil⟩
      | cons name rest ihrest =>
          by_cases hmem : name ∈ opened
          · exact ⟨_, .back hmem⟩
          · obtain ⟨result, hresult⟩ := hinner name hmem
            cases result with
            | error again => exact ⟨_, .within hmem hresult⟩
            | ok between =>
                obtain ⟨last, hrest⟩ := ihrest
                rw [← Finset.erase_insert hmem, ← hresult.eq_of_ok _ rfl] at hrest
                exact ⟨_, .done hmem hresult hrest⟩

/-- **A search from a location is done if and only if it does not lead into a loop.** -/
theorem visits_ok_iff {name : String} : t.Visits ∅ [name] (.ok ∅) ↔ ¬t.Loops name := by
  constructor
  · rintro h ⟨inner, hreaches, hloop⟩
    exact (h.not_mem_of_ok _ rfl name List.mem_cons_self inner hreaches).2 hloop
  · intro hnot
    obtain ⟨result, h⟩ := t.exists_visits ∅ [name]
    cases result with
    | ok after => exact h.eq_of_ok _ rfl ▸ h
    | error again =>
        obtain ⟨other, hother, hreaches, hopen⟩ := h.reaches_of_error _ rfl
        obtain rfl := List.mem_singleton.mp hother
        exact absurd ⟨again, hreaches, hopen.resolve_left (Finset.notMem_empty _)⟩ hnot

end Table
end Chronicle
