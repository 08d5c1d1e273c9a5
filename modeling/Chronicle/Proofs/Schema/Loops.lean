import Chronicle.Proofs.Schema.Sound
import Mathlib.Combinatorics.Pigeonhole
import Mathlib.Data.Finset.Card
import Mathlib.Data.List.Perm.Subperm
import Mathlib.Logic.Relation

/-!
# Locations inside themselves

The locations of a table form a graph: there is an edge from a location to each that its path names,
in itself or inside its queries (`Table.Refers`). A location is inside itself if it lies on a cycle
of this graph (`Table.InItself`).

To settle locations in rounds is to look for chains of references: a location that is not settled in
round `n` begins a chain of `n` of them (`Table.goesOn_iff`). A chain of as many references as there
are locations comes to some location twice, so what is never settled is what leads into a cycle
(`Table.mem_unsettled_iff`), and following references among those ends on one
(`Table.inItself_of_loop?`). Hence the check finds a loop if and only if there is a cycle, and the
location that it tells of is on it. Two ways to one location are no cycle.
-/

namespace Chronicle

open Relation (ReflTransGen TransGen)

/-! ### What a path names -/

namespace Locator

/-- The locator names a location: it leads there, or a locator of its query names it. -/
inductive Mentions (name : String) : Locator → Prop
  | location : Mentions name (.location name)
  | query {path : List Locator} {l : Locator} : l ∈ path → Mentions name l →
      Mentions name (.query path)

theorem mem_references_iff {name : String} {l : Locator} :
    name ∈ l.references ↔ l.Mentions name := by
  induction l using induction with
  | constant _ => exact ⟨nofun, nofun⟩
  | eventField _ => exact ⟨nofun, nofun⟩
  | location other =>
      rw [references, List.mem_singleton]
      exact ⟨fun h => h ▸ .location, fun | .location => rfl⟩
  | query path ih =>
      rw [references, referencesEach_eq_flatMap, List.mem_flatMap]
      constructor
      · rintro ⟨l, hl, hname⟩
        exact .query hl ((ih l hl).mp hname)
      · rintro (_ | ⟨hl, hname⟩)
        exact ⟨_, hl, (ih _ hl).mpr hname⟩

end Locator

namespace Table

variable {t : Table} {name next : String} {n : Nat}

/-- The path of a location names another. -/
def Refers (t : Table) (name next : String) : Prop :=
  ∃ path, t.path? name = some path ∧ ∃ l ∈ path, l.Mentions next

/-- The location is inside itself: references lead from it back to it. -/
def InItself (t : Table) (name : String) : Prop :=
  TransGen t.Refers name name

/-- No location is inside itself. -/
def Acyclic (t : Table) : Prop :=
  ∀ name, ¬t.InItself name

/-- References lead from the location to one that is inside itself. -/
def Loops (t : Table) (name : String) : Prop :=
  ∃ inner, ReflTransGen t.Refers name inner ∧ t.InItself inner

/-- The locations that the path of a location names. -/
def references (t : Table) (name : String) : List String :=
  Locator.referencesEach ((t.path? name).getD [])

theorem refers_iff : t.Refers name next ↔ next ∈ t.references name := by
  have hpath : ∀ path, next ∈ Locator.referencesEach path ↔ ∃ l ∈ path, l.Mentions next :=
    fun path => by
      rw [Locator.referencesEach_eq_flatMap, List.mem_flatMap]
      exact exists_congr fun l => and_congr_right fun _ => Locator.mem_references_iff
  rw [Refers, references]
  cases t.path? name with
  | none => simp
  | some path => simp [← hpath]

/-- Only the locations of the table refer to any. -/
theorem Refers.defines (h : t.Refers name next) : t.defines name = true := by
  obtain ⟨path, hpath, -⟩ := h
  exact defines_iff.mpr ⟨path, hpath⟩

theorem InItself.loops (h : t.InItself name) : t.Loops name :=
  ⟨name, .refl, h⟩

theorem Loops.of_reaches (hname : ReflTransGen t.Refers name next) (h : t.Loops next) :
    t.Loops name := by
  obtain ⟨inner, hinner, hloop⟩ := h
  exact ⟨inner, hname.trans hinner, hloop⟩

/-- What leads into a loop leads on into it. -/
theorem Loops.exists_refers (h : t.Loops name) : ∃ next, t.Refers name next ∧ t.Loops next := by
  obtain ⟨inner, hinner, hloop⟩ := h
  rcases ReflTransGen.cases_head hinner with rfl | ⟨next, hnext, hrest⟩
  · obtain ⟨next, hnext, hback⟩ := TransGen.head'_iff.mp hloop
    exact ⟨next, hnext, name, hback, hloop⟩
  · exact ⟨next, hnext, inner, hrest, hloop⟩

/-! ### Chains of references -/

/-- A chain of `n` references leads from one location to another of the table. -/
def GoesOn (t : Table) : (n : Nat) → String → Prop
  | 0, name => t.defines name = true
  | n + 1, name => ∃ next, t.Refers name next ∧ t.GoesOn n next

theorem GoesOn.defines (h : t.GoesOn n name) : t.defines name = true := by
  cases n with
  | zero => exact h
  | succ n =>
      obtain ⟨next, hnext, -⟩ := h
      exact hnext.defines

theorem mem_settled_succ_iff : name ∈ t.settled (n + 1) ↔ t.defines name = true ∧
    ∀ next ∈ t.references name, t.defines next = true → next ∈ t.settled n := by
  constructor
  · intro h
    obtain ⟨l, hl, rfl⟩ := List.mem_map.mp h
    have hpath := path?_of_mem (List.mem_filter.mp hl).1
    refine ⟨defines_iff.mpr ⟨l.path, hpath⟩, fun next hnext hd => ?_⟩
    rw [references, hpath] at hnext
    exact mem_settled_of_reference h hpath hnext hd
  · rintro ⟨hd, hall⟩
    obtain ⟨path, hpath⟩ := defines_iff.mp hd
    rw [references, hpath] at hall
    obtain ⟨l, hl, rfl, rfl⟩ := mem_of_path? hpath
    refine List.mem_map_of_mem (List.mem_filter.mpr ⟨hl, List.all_eq_true.mpr fun next hnext => ?_⟩)
    cases hnextd : t.defines next with
    | false => rfl
    | true => simpa using hall next hnext hnextd

/-- **A location is not settled in round `n` if a chain of `n` references begins there.** -/
theorem goesOn_iff : t.GoesOn n name ↔ t.defines name = true ∧ name ∉ t.settled n := by
  induction n generalizing name with
  | zero => simp [GoesOn, settled]
  | succ n ih =>
      simp only [GoesOn, ih, refers_iff, mem_settled_succ_iff]
      constructor
      · rintro ⟨next, hnext, hd, hnot⟩
        exact ⟨(refers_iff.mpr hnext).defines, fun h => hnot (h.2 next hnext hd)⟩
      · rintro ⟨hd, hnot⟩
        by_contra hnone
        refine hnot ⟨hd, fun next hnext hnextd => ?_⟩
        by_contra hsettled
        exact hnone ⟨next, hnext, hnextd, hsettled⟩

/-- From what leads into a loop references lead on for ever. -/
theorem Loops.goesOn (h : t.Loops name) (n : Nat) : t.GoesOn n name := by
  induction n generalizing name with
  | zero =>
      obtain ⟨next, hnext, -⟩ := h.exists_refers
      exact hnext.defines
  | succ n ih =>
      obtain ⟨next, hnext, hloops⟩ := h.exists_refers
      exact ⟨next, hnext, ih hloops⟩

/-- A chain either comes to some location twice or goes through one more than it has references. -/
theorem GoesOn.loops_or_nodup (h : t.GoesOn n name) :
    t.Loops name ∨ ∃ names : List String, names.length = n + 1 ∧ names.Nodup ∧
      ∀ other ∈ names, t.defines other = true ∧ ReflTransGen t.Refers name other := by
  induction n generalizing name with
  | zero => exact .inr ⟨[name], rfl, by simp, by simpa using ⟨h, .refl⟩⟩
  | succ n ih =>
      have hd := h.defines
      obtain ⟨next, hnext, h⟩ := h
      rcases ih h with hloops | ⟨names, hlength, hnodup, hnames⟩
      · exact .inl (hloops.of_reaches (.single hnext))
      · by_cases hmem : name ∈ names
        · exact .inl (InItself.loops (.head' hnext (hnames name hmem).2))
        · refine .inr ⟨name :: names, by simp [hlength], hnodup.cons hmem, ?_⟩
          refine List.forall_mem_cons.mpr ⟨⟨hd, .refl⟩, fun other hother => ?_⟩
          exact ⟨(hnames other hother).1, .head hnext (hnames other hother).2⟩

theorem mem_names_iff : name ∈ t.locations.map Location.name ↔ t.defines name = true := by
  rw [defines_iff, List.mem_map]
  constructor
  · rintro ⟨l, hl, rfl⟩
    exact ⟨l.path, path?_of_mem hl⟩
  · rintro ⟨path, hpath⟩
    obtain ⟨l, hl, hname, -⟩ := mem_of_path? hpath
    exact ⟨l, hl, hname⟩

/-- A chain with as many references as there are locations comes to some location twice. -/
theorem goesOn_size_iff : t.GoesOn t.size name ↔ t.Loops name := by
  refine ⟨fun h => ?_, fun h => h.goesOn _⟩
  rcases h.loops_or_nodup with hloops | ⟨names, hlength, hnodup, hnames⟩
  · exact hloops
  · exfalso
    have hsub : names ⊆ t.locations.map Location.name := fun other hother =>
      mem_names_iff.mpr (hnames other hother).1
    have hle := (hnodup.subperm hsub).length_le
    rw [hlength, List.length_map, size] at hle
    omega

/-- **What stays unsettled is what leads into a loop.** -/
theorem mem_unsettled_iff : name ∈ t.unsettled ↔ t.Loops name := by
  rw [← goesOn_size_iff, goesOn_iff, ← mem_names_iff, unsettled, List.mem_filter]
  simp

/-- **There is a loop to be told of if and only if a location is inside itself.** -/
theorem loop?_eq_none_iff_acyclic : t.loop? = none ↔ t.Acyclic := by
  rw [loop?, Option.map_eq_none_iff, List.head?_eq_none_iff, List.eq_nil_iff_forall_not_mem]
  simp only [mem_unsettled_iff]
  constructor
  · exact fun h name hname => h name hname.loops
  · rintro h name ⟨inner, -, hinner⟩
    exact h inner hinner

/-! ### Following references -/

/-- The first of some locations that the path of a location names; itself if it names none. -/
def onward (t : Table) (loose : List String) (name : String) : String :=
  ((t.references name).find? loose.contains).getD name

theorem follow_eq_iterate (loose : List String) (n : Nat) (name : String) :
    t.follow loose n name = (t.onward loose)^[n] name := by
  induction n generalizing name with
  | zero => rfl
  | succ n ih =>
      rw [follow, Function.iterate_succ_apply, ← references]
      cases hnext : (t.references name).find? loose.contains with
      | some next => rw [onward, hnext]; exact ih next
      | none =>
          have hfixed : t.onward loose name = name := by rw [onward, hnext]; rfl
          rw [hfixed, Function.iterate_fixed hfixed]

/-- From an unsettled location there is always an unsettled one to go on to. -/
theorem refers_onward (h : t.Loops name) :
    t.Refers name (t.onward t.unsettled name) ∧ t.Loops (t.onward t.unsettled name) := by
  obtain ⟨next, hnext, hloops⟩ := h.exists_refers
  cases hfound : (t.references name).find? t.unsettled.contains with
  | none =>
      have hnot := List.find?_eq_none.mp hfound next (refers_iff.mp hnext)
      exact absurd (by simpa using mem_unsettled_iff.mpr hloops) hnot
  | some first =>
      have hmem : first ∈ t.unsettled := by simpa using List.find?_some hfound
      rw [onward, hfound]
      exact ⟨refers_iff.mpr (List.mem_of_find?_eq_some hfound), mem_unsettled_iff.mp hmem⟩

theorem loops_iterate (h : t.Loops name) (n : Nat) :
    t.Loops ((t.onward t.unsettled)^[n] name) := by
  induction n with
  | zero => exact h
  | succ n ih =>
      rw [Function.iterate_succ_apply']
      exact (refers_onward ih).2

/-- One step or more lead to where references lead. -/
theorem transGen_iterate (h : t.Loops name) (n : Nat) :
    TransGen t.Refers name ((t.onward t.unsettled)^[n + 1] name) := by
  induction n with
  | zero => exact .single (refers_onward h).1
  | succ n ih =>
      rw [Function.iterate_succ_apply']
      exact ih.tail (refers_onward (loops_iterate h _)).1

/-- Steps that have come to a location twice go round, and are on the cycle from then on. -/
theorem inItself_of_iterate_eq (h : t.Loops name) {i j k : Nat} (hij : i < j) (hik : i ≤ k)
    (heq : (t.onward t.unsettled)^[i] name = (t.onward t.unsettled)^[j] name) :
    t.InItself ((t.onward t.unsettled)^[k] name) := by
  obtain ⟨more, rfl⟩ := Nat.exists_eq_add_of_lt hij
  obtain ⟨rest, rfl⟩ := Nat.exists_eq_add_of_le' hik
  have hback : (t.onward t.unsettled)^[more + 1] ((t.onward t.unsettled)^[rest + i] name) =
      (t.onward t.unsettled)^[rest + i] name := by
    have hsum : more + 1 + (rest + i) = rest + (i + more + 1) := by omega
    rw [← Function.iterate_add_apply, hsum, Function.iterate_add_apply, ← heq,
      ← Function.iterate_add_apply]
  have hround := transGen_iterate (loops_iterate h (rest + i)) more
  rwa [hback] at hround

/-- As many steps as there are locations come to some location twice, and so end on a cycle. -/
theorem inItself_iterate (h : t.Loops name) : t.InItself ((t.onward t.unsettled)^[t.size] name) := by
  have hmaps : Set.MapsTo (fun n => (t.onward t.unsettled)^[n] name) (Finset.range (t.size + 1))
      t.unsettled.toFinset := fun n _ => by
    simpa using mem_unsettled_iff.mpr (loops_iterate h n)
  have hcard : t.unsettled.toFinset.card < (Finset.range (t.size + 1)).card := by
    have hfew := List.toFinset_card_le t.unsettled
    have hfilter : t.unsettled.length ≤ t.size := by
      simpa [unsettled, size] using List.length_filter_le _ (t.locations.map Location.name)
    rw [Finset.card_range]
    omega
  obtain ⟨i, hi, j, hj, hne, heq⟩ := Finset.exists_ne_map_eq_of_card_lt_of_maps_to hcard hmaps
  rcases Nat.lt_or_gt_of_ne hne with hlt | hlt
  · exact inItself_of_iterate_eq h hlt (Finset.mem_range_succ_iff.mp hi) heq
  · exact inItself_of_iterate_eq h hlt (Finset.mem_range_succ_iff.mp hj) heq.symm

/-- **The location that is told of is inside itself.** -/
theorem inItself_of_loop? (h : t.loop? = some name) : t.InItself name := by
  obtain ⟨start, hstart, rfl⟩ := Option.map_eq_some_iff.mp h
  rw [follow_eq_iterate]
  exact inItself_iterate (mem_unsettled_iff.mp (List.mem_of_mem_head? hstart))

end Table
end Chronicle
