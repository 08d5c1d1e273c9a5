import Chronicle.Proofs.Schema.Sound

/-!
# Schemas without locations

Where no location is inside itself, every location that a path names can be replaced by its path,
in which the locations are replaced in turn (`Table.inline_location`). A schema whose paths are
rewritten in this way names no location any more, so it is accepted with an empty table
(`Schema.check_inlined`).

Rewriting the paths of a schema is a map over its syntax (`mapPaths`), for any function on paths: it
keeps the shape of conditions, and a schema stays sound if sound paths stay sound
(`Condition.check_mapPaths`, `Change.check_mapPaths`).
-/

namespace Chronicle

/-! ### Paths without locations -/

namespace Locator

mutual

/-- A locator with its locations replaced, those inside queries included. -/
def inlineWith (expand : String → List Locator) : Locator → List Locator
  | .constant name => [.constant name]
  | .eventField name => [.eventField name]
  | .query path => [.query (inlineEachWith expand path)]
  | .location name => expand name

/-- The locators of a path with their locations replaced. -/
def inlineEachWith (expand : String → List Locator) : List Locator → List Locator
  | [] => []
  | l :: rest => l.inlineWith expand ++ inlineEachWith expand rest

end

/-- Only what replaces the locations that a path names counts. -/
theorem inlineEachWith_congr {f g : String → List Locator} (path : List Locator) :
    (∀ name ∈ referencesEach path, f name = g name) →
      inlineEachWith f path = inlineEachWith g path := by
  induction path using path_induction with
  | nil => exact fun _ => rfl
  | constant name rest ih =>
      intro h
      simp only [inlineEachWith, inlineWith, ih h]
  | eventField name rest ih =>
      intro h
      simp only [inlineEachWith, inlineWith, ih h]
  | query path rest ihp ih =>
      intro h
      simp only [inlineEachWith, inlineWith, ihp fun n hn => h n (List.mem_append_left _ hn),
        ih fun n hn => h n (List.mem_append_right _ hn)]
  | location name rest ih =>
      intro h
      simp only [inlineEachWith, inlineWith, h name (List.mem_append_left _ List.mem_cons_self),
        ih fun n hn => h n (List.mem_append_right _ hn)]

end Locator

namespace Table

/-- What replaces a location, with at most `rounds` locations inside one another. -/
def expand (t : Table) : (rounds : Nat) → String → List Locator
  | 0, name => [.location name]
  | n + 1, name =>
    match t.path? name with
    | some path => Locator.inlineEachWith (t.expand n) path
    | none => [.location name]

/-- A path with its locations replaced. -/
def inline (t : Table) (path : List Locator) : List Locator :=
  Locator.inlineEachWith (t.expand t.size) path

variable {t : Table} {path rest : List Locator} {name : String}

theorem expand_of_path?_eq_none (h : t.path? name = none) (n : Nat) :
    t.expand n name = [.location name] := by
  cases n with
  | zero => rfl
  | succ n => rw [expand, h]

/-- A location that is settled in round `n` is replaced alike in all rounds from `n` on. -/
theorem expand_eq {n a b : Nat} (ha : n ≤ a) (hb : n ≤ b) (h : name ∈ t.settled n) :
    t.expand a name = t.expand b name := by
  induction n generalizing a b name with
  | zero => cases h
  | succ n ih =>
      obtain ⟨a, rfl⟩ := Nat.exists_eq_add_of_lt ha
      obtain ⟨b, rfl⟩ := Nat.exists_eq_add_of_lt hb
      rw [expand, expand]
      cases hp : t.path? name with
      | none => rfl
      | some path =>
          refine Locator.inlineEachWith_congr path fun r hr => ?_
          cases hd : t.path? r with
          | none => rw [expand_of_path?_eq_none hd, expand_of_path?_eq_none hd]
          | some q =>
              exact ih (Nat.le_add_right ..) (Nat.le_add_right ..)
                (mem_settled_of_reference h hp hr (defines_iff.mpr ⟨q, hd⟩))

@[simp] theorem inline_nil : t.inline [] = [] := rfl

@[simp] theorem inline_constant :
    t.inline (.constant name :: rest) = .constant name :: t.inline rest := rfl

@[simp] theorem inline_eventField :
    t.inline (.eventField name :: rest) = .eventField name :: t.inline rest := rfl

@[simp] theorem inline_query :
    t.inline (.query path :: rest) = .query (t.inline path) :: t.inline rest := rfl

/-- A location is replaced by its path, in which the locations are replaced in turn. -/
theorem inline_location (ht : t.check = .ok ()) (name : String) (rest : List Locator) :
    t.inline (.location name :: rest) =
      match t.path? name with
      | some path => t.inline path ++ t.inline rest
      | none => .location name :: t.inline rest := by
  have hcons : t.inline (.location name :: rest) = t.expand t.size name ++ t.inline rest := rfl
  rw [hcons]
  cases hp : t.path? name with
  | none => rw [expand_of_path?_eq_none hp]; rfl
  | some path =>
      have hsettled : name ∈ t.settled t.size :=
        mem_settled_of_check ht (defines_iff.mpr ⟨path, hp⟩)
      rw [expand_eq (Nat.le_refl _) (Nat.le_succ _) hsettled, expand, hp]
      rfl

/-- The locators of a path stay sound when locations are replaced, and name none of them any more.
No path vanishes. -/
theorem checkEach_inline (ht : t.check = .ok ()) (path : List Locator) :
    Locator.checkEach t path = .ok () →
      Locator.checkEach {} (t.inline path) = .ok () ∧ (path ≠ [] → t.inline path ≠ []) := by
  induction path using path_induction (h := ht) with
  | nil => exact fun _ => ⟨rfl, id⟩
  | constant name rest ih =>
      intro h
      obtain ⟨hl, hrest⟩ := Locator.checkEach_cons_iff.mp h
      exact ⟨Locator.checkEach_cons_iff.mpr ⟨hl, (ih hrest).1⟩, by simp⟩
  | eventField name rest ih =>
      intro h
      obtain ⟨hl, hrest⟩ := Locator.checkEach_cons_iff.mp h
      exact ⟨Locator.checkEach_cons_iff.mpr ⟨hl, (ih hrest).1⟩, by simp⟩
  | query path rest ihp ih =>
      intro h
      obtain ⟨hl, hrest⟩ := Locator.checkEach_cons_iff.mp h
      obtain ⟨hne, hp⟩ := Locator.check_query_iff.mp hl
      have hquery : Locator.Sound {} (t.inline path) := ⟨(ihp hp).2 hne, (ihp hp).1⟩
      exact ⟨Locator.checkEach_cons_iff.mpr ⟨Locator.check_query_iff.mpr hquery, (ih hrest).1⟩,
        by simp⟩
  | location name rest ihp ih =>
      intro h
      obtain ⟨hl, hrest⟩ := Locator.checkEach_cons_iff.mp h
      obtain ⟨path, hp⟩ := defines_iff.mp (Locator.check_location_iff.mp hl)
      obtain ⟨hne, hpath⟩ := sound_of_path? ht hp
      obtain ⟨hcheck, hinline⟩ := ihp path hp hpath
      rw [inline_location ht, hp]
      exact ⟨Locator.checkEach_append_iff.mpr ⟨hcheck, (ih hrest).1⟩,
        fun _ => List.append_ne_nil_of_left_ne_nil (hinline hne) _⟩

theorem sound_inline (ht : t.check = .ok ()) (h : Locator.Sound t path) :
    Locator.Sound {} (t.inline path) :=
  ⟨(checkEach_inline ht path h.2).2 h.1, (checkEach_inline ht path h.2).1⟩

end Table

/-! ### Rewriting the paths of a schema -/

section

variable (φ : List Locator → List Locator)

/-- A source with its path rewritten. -/
def Source.mapPaths : Source → Source
  | .query path => .query (φ path)
  | source => source

/-- A term with its path rewritten. -/
def Term.mapPaths (m : Term) : Term :=
  { m with source := m.source.mapPaths φ }

/-- The left side of a comparison with its path rewritten. -/
def Operand.mapPaths : Operand → Operand
  | .attribute path => .attribute (φ path)
  | .term m => .term (m.mapPaths φ)

/-- A comparison with its paths rewritten. -/
def Comparison.mapPaths (l : Comparison) : Comparison :=
  ⟨l.operand.mapPaths φ, l.expected.mapPaths φ⟩

mutual

/-- A condition with its paths rewritten. -/
def Condition.mapPaths : Condition → Condition
  | .leaf operand expected => .leaf (operand.mapPaths φ) (expected.mapPaths φ)
  | .not c => .not (c.mapPaths)
  | .all cs => .all (mapPathsOfEach cs)
  | .any cs => .any (mapPathsOfEach cs)

/-- Conditions with their paths rewritten. -/
def Condition.mapPathsOfEach : List Condition → List Condition
  | [] => []
  | c :: rest => c.mapPaths :: mapPathsOfEach rest

end

mutual

/-- A state change with its paths rewritten. -/
def Change.mapPaths : Change → Change
  | .assign path m => .assign (φ path) (m.mapPaths φ)
  | .conditional c yes no =>
    .conditional (c.mapPaths φ) (mapPathsOfBranch yes) (mapPathsOfBranch no)

/-- A branch with its paths rewritten. -/
def Change.mapPathsOfBranch : Option Change → Option Change
  | none => none
  | some change => some (change.mapPaths)

end

/-- A handler with its paths rewritten. -/
def Handler.mapPaths (h : Handler) : Handler :=
  ⟨h.pattern, h.changes.map (Change.mapPaths φ)⟩

end

namespace Condition

variable {φ : List Locator → List Locator}

theorem mapPathsOfEach_eq_map (cs : List Condition) :
    mapPathsOfEach φ cs = cs.map (mapPaths φ) := by
  induction cs with
  | nil => rfl
  | cons c rest ih => rw [mapPathsOfEach, ih, List.map_cons]

mutual

theorem leaves_mapPaths : ∀ c : Condition,
    (c.mapPaths φ).leaves = c.leaves.map (Comparison.mapPaths φ)
  | .leaf _ _ => rfl
  | .not c => leaves_mapPaths c
  | .all cs => leavesOfEach_mapPaths cs
  | .any cs => leavesOfEach_mapPaths cs

theorem leavesOfEach_mapPaths : ∀ cs : List Condition,
    leavesOfEach (mapPathsOfEach φ cs) = (leavesOfEach cs).map (Comparison.mapPaths φ)
  | [] => rfl
  | c :: rest => by
    rw [mapPathsOfEach, leavesOfEach, leavesOfEach, List.map_append, leaves_mapPaths c,
      leavesOfEach_mapPaths rest]

end

end Condition

namespace Change

variable {φ : List Locator → List Locator}

theorem mapPathsOfBranch_eq_map (branch : Option Change) :
    mapPathsOfBranch φ branch = branch.map (mapPaths φ) := by
  cases branch <;> rfl

end Change

/-! ### Rewriting keeps a schema sound -/

section

variable {φ : List Locator → List Locator} {t u : Table}
variable (hφ : ∀ path, Locator.Sound t path → Locator.Sound u (φ path))

include hφ

theorem Term.Sound.mapPaths {m : Term} (h : m.Sound t) : (m.mapPaths φ).Sound u := by
  obtain ⟨source, increment, stack⟩ := m
  obtain ⟨hi, hs, ha, hliteral, hfield, hquery⟩ := h
  cases source with
  | query path =>
      refine ⟨hi, hs, ha, fun v hv => ?_, fun name kind hf => ?_, fun p hp => ?_⟩
      · cases hv
      · cases hf
      · obtain rfl := Source.query.inj hp
        exact hφ path (hquery path rfl)
  | _ =>
      refine ⟨hi, hs, ha, hliteral, hfield, fun p hp => ?_⟩
      cases hp

omit hφ in
theorem Source.isDelete_mapPaths (source : Source) :
    (source.mapPaths φ).isDelete = source.isDelete := by
  cases source <;> rfl

theorem Operand.Sound.mapPaths {o : Operand} (h : o.Sound t) : (o.mapPaths φ).Sound u := by
  cases h with
  | ofPath h => exact .ofPath (hφ _ h)
  | @ofTerm m hd h => exact .ofTerm ((Source.isDelete_mapPaths m.source).trans hd) (h.mapPaths hφ)

theorem Condition.check_mapPaths (c : Condition) :
    c.check t = .ok () → (c.mapPaths φ).check u = .ok () := by
  induction c using induction with
  | leaf operand expected =>
      intro h
      simp only [Condition.mapPaths, check, check_bind_iff, refuseIf_eq_ok_iff,
        Operand.check_eq_ok_iff, Term.check_eq_ok_iff] at h ⊢
      exact ⟨h.1.mapPaths hφ, (Source.isDelete_mapPaths expected.source).trans h.2.1,
        h.2.2.mapPaths hφ⟩
  | not c ih => exact ih
  | all cs ih =>
      intro h
      rw [check, check_bind_iff, checkEach_iff] at h
      rw [Condition.mapPaths, mapPathsOfEach_eq_map, check, check_bind_iff, checkEach_iff,
        List.forall_mem_map]
      exact ⟨by simpa [refuseIf_eq_ok_iff] using h.1, fun c hc => ih c hc (h.2 c hc)⟩
  | any cs ih =>
      intro h
      rw [check, check_bind_iff, checkEach_iff] at h
      rw [Condition.mapPaths, mapPathsOfEach_eq_map, check, check_bind_iff, checkEach_iff,
        List.forall_mem_map]
      exact ⟨by simpa [refuseIf_eq_ok_iff] using h.1, fun c hc => ih c hc (h.2 c hc)⟩

theorem Change.check_mapPaths (change : Change) :
    change.check t = .ok () → (change.mapPaths φ).check u = .ok () := by
  induction change using induction with
  | assign path m =>
      intro h
      obtain ⟨hpath, hm⟩ := check_assign_iff.mp h
      exact check_assign_iff.mpr ⟨hφ path hpath, hm.mapPaths hφ⟩
  | conditional c yes no ihyes ihno =>
      intro h
      obtain ⟨hsome, hc, hyes, hno⟩ := check_conditional_iff.mp h
      rw [Change.mapPaths, mapPathsOfBranch_eq_map, mapPathsOfBranch_eq_map, check_conditional_iff]
      refine ⟨by simpa using hsome, Condition.check_mapPaths hφ c hc, ?_, ?_⟩
      · simpa using fun change hchange => ihyes change hchange (hyes change hchange)
      · simpa using fun change hchange => ihno change hchange (hno change hchange)

theorem Handler.check_mapPaths {h : Handler} (hh : h.check t = .ok ()) :
    (h.mapPaths φ).check u = .ok () := by
  obtain ⟨hp, hchanges⟩ := check_eq_ok_iff.mp hh
  refine check_eq_ok_iff.mpr ⟨hp, ?_⟩
  rw [Handler.mapPaths, List.forall_mem_map]
  exact fun change hchange => Change.check_mapPaths hφ change (hchanges change hchange)

end

namespace Schema

/-- The schema with its locations replaced by their paths, and no table. -/
def inlined (schema : Schema) : Schema :=
  ⟨schema.handlers.map (Handler.mapPaths schema.table.inline), default⟩

theorem check_inlined {schema : Schema} (h : schema.check = .ok ()) :
    schema.inlined.check = .ok () := by
  obtain ⟨ht, hhandlers⟩ := check_eq_ok_iff.mp h
  refine check_eq_ok_iff.mpr ⟨Table.check_empty, ?_⟩
  rw [inlined, List.forall_mem_map]
  exact fun h hh => Handler.check_mapPaths (fun _ => Table.sound_inline ht) (hhandlers h hh)

end Schema
end Chronicle
