import Chronicle.Proofs.Schema.Settled
import Chronicle.Schema.Document

/-!
# What a check lets through

A schema is accepted if it was made of handlers and locations, or of a document, and then it has
passed its check (`Schema.accepted_iff`). What the check of each part lets through is said once
here, and proofs about schemas that are accepted use it instead of the check.

| part | is sound if |
| --- | --- |
| path | it is not empty, and its locators are sound |
| term | its modifiers fit its source, and the path that it queries is sound |
| state change | all its conditions and all its assignments are |

Conditions and state changes contain others, inside lists and options. A property of all of them is
proved by `Condition.induction` and `Change.induction`.
-/

namespace Chronicle

open Schema (Refusal Fault)

/-! ### Checks one after another -/

theorem check_bind_iff {ε α : Type} {x : Except ε Unit} {y : Except ε α} {a : α} :
    (x >>= fun _ => y) = .ok a ↔ x = .ok () ∧ y = .ok a := by
  cases x with
  | error e => simp [bind, Except.bind]
  | ok u => simp [bind, Except.bind]

theorem check_forM_iff {ε α : Type} {f : α → Except ε Unit} {l : List α} :
    l.forM f = .ok () ↔ ∀ a ∈ l, f a = .ok () := by
  induction l with
  | nil => simp [pure, Except.pure]
  | cons a rest ih => rw [List.forM, check_bind_iff, ih, List.forall_mem_cons]

theorem refuseIf_eq_ok_iff {c : Bool} {f : Fault} : refuseIf c f = .ok () ↔ c = false := by
  cases c <;> simp [refuseIf]

theorem mapError_eq_ok_iff {ε ε' α : Type} {f : ε → ε'} {x : Except ε α} {a : α} :
    x.mapError f = .ok a ↔ x = .ok a := by
  cases x with
  | ok b => exact ⟨fun h => congrArg _ (Except.ok.inj h), fun h => congrArg _ (Except.ok.inj h)⟩
  | error e =>
      constructor
      · intro h
        cases h
      · intro h
        cases h

/-! ### Paths -/

namespace Locator

/-- Induction over a locator and those of the query in it. -/
theorem induction {P : Locator → Prop} (constant : ∀ name, P (.constant name))
    (eventField : ∀ name, P (.eventField name)) (location : ∀ name, P (.location name))
    (query : ∀ path, (∀ l ∈ path, P l) → P (.query path)) : ∀ l, P l
  | .constant name => constant name
  | .eventField name => eventField name
  | .location name => location name
  | .query path => query path fun l _ => induction constant eventField location query l

variable {t : Table} {l : Locator} {path more : List Locator} {name : String}

theorem checkEach_cons_iff :
    checkEach t (l :: path) = .ok () ↔ l.check t = .ok () ∧ checkEach t path = .ok () := by
  rw [checkEach, check_bind_iff]

theorem checkEach_append_iff :
    checkEach t (path ++ more) = .ok () ↔
      checkEach t path = .ok () ∧ checkEach t more = .ok () := by
  induction path with
  | nil => simp [checkEach]
  | cons l rest ih => rw [List.cons_append, checkEach_cons_iff, checkEach_cons_iff, ih, and_assoc]

/-- The path is not empty, and its locators are sound. -/
def Sound (t : Table) (path : List Locator) : Prop :=
  path ≠ [] ∧ checkEach t path = .ok ()

theorem check_query_iff : (Locator.query path).check t = .ok () ↔ Sound t path := by
  rw [check, check_bind_iff, refuseIf_eq_ok_iff, Sound, List.isEmpty_eq_false_iff]

theorem check_location_iff : (Locator.location name).check t = .ok () ↔ t.defines name = true := by
  rw [check]
  cases t.defines name <;> simp

end Locator

namespace Table

variable {t : Table} {name : String} {path : List Locator}

/-- The path of a location of a sound table is sound. -/
theorem sound_of_path? (h : t.check = .ok ()) (hp : t.path? name = some path) :
    Locator.Sound t path := by
  obtain ⟨l, hl, -, rfl⟩ := mem_of_path? hp
  obtain ⟨hall, -⟩ := check_bind_iff.mp h
  have hone := check_forM_iff.mp hall l hl
  rw [checkLocation, check_bind_iff, refuseIf_eq_ok_iff, List.isEmpty_eq_false_iff] at hone
  exact hone

/-- A table without locations is sound. -/
theorem check_empty : ({} : Table).check = .ok () := rfl

end Table

/-! ### Terms -/

namespace Term

/-- The modifiers of the term fit its source, and its source is complete. -/
structure Sound (t : Table) (m : Term) : Prop where
  increment : m.increment = true → m.source.canIncrement = true
  stack : m.stack ≠ .none → m.source.canStack = true
  apart : m.increment = true → m.stack = .none
  literal : ∀ v, m.source = .literal v → m.increment = true → v.int?.isSome = true
  field : ∀ name kind, m.source = .eventField name kind → name ≠ ""
  query : ∀ path, m.source = .query path → Locator.Sound t path

theorem check_eq_ok_iff {t : Table} {m : Term} : m.check t = .ok () ↔ m.Sound t := by
  obtain ⟨source, increment, stack⟩ := m
  simp only [check, check_bind_iff, refuseIf_eq_ok_iff]
  constructor
  · rintro ⟨hi, hs, ha, hsource⟩
    refine ⟨by simpa using hi, by simpa using hs, by simpa using ha, ?_, ?_, ?_⟩
    · rintro v rfl hinc
      simpa [refuseIf_eq_ok_iff, show increment = true from hinc] using hsource
    · rintro name kind rfl
      simpa [refuseIf_eq_ok_iff] using hsource
    · rintro path rfl
      simpa [check_bind_iff, refuseIf_eq_ok_iff, Locator.Sound] using hsource
  · rintro ⟨hi, hs, ha, hliteral, hfield, hquery⟩
    refine ⟨by simpa using hi, by simpa using hs, by simpa using ha, ?_⟩
    cases source with
    | literal v => simpa [refuseIf_eq_ok_iff, ← Option.isSome_iff_ne_none] using hliteral v rfl
    | eventField name kind => simpa [refuseIf_eq_ok_iff] using hfield name kind rfl
    | query path => simpa [check_bind_iff, refuseIf_eq_ok_iff, Locator.Sound] using hquery path rfl
    | eventName => rfl
    | delete => rfl

end Term

/-! ### Conditions -/

namespace Operand

/-- The left side of a comparison is sound. -/
inductive Sound (t : Table) : Operand → Prop
  | ofPath {path : List Locator} : Locator.Sound t path → Sound t (.attribute path)
  | ofTerm {m : Term} : m.source.isDelete = false → m.Sound t → Sound t (.term m)

theorem check_eq_ok_iff {t : Table} {o : Operand} : o.check t = .ok () ↔ o.Sound t := by
  rcases o with path | m
  · rw [check, check_bind_iff, refuseIf_eq_ok_iff, List.isEmpty_eq_false_iff]
    exact ⟨fun h => .ofPath h, fun | .ofPath h => h⟩
  · rw [check, check_bind_iff, refuseIf_eq_ok_iff, Term.check_eq_ok_iff]
    exact ⟨fun h => .ofTerm h.1 h.2, fun | .ofTerm hd h => ⟨hd, h⟩⟩

end Operand

/-- A comparison: what is compared, and what is expected. -/
structure Comparison where
  operand : Operand
  expected : Term

/-- Both sides of a comparison are sound, and neither removes anything. -/
structure Comparison.Sound (t : Table) (l : Comparison) : Prop where
  operand : l.operand.Sound t
  kept : l.expected.source.isDelete = false
  expected : l.expected.Sound t

namespace Condition

/-- Induction over a condition and those it is made of. -/
theorem induction {P : Condition → Prop} (leaf : ∀ operand expected, P (.leaf operand expected))
    (not : ∀ c, P c → P (.not c)) (all : ∀ cs, (∀ c ∈ cs, P c) → P (.all cs))
    (any : ∀ cs, (∀ c ∈ cs, P c) → P (.any cs)) : ∀ c, P c
  | .leaf operand expected => leaf operand expected
  | .not c => not c (induction leaf not all any c)
  | .all cs => all cs fun c _ => induction leaf not all any c
  | .any cs => any cs fun c _ => induction leaf not all any c

mutual

/-- The comparisons that a condition makes, from left to right. -/
def leaves : Condition → List Comparison
  | .leaf operand expected => [⟨operand, expected⟩]
  | .not c => c.leaves
  | .all cs => leavesOfEach cs
  | .any cs => leavesOfEach cs

/-- The comparisons that conditions make. -/
def leavesOfEach : List Condition → List Comparison
  | [] => []
  | c :: rest => c.leaves ++ leavesOfEach rest

end

theorem leavesOfEach_eq_flatMap (cs : List Condition) : leavesOfEach cs = cs.flatMap leaves := by
  induction cs with
  | nil => rfl
  | cons c rest ih => rw [leavesOfEach, ih, List.flatMap_cons]

theorem checkEach_iff {t : Table} {cs : List Condition} :
    checkEach t cs = .ok () ↔ ∀ c ∈ cs, c.check t = .ok () := by
  induction cs with
  | nil => simp [checkEach]
  | cons c rest ih => rw [checkEach, check_bind_iff, ih, List.forall_mem_cons]

/-- The comparisons of a sound condition are sound. -/
theorem sound_of_mem_leaves {t : Table} {c : Condition} (h : c.check t = .ok ()) {l : Comparison}
    (hl : l ∈ c.leaves) : l.Sound t := by
  induction c using induction with
  | leaf operand expected =>
      obtain rfl := List.mem_singleton.mp hl
      simp only [check, check_bind_iff, refuseIf_eq_ok_iff, Operand.check_eq_ok_iff,
        Term.check_eq_ok_iff] at h
      exact ⟨h.1, h.2.1, h.2.2⟩
  | not c ih => exact ih h hl
  | all cs ih =>
      rw [leaves, leavesOfEach_eq_flatMap] at hl
      obtain ⟨c, hc, hl⟩ := List.mem_flatMap.mp hl
      rw [check, check_bind_iff, checkEach_iff] at h
      exact ih c hc (h.2 c hc) hl
  | any cs ih =>
      rw [leaves, leavesOfEach_eq_flatMap] at hl
      obtain ⟨c, hc, hl⟩ := List.mem_flatMap.mp hl
      rw [check, check_bind_iff, checkEach_iff] at h
      exact ih c hc (h.2 c hc) hl

end Condition

/-! ### State changes -/

namespace Change

/-- Induction over a state change and its branches. -/
theorem induction {P : Change → Prop} (assign : ∀ path m, P (.assign path m))
    (conditional : ∀ c yes no, (∀ change ∈ yes, P change) → (∀ change ∈ no, P change) →
      P (.conditional c yes no)) : ∀ change, P change
  | .assign path m => assign path m
  | .conditional c none none => conditional c none none (by simp) (by simp)
  | .conditional c (some yes) none =>
      conditional c (some yes) none (by simpa using induction assign conditional yes) (by simp)
  | .conditional c none (some no) =>
      conditional c none (some no) (by simp) (by simpa using induction assign conditional no)
  | .conditional c (some yes) (some no) =>
      conditional c (some yes) (some no) (by simpa using induction assign conditional yes)
        (by simpa using induction assign conditional no)

theorem checkBranch_iff {t : Table} {branch : Option Change} :
    checkBranch t branch = .ok () ↔ ∀ change ∈ branch, change.check t = .ok () := by
  cases branch <;> simp [checkBranch]

theorem check_assign_iff {t : Table} {path : List Locator} {m : Term} :
    (Change.assign path m).check t = .ok () ↔ Locator.Sound t path ∧ m.Sound t := by
  simp only [check, check_bind_iff, refuseIf_eq_ok_iff, List.isEmpty_eq_false_iff,
    Term.check_eq_ok_iff, Locator.Sound, and_assoc]

theorem check_conditional_iff {t : Table} {c : Condition} {yes no : Option Change} :
    (Change.conditional c yes no).check t = .ok () ↔
      (yes.isSome = true ∨ no.isSome = true) ∧ c.check t = .ok () ∧
        (∀ change ∈ yes, change.check t = .ok ()) ∧ ∀ change ∈ no, change.check t = .ok () := by
  simp only [check, check_bind_iff, refuseIf_eq_ok_iff, checkBranch_iff]
  cases yes <;> cases no <;> simp

end Change

/-! ### Schemas -/

namespace Handler

theorem check_eq_ok_iff {t : Table} {h : Handler} :
    h.check t = .ok () ↔ h.pattern ≠ .exact "" ∧ ∀ change ∈ h.changes, change.check t = .ok () := by
  rw [check, check_bind_iff, refuseIf_eq_ok_iff, check_forM_iff]
  simp

end Handler

namespace Schema

/-- The schema was made of handlers and locations, or of a document. -/
inductive Accepted : Schema → Prop
  | made {handlers : List Handler} {table : Table} {schema : Schema} :
      Schema.make handlers table = .ok schema → Accepted schema
  | read {d : Document} {schema : Schema} : d.toSchema = .ok schema → Accepted schema

variable {schema : Schema}

theorem check_eq_ok_iff : schema.check = .ok () ↔
    schema.table.check = .ok () ∧ ∀ h ∈ schema.handlers, h.check schema.table = .ok () := by
  simp only [check, check_bind_iff, check_forM_iff, mapError_eq_ok_iff]

theorem make_eq_ok_iff {handlers : List Handler} {table : Table} :
    Schema.make handlers table = .ok schema ↔
      schema = ⟨handlers, table⟩ ∧ schema.check = .ok () := by
  simp only [make, check_bind_iff, pure, Except.pure, Except.ok.injEq]
  constructor
  · rintro ⟨h, rfl⟩
    exact ⟨rfl, h⟩
  · rintro ⟨rfl, h⟩
    exact ⟨h, rfl⟩

/-- A schema is accepted if it passes its check. -/
theorem accepted_iff : schema.Accepted ↔ schema.check = .ok () := by
  constructor
  · intro h
    cases h with
    | made h => exact (make_eq_ok_iff.mp h).2
    | @read d _ h =>
        unfold Document.toSchema at h
        cases hd : d.substitute with
        | error e =>
            rw [hd] at h
            cases h
        | ok parts =>
            rw [hd] at h
            exact (make_eq_ok_iff.mp h).2
  · exact fun h => .made (make_eq_ok_iff.mpr ⟨rfl, h⟩)

end Schema
end Chronicle
