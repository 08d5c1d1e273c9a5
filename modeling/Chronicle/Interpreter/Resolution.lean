import Chronicle.Event.Basic
import Chronicle.Interpreter.Observed
import Chronicle.Schema.Location
import Chronicle.Store.Basic

/-!
# Resolving paths

A path is resolved from left to right, each locator from the attribute that the one before led to.
There are two ways:

* *finding* asks the store for the child of each name and leaves the store alone;
* *growing* creates the children that are not there. What was created stays when a later locator
  has no name.

Both take a name from a query by finding the queried path from the root, and expand a location in
place. A location may be inside itself, and its path is `endless` when the expansion comes back to
where it was. What a location leads to while a path is being found hangs on the location and on the
attribute it is expanded at, so no more expansions inside one another need be followed than there
are such pairs. While a path is being grown the names hang on the location alone, since an attribute
that was just created holds nothing, so a location inside itself that is reached at all is endless.
-/

namespace Chronicle

/-- What a path is resolved against, besides the store. -/
structure Scope where
  table : Table
  event : Event

/-- Why a path leads nowhere. -/
inductive Unresolved
  | absent
  | endless
  | unknownParent (u : UnknownParent)
deriving DecidableEq, Repr

namespace Store

/-- Looks for the child of the given name. -/
def lookup (s : Store) (q : Quark) (name : String) : Observed (Except Unresolved Quark) :=
  { lookups := 1
    val :=
      match s.tree.child? q name with
      | some child => .ok child
      | none => .error .absent }

/-- Looks for the child whose name is given, if a name is given. -/
def lookupNamed (s : Store) (q : Quark) : Option String → Observed (Except Unresolved Quark)
  | some name => s.lookup q name
  | none => pure (.error .absent)

end Store

namespace Event

/-- The name that a field gives; a field that the event does not have is remarked on. -/
def nameIn (e : Event) (field : String) : Observed (Option String) :=
  let name := e.segment? field
  { val := name
    remarks :=
      if name.isNone && field != sourceField then [.fieldMissing e.name field] else [] }

end Event

/-- How a location is expanded while a path is being found. -/
abbrev Finder := String → Quark → Observed (Except Unresolved Quark)

namespace Locator

mutual

/-- The attribute that a locator leads to from `q`, when `expand` expands locations. -/
def findWith (s : Store) (e : Event) (expand : Finder) (q : Quark) :
    Locator → Observed (Except Unresolved Quark)
  | .constant name => s.lookup q name
  | .eventField name => do s.lookupNamed q (← e.nameIn name)
  | .query path => do
    match ← findEachWith s e expand Quark.root path with
    | .ok target => s.lookupNamed q (s.ongoing target).segment?
    | .error u => pure (.error u)
  | .location name => expand name q

/-- The attribute that a path leads to from `q`, when `expand` expands locations. -/
def findEachWith (s : Store) (e : Event) (expand : Finder) (q : Quark) :
    List Locator → Observed (Except Unresolved Quark)
  | [] => pure (.ok q)
  | l :: rest => do
    match ← l.findWith s e expand q with
    | .ok next => findEachWith s e expand next rest
    | .error u => pure (.error u)

end

end Locator

namespace Scope

/-- What comes of a location that is not expanded; one that the table does not have is remarked
on. -/
def unexpanded (scope : Scope) (name : String) : Observed (Except Unresolved Quark) :=
  if scope.table.defines name then pure (.error .endless)
  else { remarks := [.locationUnknown name], val := .error .absent }

/-- Expands a location while finding, with `budget` more locations inside one another. -/
def expandFinding (scope : Scope) (s : Store) : (budget : Nat) → Finder
  | 0, name, _ => scope.unexpanded name
  | budget + 1, name, q =>
    match scope.table.path? name with
    | some path => Locator.findEachWith s scope.event (scope.expandFinding s budget) q path
    | none => scope.unexpanded name

/-- The pairs of a location and an attribute, where the root and the attribute that a path starts
from count as two more attributes. -/
def findingBudget (scope : Scope) (s : Store) : Nat :=
  scope.table.size * (s.tree.size + 2)

/-- The attribute that a path leads to from `q`. -/
def find (scope : Scope) (s : Store) (q : Quark) (path : List Locator) :
    Observed (Except Unresolved Quark) :=
  Locator.findEachWith s scope.event (scope.expandFinding s (scope.findingBudget s)) q path

/-- What the attribute at a path from the root holds, if there is such an attribute. -/
def valueAt (scope : Scope) (s : Store) (path : List Locator) : Observed (Option Value) := do
  match ← scope.find s Quark.root path with
  | .ok q => pure (some (s.ongoing q))
  | .error _ => pure none

end Scope

/-- Where growing along a path came to, the store with what was created on the way, and what was
observed. -/
structure Growth extends Observation where
  result : Except Unresolved Quark
  store : Store

namespace Store

/-- Grows the child whose name is given, if a name is given. -/
def grow (s : Store) (q : Quark) (name : Observed (Option String)) : Growth :=
  match name.val with
  | some segment =>
    match s.create q segment with
    | .ok (child, s) => ⟨name.toObservation, .ok child, s⟩
    | .error u => ⟨name.toObservation, .error (.unknownParent u), s⟩
  | none => ⟨name.toObservation, .error .absent, s⟩

end Store

/-- How a location is expanded while a path is being grown. -/
abbrev Grower := String → Store → Quark → Growth

namespace Locator

/-- The attribute that a locator leads to from `q`, created if it is not there, when `expand`
expands locations. -/
def growWith (scope : Scope) (expand : Grower) (s : Store) (q : Quark) : Locator → Growth
  | .constant name => s.grow q (pure (some name))
  | .eventField name => s.grow q (scope.event.nameIn name)
  | .query path => s.grow q do pure ((← scope.valueAt s path).bind Value.segment?)
  | .location name => expand name s q

/-- The attribute that a path leads to from `q`, created if it is not there, when `expand` expands
locations. -/
def growEachWith (scope : Scope) (expand : Grower) (s : Store) (q : Quark) :
    List Locator → Growth
  | [] => ⟨{}, .ok q, s⟩
  | l :: rest =>
    let first := l.growWith scope expand s q
    match first.result with
    | .ok next =>
      let last := growEachWith scope expand first.store next rest
      { last with toObservation := first.toObservation ++ last.toObservation }
    | .error _ => first

end Locator

namespace Scope

/-- What comes of a location that is not expanded while growing: nothing is created. -/
def ungrown (scope : Scope) (name : String) (s : Store) : Growth :=
  ⟨(scope.unexpanded name).toObservation, (scope.unexpanded name).val, s⟩

/-- Expands a location while growing, with `budget` more locations inside one another. -/
def expandGrowing (scope : Scope) : (budget : Nat) → Grower
  | 0, name, s, _ => scope.ungrown name s
  | budget + 1, name, s, q =>
    match scope.table.path? name with
    | some path => Locator.growEachWith scope (scope.expandGrowing budget) s q path
    | none => scope.ungrown name s

/-- The attribute that a path leads to from `q`, created if it is not there. -/
def grow (scope : Scope) (s : Store) (q : Quark) (path : List Locator) : Growth :=
  Locator.growEachWith scope (scope.expandGrowing scope.table.size) s q path

end Scope
end Chronicle
