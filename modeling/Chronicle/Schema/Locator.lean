import Chronicle.Text.Literal

/-!
# Locators

A path is a list of locators, taken from left to right; each leads from one attribute to another.

| locator | leads to | described as |
| --- | --- | --- |
| `constant x` | the child named `x` | `x` |
| `eventField f` | the child named by the event's field `f` | `{field:f}` |
| `query p` | the child named by the value of the attribute at `p` | `{query:p}` |
| `location l` | wherever the path of the location `l` leads | `{location:l}` |
-/

namespace Chronicle

/-- One step of a path of attributes. -/
inductive Locator
  | constant (name : String)
  | eventField (name : String)
  | query (path : List Locator)
  | location (name : String)
deriving Inhabited

namespace Locator

mutual

/-- A locator as it is shown in messages. -/
def describe : Locator → String
  | .constant name => name
  | .eventField name => "\x7bfield:" ++ name ++ "\x7d"
  | .query path => "\x7bquery:" ++ "/".intercalate (describeEach path) ++ "\x7d"
  | .location name => "\x7blocation:" ++ name ++ "\x7d"

/-- The locators of a path as they are shown in messages. -/
def describeEach : List Locator → List String
  | [] => []
  | l :: rest => l.describe :: describeEach rest

end

/-- A path as it is shown in messages, its locators separated by slashes. -/
def describePath (path : List Locator) : String :=
  "/".intercalate (describeEach path)

mutual

/-- A locator spelled out as a term. -/
def spell : Locator → String
  | .constant name => "Constant \x7b name: " ++ Text.literal name ++ " \x7d"
  | .eventField name => "EventField \x7b name: " ++ Text.literal name ++ " \x7d"
  | .query path => "Query \x7b path: [" ++ ", ".intercalate (spellEach path) ++ "] \x7d"
  | .location name => "Location \x7b name: " ++ Text.literal name ++ " \x7d"

/-- The locators of a path spelled out as terms. -/
def spellEach : List Locator → List String
  | [] => []
  | l :: rest => l.spell :: spellEach rest

end

mutual

/-- The locations that a locator names, those inside queries included, from left to right. -/
def references : Locator → List String
  | .location name => [name]
  | .query path => referencesEach path
  | _ => []

/-- The locations that the locators of a path name. -/
def referencesEach : List Locator → List String
  | [] => []
  | l :: rest => l.references ++ referencesEach rest

end

@[simp] theorem describeEach_eq_map (path : List Locator) :
    describeEach path = path.map describe := by
  induction path with
  | nil => rfl
  | cons l rest ih => simp [describeEach, ih]

@[simp] theorem referencesEach_eq_flatMap (path : List Locator) :
    referencesEach path = path.flatMap references := by
  induction path with
  | nil => rfl
  | cons l rest ih => simp [referencesEach, ih]

end Locator
end Chronicle
