import Chronicle.Schema.Locator

/-!
# Locations

A location is a path with a name, and a table holds locations under distinct names: one that is
added under a name that is taken replaces the other, in its place.

A locator may name a location, so the path of a location may pass through others. A location is
*settled* in round `n + 1` when every location of the table that its path names is settled in round
`n`; none is settled in round 0. A table in which all are settled after as many rounds as it has
locations has no location inside itself.
-/

namespace Chronicle

/-- A path with a name. -/
structure Location where
  name : String
  path : List Locator

/-- Locations under distinct names. -/
structure Table where
  locations : List Location := []
  distinct : (locations.map Location.name).Nodup := by simp

instance : Inhabited Table := ⟨{}⟩

namespace Table

/-- The number of locations. -/
def size (t : Table) : Nat :=
  t.locations.length

/-- The location of the given name. -/
def find? (t : Table) (name : String) : Option Location :=
  t.locations.find? fun l => l.name == name

/-- The path of the location of the given name. -/
def path? (t : Table) (name : String) : Option (List Locator) :=
  (t.find? name).map Location.path

/-- The table has a location of the given name. -/
def defines (t : Table) (name : String) : Bool :=
  (t.find? name).isSome

/-- The locations with `l` put in the place of the one of its name, or at the end. -/
def place (l : Location) : List Location → List Location
  | [] => [l]
  | m :: rest => if m.name = l.name then l :: rest else m :: place l rest

theorem mem_names_place {l : Location} {ls : List Location} {name : String} :
    name ∈ (place l ls).map Location.name ↔ name = l.name ∨ name ∈ ls.map Location.name := by
  induction ls with
  | nil => simp [place]
  | cons m rest ih =>
      by_cases h : m.name = l.name
      · simp [place, h]
      · simp only [place, if_neg h, List.map_cons, List.mem_cons, ih]
        exact or_left_comm

theorem nodup_names_place (l : Location) {ls : List Location}
    (h : (ls.map Location.name).Nodup) : ((place l ls).map Location.name).Nodup := by
  induction ls with
  | nil => simp [place]
  | cons m rest ih =>
      obtain ⟨hm, hrest⟩ := List.nodup_cons.mp h
      by_cases hl : m.name = l.name
      · rw [place, if_pos hl, List.map_cons, List.nodup_cons]
        exact ⟨hl ▸ hm, hrest⟩
      · rw [place, if_neg hl, List.map_cons, List.nodup_cons, mem_names_place]
        exact ⟨not_or.mpr ⟨hl, hm⟩, ih hrest⟩

/-- Adds a location. -/
def insert (t : Table) (l : Location) : Table :=
  ⟨place l t.locations, nodup_names_place l t.distinct⟩

/-- The table of the given locations, a later one replacing an earlier one of its name. -/
def ofList (locations : List Location) : Table :=
  locations.foldl insert {}

/-- The locations in the order of their names. -/
def sorted (t : Table) : List Location :=
  t.locations.mergeSort fun a b => decide (a.name ≤ b.name)

/-- The names of the locations that are settled in the given round. -/
def settled (t : Table) : (round : Nat) → List String
  | 0 => []
  | n + 1 =>
    let before := t.settled n
    (t.locations.filter fun l =>
      (Locator.referencesEach l.path).all fun name => !t.defines name || before.contains name).map
        Location.name

/-- The names that stay unsettled. -/
def unsettled (t : Table) : List String :=
  let done := t.settled t.size
  (t.locations.map Location.name).filter fun name => !done.contains name

/-- The unsettled location reached from `name` by going on, `steps` times, to the first unsettled
location that the path names. As many steps as the table has locations lead into a loop. -/
def follow (t : Table) (loose : List String) : (steps : Nat) → String → String
  | 0, name => name
  | n + 1, name =>
    match (Locator.referencesEach ((t.path? name).getD [])).find? loose.contains with
    | some next => t.follow loose n next
    | none => name

/-- A location inside itself, if there is one. -/
def loop? (t : Table) : Option String :=
  t.unsettled.head?.map (t.follow t.unsettled t.size)

end Table
end Chronicle
