import Chronicle.Proofs.Schema.Settled
import Chronicle.Proofs.Schema.Sound
import Chronicle.Schema.Document
import Mathlib.Data.List.Basic

/-!
# Places for references

A reference may stand in two kinds of places: where a constant has its name, and where there is a
literal. The places of a document are listed in order, the locations first, then the handlers, and
in each the parts from left to right (`Document.places`). They are all that there are, however deep
they lie (`Document.mem_places_iff`).

A document can be given other names and literals in its places (`Document.mapPlaces`). Then each
place is filled by itself (`Document.places_mapPlaces`), and what the places were filled with before
does not count (`Document.mapPlaces_mapPlaces`).
-/

namespace Chronicle

/-- What stands in a place where a reference may stand. -/
inductive Place
  | name (text : String)
  | literal (v : Value)
deriving DecidableEq, Repr

/-- The place with something else in it. -/
def Place.map (f : String → String) (g : Value → Value) : Place → Place
  | .name text => .name (f text)
  | .literal v => .literal (g v)

/-! ### The places of a document -/

namespace Locator

mutual

/-- The places of a locator, from left to right. -/
def places : Locator → List Place
  | .constant name => [.name name]
  | .query path => placesOfEach path
  | .eventField _ => []
  | .location _ => []

/-- The places of a path. -/
def placesOfEach : List Locator → List Place
  | [] => []
  | l :: rest => l.places ++ placesOfEach rest

end

/-- A constant has the name in a path, or in the path of a query, however deep. -/
inductive Names (name : String) : List Locator → Prop
  | constant {path : List Locator} : .constant name ∈ path → Names name path
  | query {path inner : List Locator} : .query inner ∈ path → Names name inner → Names name path

variable {path : List Locator} {text : String} {p : Place}

theorem placesOfEach_eq_flatMap (path : List Locator) :
    placesOfEach path = path.flatMap places := by
  induction path with
  | nil => rfl
  | cons l rest ih => rw [placesOfEach, ih, List.flatMap_cons]

theorem Names.mono {name : String} {more : List Locator} (h : Names name path)
    (hsub : path ⊆ more) : Names name more := by
  cases h with
  | constant hmem => exact .constant (hsub hmem)
  | query hmem h => exact .query (hsub hmem) h

/-- **The places of a path are the names of its constants.** -/
theorem mem_placesOfEach_iff :
    p ∈ placesOfEach path ↔ ∃ text, p = .name text ∧ Names text path := by
  constructor
  · intro h
    have hlater : ∀ {l : Locator} {rest : List Locator},
        (∃ text, p = .name text ∧ Names text rest) →
          ∃ text, p = .name text ∧ Names text (l :: rest) :=
      fun ⟨text, hp, hnames⟩ => ⟨text, hp, hnames.mono (List.subset_cons_self _ _)⟩
    induction path using path_induction with
    | nil => cases h
    | constant name rest ih =>
        rcases List.mem_append.mp h with h | h
        · exact ⟨name, List.mem_singleton.mp h, .constant List.mem_cons_self⟩
        · exact hlater (ih h)
    | eventField name rest ih => exact hlater (ih h)
    | query inner rest ihp ih =>
        rcases List.mem_append.mp h with h | h
        · obtain ⟨text, hp, hnames⟩ := ihp h
          exact ⟨text, hp, .query List.mem_cons_self hnames⟩
        · exact hlater (ih h)
    | location name rest ih => exact hlater (ih h)
  · rintro ⟨text, rfl, h⟩
    induction h with
    | constant hmem =>
        rw [placesOfEach_eq_flatMap]
        exact List.mem_flatMap.mpr ⟨_, hmem, List.mem_singleton.mpr rfl⟩
    | query hmem _ ih =>
        rw [placesOfEach_eq_flatMap]
        exact List.mem_flatMap.mpr ⟨_, hmem, ih⟩

end Locator

/-- A piece of a document that has places: a path, or a term. -/
inductive Piece
  | path (path : List Locator)
  | term (m : Term)

namespace Piece

/-- The places of a piece: a term has those of the path that it queries, or a literal. -/
def places : Piece → List Place
  | .path ls => Locator.placesOfEach ls
  | .term m =>
    match m.source with
    | .literal v => [.literal v]
    | .query ls => Locator.placesOfEach ls
    | _ => []

/-- A place is in a piece. -/
inductive Holds : Piece → Place → Prop
  | name {ls : List Locator} {text : String} : Locator.Names text ls →
      Holds (.path ls) (.name text)
  | queried {m : Term} {ls : List Locator} {text : String} : m.source = .query ls →
      Locator.Names text ls → Holds (.term m) (.name text)
  | literal {m : Term} {v : Value} : m.source = .literal v → Holds (.term m) (.literal v)

theorem mem_places_iff {piece : Piece} {p : Place} : p ∈ piece.places ↔ piece.Holds p := by
  cases piece with
  | path ls =>
      rw [places, Locator.mem_placesOfEach_iff]
      constructor
      · rintro ⟨text, rfl, h⟩
        exact .name h
      · intro h
        cases h with
        | name h => exact ⟨_, rfl, h⟩
  | term m =>
      rw [places]
      constructor
      · intro h
        split at h
        · next v hv =>
          obtain rfl := List.mem_singleton.mp h
          exact .literal hv
        · next ls hls =>
          obtain ⟨text, rfl, hnames⟩ := Locator.mem_placesOfEach_iff.mp h
          exact .queried hls hnames
        · cases h
      · intro h
        cases h with
        | queried hls h =>
            simp only [hls]
            exact Locator.mem_placesOfEach_iff.mpr ⟨_, rfl, h⟩
        | literal hv => simp only [hv, List.mem_singleton]

end Piece

/-- The piece on the left side of a comparison. -/
def Operand.piece : Operand → Piece
  | .attribute path => .path path
  | .term m => .term m

/-- The pieces of a comparison: what is compared, and what is expected. -/
def Comparison.pieces (l : Comparison) : List Piece :=
  [l.operand.piece, .term l.expected]

namespace Condition

/-- The pieces of a condition, from left to right. -/
def pieces (c : Condition) : List Piece :=
  c.leaves.flatMap Comparison.pieces

theorem pieces_all (cs : List Condition) : (Condition.all cs).pieces = cs.flatMap pieces := by
  rw [pieces, leaves, leavesOfEach_eq_flatMap, List.flatMap_assoc]
  rfl

theorem pieces_any (cs : List Condition) : (Condition.any cs).pieces = cs.flatMap pieces :=
  pieces_all cs

/-- A piece is in a condition, however deep. -/
inductive Has (piece : Piece) : Condition → Prop
  | read {path : List Locator} {expected : Term} : piece = .path path →
      Has piece (.leaf (.attribute path) expected)
  | compared {m expected : Term} : piece = .term m → Has piece (.leaf (.term m) expected)
  | expected {operand : Operand} {expected : Term} : piece = .term expected →
      Has piece (.leaf operand expected)
  | not {c : Condition} : Has piece c → Has piece (.not c)
  | all {c : Condition} {cs : List Condition} : c ∈ cs → Has piece c → Has piece (.all cs)
  | any {c : Condition} {cs : List Condition} : c ∈ cs → Has piece c → Has piece (.any cs)

theorem mem_pieces_iff {c : Condition} {piece : Piece} : piece ∈ c.pieces ↔ c.Has piece := by
  constructor
  · intro h
    induction c using induction with
    | leaf operand expected =>
        obtain ⟨l, hl, h⟩ := List.mem_flatMap.mp h
        obtain rfl := List.mem_singleton.mp hl
        rcases List.mem_cons.mp h with h | h
        · rcases operand with path | m
          · exact .read h
          · exact .compared h
        · exact .expected (List.mem_singleton.mp h)
    | not c ih => exact .not (ih h)
    | all cs ih =>
        rw [pieces_all] at h
        obtain ⟨c, hc, h⟩ := List.mem_flatMap.mp h
        exact .all hc (ih c hc h)
    | any cs ih =>
        rw [pieces_any] at h
        obtain ⟨c, hc, h⟩ := List.mem_flatMap.mp h
        exact .any hc (ih c hc h)
  · intro h
    induction h with
    | read h => exact h ▸ List.mem_cons_self
    | compared h => exact h ▸ List.mem_cons_self
    | expected h => exact h ▸ List.mem_cons_of_mem _ List.mem_cons_self
    | not _ ih => exact ih
    | all hc _ ih =>
        rw [pieces_all]
        exact List.mem_flatMap.mpr ⟨_, hc, ih⟩
    | any hc _ ih =>
        rw [pieces_any]
        exact List.mem_flatMap.mpr ⟨_, hc, ih⟩

end Condition

namespace Change

mutual

/-- The pieces of a state change, from left to right. -/
def pieces : Change → List Piece
  | .assign path m => [.path path, .term m]
  | .conditional c yes no => c.pieces ++ piecesOfBranch yes ++ piecesOfBranch no

/-- The pieces of a branch. -/
def piecesOfBranch : Option Change → List Piece
  | none => []
  | some change => change.pieces

end

/-- A piece is in a state change, however deep. -/
inductive Has (piece : Piece) : Change → Prop
  | target {path : List Locator} {m : Term} : piece = .path path → Has piece (.assign path m)
  | assigned {path : List Locator} {m : Term} : piece = .term m → Has piece (.assign path m)
  | condition {c : Condition} {yes no : Option Change} : c.Has piece →
      Has piece (.conditional c yes no)
  | yes {c : Condition} {change : Change} {no : Option Change} : Has piece change →
      Has piece (.conditional c (some change) no)
  | no {c : Condition} {yes : Option Change} {change : Change} : Has piece change →
      Has piece (.conditional c yes (some change))

theorem mem_pieces_iff {change : Change} {piece : Piece} :
    piece ∈ change.pieces ↔ change.Has piece := by
  constructor
  · intro h
    induction change using induction with
    | assign path m =>
        rcases List.mem_cons.mp h with h | h
        · exact .target h
        · exact .assigned (List.mem_singleton.mp h)
    | conditional c yes no ihyes ihno =>
        rw [pieces, List.mem_append, List.mem_append] at h
        rcases h with (h | h) | h
        · exact .condition (Condition.mem_pieces_iff.mp h)
        · cases yes with
          | none => cases h
          | some change => exact .yes (ihyes change rfl h)
        · cases no with
          | none => cases h
          | some change => exact .no (ihno change rfl h)
  · intro h
    induction h with
    | target h => exact h ▸ List.mem_cons_self
    | assigned h => exact h ▸ List.mem_cons_of_mem _ List.mem_cons_self
    | condition h =>
        exact List.mem_append_left _ (List.mem_append_left _ (Condition.mem_pieces_iff.mpr h))
    | yes _ ih => exact List.mem_append_left _ (List.mem_append_right _ ih)
    | no _ ih => exact List.mem_append_right _ ih

end Change

/-- The pieces of a handler, in order. -/
def Handler.pieces (h : Handler) : List Piece :=
  h.changes.flatMap Change.pieces

namespace Document

/-- The pieces of a document in order, the locations first. -/
def pieces (d : Document) : List Piece :=
  d.locations.map (fun l => .path l.path) ++ d.handlers.flatMap Handler.pieces

/-- The places of a document in order. -/
def places (d : Document) : List Place :=
  d.pieces.flatMap Piece.places

/-- A piece is in a location, or in a state change of a handler. -/
inductive Has (d : Document) : Piece → Prop
  | location {l : Location} : l ∈ d.locations → Has d (.path l.path)
  | handler {h : Handler} {change : Change} {piece : Piece} : h ∈ d.handlers → change ∈ h.changes →
      change.Has piece → Has d piece

/-- A place is in a document. -/
def Holds (d : Document) (p : Place) : Prop :=
  ∃ piece, d.Has piece ∧ piece.Holds p

theorem mem_pieces_iff {d : Document} {piece : Piece} : piece ∈ d.pieces ↔ d.Has piece := by
  rw [pieces, List.mem_append, List.mem_map, List.mem_flatMap]
  constructor
  · rintro (⟨l, hl, rfl⟩ | ⟨h, hh, hpiece⟩)
    · exact .location hl
    · obtain ⟨change, hchange, hpiece⟩ := List.mem_flatMap.mp hpiece
      exact .handler hh hchange (Change.mem_pieces_iff.mp hpiece)
  · rintro (hl | ⟨hh, hchange, hpiece⟩)
    · exact .inl ⟨_, hl, rfl⟩
    · exact .inr ⟨_, hh, List.mem_flatMap.mpr ⟨_, hchange, Change.mem_pieces_iff.mpr hpiece⟩⟩

/-- **The places of a document are all that there are.** -/
theorem mem_places_iff {d : Document} {p : Place} : p ∈ d.places ↔ d.Holds p := by
  rw [places, List.mem_flatMap]
  exact exists_congr fun piece => and_congr mem_pieces_iff Piece.mem_places_iff

end Document

/-! ### Filling places -/

section

variable (f : String → String) (g : Value → Value)

mutual

/-- A locator with other names. -/
def Locator.mapNames : Locator → Locator
  | .constant name => .constant (f name)
  | .query path => .query (mapNamesOfEach path)
  | .eventField name => .eventField name
  | .location name => .location name

/-- A path with other names. -/
def Locator.mapNamesOfEach : List Locator → List Locator
  | [] => []
  | l :: rest => l.mapNames :: mapNamesOfEach rest

end

/-- A location with other names in its path. -/
def Location.mapNames (l : Location) : Location :=
  ⟨l.name, Locator.mapNamesOfEach f l.path⟩

/-- A source with another literal, or with other names in its path. -/
def Source.mapPlaces : Source → Source
  | .literal v => .literal (g v)
  | .query path => .query (Locator.mapNamesOfEach f path)
  | .eventField name kind => .eventField name kind
  | .eventName => .eventName
  | .delete => .delete

/-- A term with something else in its places. -/
def Term.mapPlaces (m : Term) : Term :=
  { m with source := m.source.mapPlaces f g }

/-- The left side of a comparison with something else in its places. -/
def Operand.mapPlaces : Operand → Operand
  | .attribute path => .attribute (Locator.mapNamesOfEach f path)
  | .term m => .term (m.mapPlaces f g)

mutual

/-- A condition with something else in its places. -/
def Condition.mapPlaces : Condition → Condition
  | .leaf operand expected => .leaf (operand.mapPlaces f g) (expected.mapPlaces f g)
  | .not c => .not c.mapPlaces
  | .all cs => .all (mapPlacesOfEach cs)
  | .any cs => .any (mapPlacesOfEach cs)

/-- Conditions with something else in their places. -/
def Condition.mapPlacesOfEach : List Condition → List Condition
  | [] => []
  | c :: rest => c.mapPlaces :: mapPlacesOfEach rest

end

mutual

/-- A state change with something else in its places. -/
def Change.mapPlaces : Change → Change
  | .assign path m => .assign (Locator.mapNamesOfEach f path) (m.mapPlaces f g)
  | .conditional c yes no =>
    .conditional (c.mapPlaces f g) (mapPlacesOfBranch yes) (mapPlacesOfBranch no)

/-- A branch with something else in its places. -/
def Change.mapPlacesOfBranch : Option Change → Option Change
  | none => none
  | some change => some change.mapPlaces

end

/-- A handler with something else in the places of its state changes. -/
def Handler.mapPlaces (h : Handler) : Handler :=
  ⟨h.pattern, h.changes.map (Change.mapPlaces f g)⟩

/-- A document with something else in its places. -/
def Document.mapPlaces (d : Document) : Document :=
  { d with
    locations := d.locations.map (Location.mapNames f)
    handlers := d.handlers.map (Handler.mapPlaces f g) }

/-- A piece with something else in its places. -/
def Piece.mapPlaces : Piece → Piece
  | .path ls => .path (Locator.mapNamesOfEach f ls)
  | .term m => .term (m.mapPlaces f g)

end

section

variable {f : String → String} {g : Value → Value}

theorem Locator.placesOfEach_mapNamesOfEach (path : List Locator) :
    placesOfEach (mapNamesOfEach f path) = (placesOfEach path).map (Place.map f g) := by
  induction path using path_induction with
  | nil => rfl
  | constant name rest ih => exact congrArg (_ :: ·) ih
  | eventField name rest ih => exact ih
  | query inner rest ihp ih =>
      rw [placesOfEach, List.map_append, ← ih]
      exact congrArg (· ++ _) ihp
  | location name rest ih => exact ih

/-- The places of a piece are filled, each by itself. -/
theorem Piece.places_mapPlaces (piece : Piece) :
    (piece.mapPlaces f g).places = piece.places.map (Place.map f g) := by
  cases piece with
  | path ls => exact Locator.placesOfEach_mapNamesOfEach ls
  | term m =>
      obtain ⟨source, increment, stack⟩ := m
      cases source with
      | query ls => exact Locator.placesOfEach_mapNamesOfEach ls
      | _ => rfl

theorem Condition.mapPlacesOfEach_eq_map (cs : List Condition) :
    mapPlacesOfEach f g cs = cs.map (mapPlaces f g) := by
  induction cs with
  | nil => rfl
  | cons c rest ih => rw [mapPlacesOfEach, ih, List.map_cons]

theorem Condition.pieces_mapPlaces (c : Condition) :
    (c.mapPlaces f g).pieces = c.pieces.map (Piece.mapPlaces f g) := by
  have heach : ∀ cs : List Condition,
      (∀ c ∈ cs, (c.mapPlaces f g).pieces = c.pieces.map (Piece.mapPlaces f g)) →
        (mapPlacesOfEach f g cs).flatMap pieces = (cs.flatMap pieces).map (Piece.mapPlaces f g) :=
    fun cs ih => by
      rw [mapPlacesOfEach_eq_map, List.flatMap_map, List.map_flatMap]
      exact List.flatMap_congr ih
  induction c using induction with
  | leaf operand expected => rcases operand with path | m <;> rfl
  | not c ih => exact ih
  | all cs ih => rw [mapPlaces, pieces_all, pieces_all, heach cs ih]
  | any cs ih => rw [mapPlaces, pieces_any, pieces_any, heach cs ih]

theorem Change.pieces_mapPlaces (change : Change) :
    (change.mapPlaces f g).pieces = change.pieces.map (Piece.mapPlaces f g) := by
  have hbranch : ∀ branch : Option Change,
      (∀ change ∈ branch, (change.mapPlaces f g).pieces = change.pieces.map (Piece.mapPlaces f g)) →
        piecesOfBranch (mapPlacesOfBranch f g branch) =
          (piecesOfBranch branch).map (Piece.mapPlaces f g) := fun branch ih => by
    cases branch with
    | none => rfl
    | some change => exact ih change rfl
  induction change using induction with
  | assign path m => rfl
  | conditional c yes no ihyes ihno =>
      rw [mapPlaces, pieces, pieces, List.map_append, List.map_append, c.pieces_mapPlaces,
        hbranch yes ihyes, hbranch no ihno]

/-- **The places of a document are filled, each by itself.** -/
theorem Document.places_mapPlaces (d : Document) :
    (d.mapPlaces f g).places = d.places.map (Place.map f g) := by
  have hhandler : ∀ h : Handler, (h.mapPlaces f g).pieces = h.pieces.map (Piece.mapPlaces f g) :=
    fun h => by
      rw [Handler.mapPlaces, Handler.pieces, Handler.pieces, List.flatMap_map, List.map_flatMap]
      exact List.flatMap_congr fun change _ => change.pieces_mapPlaces
  have hpieces : (d.mapPlaces f g).pieces = d.pieces.map (Piece.mapPlaces f g) := by
    simp only [mapPlaces, pieces, List.map_append, List.map_map, List.flatMap_map,
      List.map_flatMap, hhandler]
    rfl
  rw [places, hpieces, List.flatMap_map, places, List.map_flatMap]
  exact List.flatMap_congr fun piece _ => piece.places_mapPlaces

end

section

variable (f f' : String → String) (g g' : Value → Value)

theorem Locator.mapNamesOfEach_mapNamesOfEach (path : List Locator) :
    mapNamesOfEach f' (mapNamesOfEach f path) = mapNamesOfEach (f' ∘ f) path := by
  induction path using path_induction with
  | nil => rfl
  | constant name rest ih => exact congrArg (_ :: ·) ih
  | eventField name rest ih => exact congrArg (_ :: ·) ih
  | query inner rest ihp ih => exact congrArg₂ (fun p r => .query p :: r) ihp ih
  | location name rest ih => exact congrArg (_ :: ·) ih

theorem Term.mapPlaces_mapPlaces (m : Term) :
    (m.mapPlaces f g).mapPlaces f' g' = m.mapPlaces (f' ∘ f) (g' ∘ g) := by
  obtain ⟨source, increment, stack⟩ := m
  cases source with
  | query path =>
      simp only [mapPlaces, Source.mapPlaces, Locator.mapNamesOfEach_mapNamesOfEach]
  | _ => rfl

theorem Condition.mapPlaces_mapPlaces (c : Condition) :
    (c.mapPlaces f g).mapPlaces f' g' = c.mapPlaces (f' ∘ f) (g' ∘ g) := by
  have heach : ∀ cs : List Condition,
      (∀ c ∈ cs, (c.mapPlaces f g).mapPlaces f' g' = c.mapPlaces (f' ∘ f) (g' ∘ g)) →
        mapPlacesOfEach f' g' (mapPlacesOfEach f g cs) =
          mapPlacesOfEach (f' ∘ f) (g' ∘ g) cs := fun cs ih => by
    simp only [mapPlacesOfEach_eq_map, List.map_map]
    exact List.map_congr_left ih
  induction c using induction with
  | leaf operand expected =>
      rcases operand with path | m
      · simp only [mapPlaces, Operand.mapPlaces, Term.mapPlaces_mapPlaces,
          Locator.mapNamesOfEach_mapNamesOfEach]
      · simp only [mapPlaces, Operand.mapPlaces, Term.mapPlaces_mapPlaces]
  | not c ih => exact congrArg Condition.not ih
  | all cs ih => exact congrArg Condition.all (heach cs ih)
  | any cs ih => exact congrArg Condition.any (heach cs ih)

theorem Change.mapPlaces_mapPlaces (change : Change) :
    (change.mapPlaces f g).mapPlaces f' g' = change.mapPlaces (f' ∘ f) (g' ∘ g) := by
  have hbranch : ∀ branch : Option Change, (∀ change ∈ branch,
      (change.mapPlaces f g).mapPlaces f' g' = change.mapPlaces (f' ∘ f) (g' ∘ g)) →
        mapPlacesOfBranch f' g' (mapPlacesOfBranch f g branch) =
          mapPlacesOfBranch (f' ∘ f) (g' ∘ g) branch := fun branch ih => by
    cases branch with
    | none => rfl
    | some change => exact congrArg some (ih change rfl)
  induction change using induction with
  | assign path m =>
      simp only [mapPlaces, Term.mapPlaces_mapPlaces, Locator.mapNamesOfEach_mapNamesOfEach]
  | conditional c yes no ihyes ihno =>
      simp only [mapPlaces, Condition.mapPlaces_mapPlaces, hbranch yes ihyes, hbranch no ihno]

/-- What a place was filled with before does not count. -/
theorem Document.mapPlaces_mapPlaces (d : Document) :
    (d.mapPlaces f g).mapPlaces f' g' = d.mapPlaces (f' ∘ f) (g' ∘ g) := by
  have hlocation : ∀ l : Location, (l.mapNames f).mapNames f' = l.mapNames (f' ∘ f) := fun l => by
    simp only [Location.mapNames, Locator.mapNamesOfEach_mapNamesOfEach]
  have hhandler : ∀ h : Handler,
      (h.mapPlaces f g).mapPlaces f' g' = h.mapPlaces (f' ∘ f) (g' ∘ g) := fun h => by
    simp only [Handler.mapPlaces, List.map_map]
    congr 1
    exact List.map_congr_left fun change _ => change.mapPlaces_mapPlaces f f' g g'
  simp only [mapPlaces, List.map_map]
  congr 1
  · exact List.map_congr_left fun l _ => hlocation l
  · exact List.map_congr_left fun h _ => hhandler h

end

end Chronicle
