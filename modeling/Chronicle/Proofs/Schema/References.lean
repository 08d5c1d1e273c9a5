import Chronicle.Proofs.Except
import Chronicle.Proofs.Schema.Places
import Mathlib.Data.List.Forall2

/-!
# Every reference is replaced

To replace the references of a document is to go through its places, up to the first that cannot be
filled, and then to put into every place what stands for it (`Document.fills`). So the first
reference that cannot be replaced is told, and if there is none, each place is filled once and all
else is as it was (`Document.substitutes_exactly`).

| place | what it is filled with | why it cannot be filled |
| --- | --- | --- |
| the name `$KEY` | the name that the value of `KEY` stands for | `KEY` is not defined, or `null` |
| the literal `$KEY` | the value of `KEY` | `KEY` is not defined |
| any other | what is in it | |
-/

namespace Chronicle

open Schema (Refusal)

/-! ### What is to be put into a place -/

namespace Definitions

/-- The value of a name, if it is defined. -/
def value? (d : Definitions) (key : String) : Option Value :=
  Keyed.get? key d.entries

/-- Why a place cannot be filled. -/
inductive Refuses (d : Definitions) : Place → Refusal → Prop
  | undefinedName {key : String} : d.value? key = none →
      Refuses d (.name ("$" ++ key)) (.unknownDefinition key)
  | nullName {key : String} : d.value? key = some .null →
      Refuses d (.name ("$" ++ key)) (.fault (.nullName key))
  | undefinedLiteral {key : String} : d.value? key = none →
      Refuses d (.literal (.text ("$" ++ key))) (.unknownDefinition key)

/-- What a place is filled with: a reference to a name by the name that the value can stand for, a
reference to a literal by the value itself, and everything else by itself. -/
inductive Replaces (d : Definitions) : Place → Place → Prop
  | name {key segment : String} {v : Value} : d.value? key = some v → v.segment? = some segment →
      Replaces d (.name ("$" ++ key)) (.name segment)
  | literal {key : String} {v : Value} : d.value? key = some v →
      Replaces d (.literal (.text ("$" ++ key))) (.literal v)
  | plainName {text : String} : (∀ key, text ≠ "$" ++ key) → Replaces d (.name text) (.name text)
  | plainLiteral {v : Value} : (∀ key, v ≠ .text ("$" ++ key)) →
      Replaces d (.literal v) (.literal v)

/-- Whether a place can be filled. -/
def check (d : Definitions) : Place → Except Refusal Unit
  | .name text => (d.segment text).map fun _ => ()
  | .literal v => (d.literal v).map fun _ => ()

/-- What is put in the place of a name. -/
def nameFor (d : Definitions) (text : String) : String :=
  (d.segment text).toOption.getD text

/-- What is put in the place of a literal. -/
def valueFor (d : Definitions) (v : Value) : Value :=
  (d.literal v).toOption.getD v

variable {d : Definitions} {text key : String} {v : Value} {p : Place}

theorem reference?_eq_some_iff : reference? text = some key ↔ text = "$" ++ key := by
  have hdollar : ("$" ++ key).toList = mark :: key.toList := by
    rw [String.toList_append]
    rfl
  unfold reference?
  constructor
  · intro h
    cases hc : text.toList with
    | nil => rw [hc] at h; cases h
    | cons c rest =>
        rw [hc] at h
        by_cases hmark : c = mark
        · simp only [if_pos hmark, Option.some.injEq] at h
          rw [← String.toList_inj, hdollar, hc, hmark, ← h, String.toList_ofList]
        · simp [hmark] at h
  · rintro rfl
    rw [hdollar]
    simp

theorem reference?_dollar (key : String) : reference? ("$" ++ key) = some key :=
  reference?_eq_some_iff.mpr rfl

theorem reference?_eq_none_iff : reference? text = none ↔ ∀ key, text ≠ "$" ++ key := by
  rw [Option.eq_none_iff_forall_ne_some]
  exact forall_congr' fun key => not_congr reference?_eq_some_iff

theorem segment_dollar (key : String) : d.segment ("$" ++ key) =
    match d.value? key with
    | none => .error (.unknownDefinition key)
    | some v =>
      match v.segment? with
      | some segment => .ok segment
      | none => .error (.fault (.nullName key)) := by
  rw [segment, reference?_dollar, value?]
  simp only [find]
  cases Keyed.get? key d.entries with
  | none => rfl
  | some v => rfl

theorem literal_dollar (key : String) : d.literal (.text ("$" ++ key)) =
    match d.value? key with
    | none => .error (.unknownDefinition key)
    | some v => .ok v := by
  simp only [literal, reference?_dollar, find, value?]
  cases Keyed.get? key d.entries <;> rfl

/-- A name is replaced, or it refers to nothing that could stand for it. -/
theorem name_cases (d : Definitions) (text : String) :
    (∃ r, d.segment text = .error r ∧ d.Refuses (.name text) r) ∨
      ∃ segment, d.segment text = .ok segment ∧ d.Replaces (.name text) (.name segment) := by
  cases hr : reference? text with
  | none =>
      refine .inr ⟨text, ?_, .plainName (reference?_eq_none_iff.mp hr)⟩
      rw [segment, hr]
  | some key =>
      obtain rfl := reference?_eq_some_iff.mp hr
      rw [segment_dollar]
      cases hv : d.value? key with
      | none => exact .inl ⟨_, rfl, .undefinedName hv⟩
      | some v =>
          cases hs : v.segment? with
          | some segment => exact .inr ⟨segment, by simp only [hs], .name hv hs⟩
          | none =>
              have hnull : v = .null := by cases v <;> first | rfl | cases hs
              exact .inl ⟨_, by simp only [hs], .nullName (hnull ▸ hv)⟩

/-- A literal is replaced, or it refers to nothing. -/
theorem literal_cases (d : Definitions) (v : Value) :
    (∃ r, d.literal v = .error r ∧ d.Refuses (.literal v) r) ∨
      ∃ w, d.literal v = .ok w ∧ d.Replaces (.literal v) (.literal w) := by
  cases v with
  | text s =>
      cases hr : reference? s with
      | none =>
          refine .inr ⟨.text s, ?_, .plainLiteral fun key hkey => ?_⟩
          · simp only [literal, hr]
          · exact reference?_eq_none_iff.mp hr key (Value.text.inj hkey)
      | some key =>
          obtain rfl := reference?_eq_some_iff.mp hr
          rw [literal_dollar]
          cases hv : d.value? key with
          | none => exact .inl ⟨_, rfl, .undefinedLiteral hv⟩
          | some w => exact .inr ⟨w, rfl, .literal hv⟩
  | _ => exact .inr ⟨_, rfl, .plainLiteral nofun⟩

/-- Every place can be filled with what stands for it, or it cannot, for a reason. -/
theorem place_cases (d : Definitions) (p : Place) :
    (∃ r, d.check p = .error r ∧ d.Refuses p r) ∨
      d.check p = .ok () ∧ d.Replaces p (p.map d.nameFor d.valueFor) := by
  cases p with
  | name text =>
      rw [check, Place.map, nameFor]
      rcases d.name_cases text with ⟨r, hr, hrefuses⟩ | ⟨segment, hsegment, hreplaces⟩
      · exact .inl ⟨r, by rw [hr]; rfl, hrefuses⟩
      · exact .inr ⟨by rw [hsegment]; rfl, by rw [hsegment]; exact hreplaces⟩
  | literal v =>
      rw [check, Place.map, valueFor]
      rcases d.literal_cases v with ⟨r, hr, hrefuses⟩ | ⟨w, hw, hreplaces⟩
      · exact .inl ⟨r, by rw [hr]; rfl, hrefuses⟩
      · exact .inr ⟨by rw [hw]; rfl, by rw [hw]; exact hreplaces⟩

theorem check_eq_error_iff {r : Refusal} : d.check p = .error r ↔ d.Refuses p r := by
  constructor
  · intro h
    rcases d.place_cases p with ⟨r', hr', hrefuses⟩ | ⟨hok, -⟩
    · rwa [Except.error.inj (h.symm.trans hr')]
    · rw [hok] at h
      cases h
  · rintro (hv | hv | hv)
    · rw [check, segment_dollar, hv]
      rfl
    · rw [check, segment_dollar, hv]
      rfl
    · rw [check, literal_dollar, hv]
      rfl

theorem check_eq_ok_iff : d.check p = .ok () ↔ ∀ r, ¬d.Refuses p r := by
  constructor
  · intro h r hr
    rw [check_eq_error_iff.mpr hr] at h
    cases h
  · intro h
    rcases d.place_cases p with ⟨r, -, hr⟩ | ⟨hok, -⟩
    · exact absurd hr (h r)
    · exact hok

theorem replaces_of_check (h : d.check p = .ok ()) :
    d.Replaces p (p.map d.nameFor d.valueFor) := by
  rcases d.place_cases p with ⟨r, hr, -⟩ | ⟨-, hreplaces⟩
  · rw [hr] at h
    cases h
  · exact hreplaces

/-- A name can be replaced if what it refers to is defined and is not `null`. -/
theorem check_name_iff : d.check (.name text) = .ok () ↔
    ∀ key, text = "$" ++ key → ∃ v, d.value? key = some v ∧ v ≠ .null := by
  rw [check_eq_ok_iff]
  constructor
  · rintro h key rfl
    cases hv : d.value? key with
    | none => exact absurd (.undefinedName hv) (h _)
    | some v => exact ⟨v, rfl, fun hnull => h _ (.nullName (hnull ▸ hv))⟩
  · intro h r hr
    cases hr with
    | undefinedName hv =>
        obtain ⟨v, hsome, -⟩ := h _ rfl
        rw [hv] at hsome
        cases hsome
    | nullName hv =>
        obtain ⟨v, hsome, hne⟩ := h _ rfl
        exact hne (Option.some.inj (hsome.symm.trans hv))

/-- A literal can be replaced if what it refers to is defined. -/
theorem check_literal_iff : d.check (.literal v) = .ok () ↔
    ∀ key, v = .text ("$" ++ key) → ∃ w, d.value? key = some w := by
  rw [check_eq_ok_iff]
  constructor
  · rintro h key rfl
    cases hv : d.value? key with
    | none => exact absurd (.undefinedLiteral hv) (h _)
    | some w => exact ⟨w, rfl⟩
  · intro h r hr
    cases hr with
    | undefinedLiteral hv =>
        obtain ⟨w, hsome⟩ := h _ rfl
        rw [hv] at hsome
        cases hsome

end Definitions

/-! ### Filling one place after another -/

/-- What comes of filling places, one after another, is `a` if all can be filled. -/
def Definitions.Fills {α : Type} (d : Definitions) (x : Except Refusal α) (ps : List Place)
    (a : α) : Prop :=
  x = (ps.forM d.check).map fun _ => a

namespace Definitions.Fills

variable {α β : Type} {d : Definitions} {x : Except Refusal α} {ps qs : List Place} {a : α}

theorem pure (a : α) : d.Fills (Pure.pure a) [] a := rfl

theorem bind {y : α → Except Refusal β} {b : β} (hx : d.Fills x ps a) (hy : d.Fills (y a) qs b) :
    d.Fills (x >>= y) (ps ++ qs) b := by
  have happend : (ps ++ qs).forM d.check = (ps.forM d.check >>= fun _ => qs.forM d.check) :=
    List.forM_append
  rw [Fills] at hx hy ⊢
  rw [hx, happend]
  cases ps.forM d.check with
  | error r => rfl
  | ok u => exact hy

theorem map (hx : d.Fills x ps a) (f : α → β) :
    d.Fills (x >>= fun a => Pure.pure (f a)) ps (f a) := by
  have h : d.Fills (x >>= fun a => Pure.pure (f a)) (ps ++ []) (f a) := hx.bind (.pure (f a))
  rwa [List.append_nil] at h

/-- The items of a list are filled one after another. -/
theorem mapM {y : α → Except Refusal β} {places : α → List Place} {f : α → β} {l : List α}
    (h : ∀ a ∈ l, d.Fills (y a) (places a) (f a)) :
    d.Fills (l.mapM y) (l.flatMap places) (l.map f) := by
  induction l with
  | nil => exact .pure []
  | cons a rest ih =>
      obtain ⟨ha, hrest⟩ := List.forall_mem_cons.mp h
      rw [List.mapM_cons, List.flatMap_cons, List.map_cons]
      exact ha.bind ((ih hrest).map _)

end Definitions.Fills

namespace Definitions

theorem fills_segment (d : Definitions) (text : String) :
    d.Fills (d.segment text) [.name text] (d.nameFor text) := by
  rw [Fills, nameFor, List.forM, List.forM, check]
  cases d.segment text <;> rfl

theorem fills_literal (d : Definitions) (v : Value) :
    d.Fills (d.literal v) [.literal v] (d.valueFor v) := by
  rw [Fills, valueFor, List.forM, List.forM, check]
  cases d.literal v <;> rfl

end Definitions

section

variable (d : Definitions)

theorem Locator.fills (path : List Locator) :
    d.Fills (substituteEach d path) (placesOfEach path) (mapNamesOfEach d.nameFor path) := by
  induction path using path_induction with
  | nil => exact .pure []
  | constant name rest ih => exact ((d.fills_segment name).map _).bind (ih.map _)
  | eventField name rest ih => exact (Definitions.Fills.pure _).bind (ih.map _)
  | query inner rest ihp ih => exact (ihp.map _).bind (ih.map _)
  | location name rest ih => exact (Definitions.Fills.pure _).bind (ih.map _)

theorem Location.fills (l : Location) :
    d.Fills (l.substitute d) (Piece.places (.path l.path)) (l.mapNames d.nameFor) :=
  (Locator.fills d l.path).map _

theorem Term.fills (m : Term) :
    d.Fills (m.substitute d) (Piece.places (.term m)) (m.mapPlaces d.nameFor d.valueFor) := by
  obtain ⟨source, increment, stack⟩ := m
  cases source with
  | literal v => exact ((d.fills_literal v).map _).map _
  | query path => exact ((Locator.fills d path).map _).map _
  | _ => exact .pure _

theorem Operand.fills (o : Operand) :
    d.Fills (o.substitute d) o.piece.places (o.mapPlaces d.nameFor d.valueFor) := by
  rcases o with path | m
  · exact (Locator.fills d path).map _
  · exact (m.fills d).map _

theorem Condition.substituteEach_eq_mapM (cs : List Condition) :
    substituteEach d cs = cs.mapM (substitute d) := by
  induction cs with
  | nil => rfl
  | cons c rest ih => rw [substituteEach, ih, List.mapM_cons]

theorem Condition.fills (c : Condition) :
    d.Fills (c.substitute d) (c.pieces.flatMap Piece.places)
      (c.mapPlaces d.nameFor d.valueFor) := by
  induction c using induction with
  | leaf operand expected =>
      have hplaces : (Condition.leaf operand expected).pieces.flatMap Piece.places =
          operand.piece.places ++ Piece.places (.term expected) := by
        simp [pieces, leaves, Comparison.pieces]
      rw [hplaces]
      exact (operand.fills d).bind ((expected.fills d).map _)
  | not c ih => exact ih.map _
  | all cs ih =>
      rw [pieces_all, List.flatMap_assoc, substitute, substituteEach_eq_mapM, mapPlaces,
        mapPlacesOfEach_eq_map]
      exact (Definitions.Fills.mapM ih).map _
  | any cs ih =>
      rw [pieces_any, List.flatMap_assoc, substitute, substituteEach_eq_mapM, mapPlaces,
        mapPlacesOfEach_eq_map]
      exact (Definitions.Fills.mapM ih).map _

theorem Change.fills_branch {branch : Option Change}
    (h : ∀ change ∈ branch, d.Fills (change.substitute d) (change.pieces.flatMap Piece.places)
      (change.mapPlaces d.nameFor d.valueFor)) :
    d.Fills (substituteBranch d branch) ((piecesOfBranch branch).flatMap Piece.places)
      (mapPlacesOfBranch d.nameFor d.valueFor branch) := by
  cases branch with
  | none => exact .pure none
  | some change => exact (h change rfl).map _

theorem Change.fills (change : Change) :
    d.Fills (change.substitute d) (change.pieces.flatMap Piece.places)
      (change.mapPlaces d.nameFor d.valueFor) := by
  induction change using induction with
  | assign path m =>
      have hplaces : (Change.assign path m).pieces.flatMap Piece.places =
          Locator.placesOfEach path ++ Piece.places (.term m) := by
        simp [pieces, Piece.places]
      rw [hplaces]
      exact (Locator.fills d path).bind ((m.fills d).map _)
  | conditional c yes no ihyes ihno =>
      rw [pieces, List.flatMap_append, List.flatMap_append, List.append_assoc]
      exact (c.fills d).bind ((fills_branch d ihyes).bind ((fills_branch d ihno).map _))

theorem Handler.fills (h : Handler) :
    d.Fills (h.substitute d) (h.pieces.flatMap Piece.places)
      (h.mapPlaces d.nameFor d.valueFor) := by
  rw [pieces, List.flatMap_assoc]
  exact (Definitions.Fills.mapM fun change _ => change.fills d).map _

end

/-- **To replace the references of a document is to fill its places in order.** -/
theorem Document.fills (d : Document) : d.definitions.Fills d.substitute d.places
    (d.handlers.map (Handler.mapPlaces d.definitions.nameFor d.definitions.valueFor),
      d.locations.map (Location.mapNames d.definitions.nameFor)) := by
  rw [places, pieces, List.flatMap_append, List.flatMap_map, List.flatMap_assoc]
  exact (Definitions.Fills.mapM fun l _ => l.fills d.definitions).bind
    ((Definitions.Fills.mapM fun h _ => h.fills d.definitions).map _)

/-! ### The whole document -/

namespace Document

/-- The document with its places left blank: what remains has no place in it. -/
def blank (d : Document) : Document :=
  d.mapPlaces (fun _ => "") fun _ => .null

/-- What comes of replacing the references of a document.

* `complete`: its places are all that there are.
* `succeeds`: the references are replaced if and only if each that stands for a name refers to
  something that is defined and not `null`, and each literal refers to something that is defined.
* `filled` and `replaced`: then every place is filled with what stands for it, once.
* `kept`: and nothing else changes.
* `refused`: otherwise the first place that cannot be filled tells why. -/
structure SubstitutesExactly (d : Document) : Prop where
  complete : ∀ p, p ∈ d.places ↔ d.Holds p
  succeeds : (∃ replaced, d.substitute = .ok replaced) ↔
    (∀ key, d.Holds (.name ("$" ++ key)) → ∃ v, d.definitions.value? key = some v ∧ v ≠ .null) ∧
      ∀ key, d.Holds (.literal (.text ("$" ++ key))) → ∃ v, d.definitions.value? key = some v
  filled : ∀ handlers locations, d.substitute = .ok (handlers, locations) →
    { d with handlers, locations } = d.mapPlaces d.definitions.nameFor d.definitions.valueFor
  replaced : ∀ handlers locations, d.substitute = .ok (handlers, locations) →
    List.Forall₂ d.definitions.Replaces d.places { d with handlers, locations }.places
  kept : ∀ handlers locations, d.substitute = .ok (handlers, locations) →
    { d with handlers, locations }.blank = d.blank
  refused : ∀ r, d.substitute = .error r ↔ ∃ before p later, d.places = before ++ p :: later ∧
    (∀ b ∈ before, ∀ r, ¬d.definitions.Refuses b r) ∧ d.definitions.Refuses p r

theorem substitute_eq_ok_iff {d : Document} {result : List Handler × List Location} :
    d.substitute = .ok result ↔ (∀ p ∈ d.places, d.definitions.check p = .ok ()) ∧
      (d.handlers.map (Handler.mapPlaces d.definitions.nameFor d.definitions.valueFor),
        d.locations.map (Location.mapNames d.definitions.nameFor)) = result := by
  rw [d.fills, map_eq_ok_iff]
  simp only [check_forM_iff.symm]
  exact ⟨fun ⟨_, hchecks, h⟩ => ⟨hchecks, h⟩, fun ⟨hchecks, h⟩ => ⟨(), hchecks, h⟩⟩

theorem substitute_eq_error_iff {d : Document} {r : Refusal} :
    d.substitute = .error r ↔ d.places.forM d.definitions.check = .error r := by
  rw [d.fills]
  cases d.places.forM d.definitions.check with
  | error r' => simp [Except.map]
  | ok u => simp [Except.map]

/-- **Every reference is replaced, wherever it stands, and once,** or the first that cannot be
replaced is told. -/
theorem substitutes_exactly (d : Document) : d.SubstitutesExactly := by
  have hfilled : ∀ handlers locations, d.substitute = .ok (handlers, locations) →
      { d with handlers, locations } =
        d.mapPlaces d.definitions.nameFor d.definitions.valueFor := fun handlers locations h => by
    obtain ⟨rfl, rfl⟩ := Prod.mk.inj (substitute_eq_ok_iff.mp h).2
    rfl
  refine {
    complete := fun p => mem_places_iff
    succeeds := ?_
    filled := hfilled
    replaced := fun handlers locations h => ?_
    kept := fun handlers locations h => ?_
    refused := fun r => ?_ }
  · simp only [substitute_eq_ok_iff, exists_and_left, exists_eq', and_true, mem_places_iff]
    constructor
    · exact fun h => ⟨fun key hkey => Definitions.check_name_iff.mp (h _ hkey) key rfl,
        fun key hkey => Definitions.check_literal_iff.mp (h _ hkey) key rfl⟩
    · rintro ⟨hnames, hliterals⟩ p hp
      cases p with
      | name text => exact Definitions.check_name_iff.mpr fun key hkey => hnames key (hkey ▸ hp)
      | literal v =>
          exact Definitions.check_literal_iff.mpr fun key hkey => hliterals key (hkey ▸ hp)
  · rw [hfilled handlers locations h, places_mapPlaces, List.forall₂_map_right_iff,
      List.forall₂_same]
    exact fun p hp => Definitions.replaces_of_check ((substitute_eq_ok_iff.mp h).1 p hp)
  · rw [hfilled handlers locations h]
    exact mapPlaces_mapPlaces _ _ _ _ d
  · rw [substitute_eq_error_iff, forM_eq_error_iff]
    simp only [Definitions.check_eq_error_iff, Definitions.check_eq_ok_iff]

/-- What stands for `$A` is a reference itself, and is left alone. -/
example :
    let d : Document := {
      definitions := ⟨[("A", .text "$B"), ("B", .int 7)]⟩
      locations := [⟨"At", [.query [.constant "$A", .location "$A"], .constant "$B"]⟩]
      handlers := [⟨.ofText "$A", [
        .assign [.eventField "$A", .constant "A"] ⟨.literal (.text "$A"), false, .none⟩]⟩] }
    (d.substitute.toOption.map fun (handlers, locations) => { d with handlers, locations }.places) =
      some [.name "$B", .name "7", .name "A", .literal (.text "$B")] := by
  decide +kernel

end Document
end Chronicle
