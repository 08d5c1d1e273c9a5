import Chronicle.Proofs.Event.Decoded
import Mathlib.Data.List.Basic

/-!
# Events as objects

An object describes an event if each member of the event stands in it under one of the names of the
member, wherever that is, and the fields of the event stand in order in its field object
(`Event.Renders`). Members with names of their own may stand anywhere, and so may fields with names
of their own, if no field can be made of their values (`Field.Unsupported`).

Such an object is read as the event (`Event.Renders.exists_ofJson`), if the event is well formed:
its field names are distinct, and an integer that would fit 32 bits is no long one.

A record is read member by member into a draft of four cells, in an order that the object chooses.
What a cell holds in the end depends only on the values of its member (`Draft.Cell`), so the
induction over the object carries the four cells beside each other (`Draft.Fills`).
-/

namespace Chronicle

variable {j : Json}

/-! ### Fields -/

namespace Field

/-- The field as it is written. -/
def toJson : Field → Json
  | .int n => .int n.toInt
  | .long n => .int n.toInt
  | .text s => .str s

/-- No field can be made of the value: it is neither a text nor an integer of 64 bits. -/
def Unsupported : Json → Prop
  | .int n => ¬ (-9223372036854775808 ≤ n ∧ n ≤ 9223372036854775807)
  | .str _ => False
  | _ => True

/-- The field is the one that its value is read as: a long integer does not fit 32 bits. -/
def Exact : Field → Prop
  | .long n => ¬ (-2147483648 ≤ n.toInt ∧ n.toInt ≤ 2147483647)
  | _ => True

theorem ofJson?_toJson {f : Field} (h : f.Exact) : ofJson? f.toJson = some f := by
  cases f with
  | int n => rw [toJson, ofJson?, Json.int32?_toInt]
  | long n =>
      have hint : (Json.int n.toInt).int32? = none := if_neg h
      rw [toJson, ofJson?, hint, Json.int64?_toInt]
  | text s => rfl

theorem ofJson?_of_unsupported (h : Unsupported j) : ofJson? j = none := by
  cases j with
  | int n =>
      have hwide : ¬ (-2147483648 ≤ n ∧ n ≤ 2147483647) := fun hn => h ⟨by omega, by omega⟩
      have hint : (Json.int n).int32? = none := if_neg hwide
      have hlong : (Json.int n).int64? = none := if_neg h
      rw [ofJson?, hint, hlong]
      rfl
  | str s => exact h.elim
  | _ => rfl

end Field

namespace Event

variable {e : Event} {members entries : List (String × Json)}

/-- The field names are distinct, and each field is the one that its value is read as. -/
structure WellFormed (e : Event) : Prop where
  distinct : (e.fields.map Prod.fst).Nodup
  exact : ∀ field ∈ e.fields, field.2.Exact

/-- An object holds the fields, in order, and under other names only what is no field.

* `kept`: under the names of the fields stand their values.
* `extra`: no field can be made of what stands under another name. -/
structure HoldsFields (fields : List (String × Field)) (members : List (String × Json)) : Prop where
  kept : (members.filter fun entry => decide (entry.1 ∈ fields.map Prod.fst)) =
    fields.map fun (name, f) => (name, f.toJson)
  extra : ∀ entry ∈ members, entry.1 ∉ fields.map Prod.fst → Field.Unsupported entry.2

/-- The fields of a settled object are those that it holds, and no others. -/
theorem HoldsFields.filterMap_settle (h : HoldsFields e.fields members) (he : e.WellFormed) :
    ((Keyed.settle members).filterMap fun (name, j) => (Field.ofJson? j).map fun f => (name, f)) =
      e.fields := by
  let named : String × Json → Bool := fun entry => decide (entry.1 ∈ e.fields.map Prod.fst)
  let read : String × Json → Option (String × Field) := fun (name, j) =>
    (Field.ofJson? j).map fun f => (name, f)
  have hdrop : (Keyed.settle members).filterMap read =
      ((Keyed.settle members).filter named).filterMap read := by
    rw [List.filterMap_filter]
    refine List.filterMap_congr fun entry hentry => ?_
    by_cases hnamed : entry.1 ∈ e.fields.map Prod.fst
    · simp [named, hnamed]
    · have hunsupported := h.extra entry (Keyed.mem_of_mem_settle hentry) hnamed
      simp [named, hnamed, read, Field.ofJson?_of_unsupported hunsupported]
  have hwritten : (Keyed.settle members).filter named =
      e.fields.map fun (name, f) => (name, f.toJson) := by
    rw [Keyed.filter_settle fun name => decide (name ∈ e.fields.map Prod.fst), h.kept]
    refine Keyed.settle_of_nodup ?_
    rw [List.map_map]
    exact he.distinct
  have hread : (e.fields.map fun (name, f) => (name, f.toJson)).filterMap read = e.fields := by
    rw [List.filterMap_map]
    refine (List.filterMap_eq_map_iff_forall_eq_some.mpr fun field hfield => ?_).trans
      (List.map_id e.fields)
    simp [read, Field.ofJson?_toJson (he.exact field hfield)]
  rw [hdrop, hwritten, hread]

/-! ### Records -/

/-- A timestamp as it is written. -/
def timestampToJson (t : Int64) : Json :=
  .int t.toInt

/-- The source of an event as it is written, if it is written. -/
def sourceToJson (source : Option Int32) : Json :=
  source.elim .null fun n => .int n.toInt

namespace Draft

variable {d d' : Draft} {α β : Type} {form : β → Json} {content : β → α}
  {before after : Option α}

/-- What a cell of a draft holds once the values of its member are taken in: what it held before, if
there are none, and the content of the only one otherwise, if it held nothing before. -/
def Cell (form : β → Json) (content : β → α) (before after : Option α) (values : List Json) :
    Prop :=
  (values = [] ∧ after = before) ∨
    ∃ b, values = [form b] ∧ before = none ∧ after = some (content b)

theorem Cell.of_nil (h : Cell form content before after []) : after = before := by
  rcases h with ⟨-, h⟩ | ⟨b, hnil, -⟩
  · exact h
  · cases hnil

theorem Cell.of_cons {values : List Json} (h : Cell form content before after (j :: values)) :
    ∃ b, j = form b ∧ before = none ∧ Cell form content (some (content b)) after values := by
  rcases h with ⟨hcons, -⟩ | ⟨b, hcons, hbefore, hafter⟩
  · cases hcons
  · obtain ⟨rfl, rfl⟩ := List.cons.inj hcons
    exact ⟨b, rfl, hbefore, .inl ⟨rfl, hafter⟩⟩

/-- The cells of `d` take in the values that the entries have for their members, and become those of
`d'`. -/
structure Fills (d d' : Draft) (entries : List (String × Json)) : Prop where
  name : Cell Json.str id d.name d'.name (Member.name.values entries)
  timestamp : Cell timestampToJson id d.timestamp d'.timestamp (Member.timestamp.values entries)
  source : Cell sourceToJson id d.source d'.source (Member.source.values entries)
  fields : Cell Json.obj Keyed.settle d.fields d'.fields (Member.fields.values entries)

/-- The first entry is taken in by the cell of its member, which held nothing before. -/
theorem Fills.exists_takes {m : Member} {name : String} {rest : List (String × Json)}
    (h : d.Fills d' ((name, j) :: rest)) (hm : Member.ofName? name = some m) :
    ∃ d₁, (d.has m = false ∧ d.Takes m j d₁) ∧ d₁.Fills d' rest := by
  have hself : m.values ((name, j) :: rest) = j :: m.values rest := Member.values_cons_self hm
  have hother : ∀ o, o ≠ m → o.values ((name, j) :: rest) = o.values rest := fun _ =>
    Member.values_cons_of_ne hm
  obtain ⟨hname, htimestamp, hsource, hfields⟩ := h
  -- The cell of the member takes the value in, and the three others are left as they are.
  cases m with
  | name =>
      rw [hself] at hname
      rw [hother .timestamp (by decide)] at htimestamp
      rw [hother .source (by decide)] at hsource
      rw [hother .fields (by decide)] at hfields
      obtain ⟨s, rfl, hd, hname⟩ := hname.of_cons
      exact ⟨_, ⟨by simp [has, hd], .name s⟩, hname, htimestamp, hsource, hfields⟩
  | timestamp =>
      rw [hself] at htimestamp
      rw [hother .name (by decide)] at hname
      rw [hother .source (by decide)] at hsource
      rw [hother .fields (by decide)] at hfields
      obtain ⟨t, rfl, hd, htimestamp⟩ := htimestamp.of_cons
      exact ⟨_, ⟨by simp [has, hd], .timestamp t⟩, hname, htimestamp, hsource, hfields⟩
  | source =>
      rw [hself] at hsource
      rw [hother .name (by decide)] at hname
      rw [hother .timestamp (by decide)] at htimestamp
      rw [hother .fields (by decide)] at hfields
      obtain ⟨source, rfl, hd, hsource⟩ := hsource.of_cons
      refine ⟨{ d with source := some source }, ⟨by simp [has, hd], ?_⟩, hname, htimestamp, hsource,
        hfields⟩
      cases source with
      | none => exact .noSource
      | some n => exact .source n
  | fields =>
      rw [hself] at hfields
      rw [hother .name (by decide)] at hname
      rw [hother .timestamp (by decide)] at htimestamp
      rw [hother .source (by decide)] at hsource
      obtain ⟨l, rfl, hd, hfields⟩ := hfields.of_cons
      exact ⟨_, ⟨by simp [has, hd], .fields l⟩, hname, htimestamp, hsource, hfields⟩

/-- The entries are taken in one by one, in whatever order their members stand. -/
theorem Fills.foldlM_eq (h : d.Fills d' entries) : entries.foldlM takeMember d = .ok d' := by
  induction entries generalizing d with
  | nil =>
      have hd : d' = d := by
        cases d
        cases d'
        simpa using ⟨h.name.of_nil, h.timestamp.of_nil, h.source.of_nil, h.fields.of_nil⟩
      rw [hd]
      rfl
  | cons entry rest ih =>
      obtain ⟨name, j⟩ := entry
      rw [List.foldlM_cons]
      cases hm : Member.ofName? name with
      | none =>
          obtain ⟨hname, htimestamp, hsource, hfields⟩ := h
          rw [Member.values_cons_of_none hm] at hname htimestamp hsource hfields
          rw [takeMember_of_none hm]
          exact ih ⟨hname, htimestamp, hsource, hfields⟩
      | some m =>
          obtain ⟨d₁, htaken, hrest⟩ := h.exists_takes hm
          rw [(takeMember_eq_ok_iff hm).mpr htaken]
          exact ih hrest

end Draft

/-- An object describes an event.

* `name`, `timestamp`: they stand in it once, under any of their names.
* `source`: if the event has none, it may be `null` or be missing.
* `fields`: an object holds the fields; if the event has none, it may be missing. -/
structure Renders (e : Event) (members : List (String × Json)) : Prop where
  name : Member.name.values members = [.str e.name]
  timestamp : Member.timestamp.values members = [timestampToJson e.timestamp]
  source : Member.source.values members = [sourceToJson e.source] ∨
    Member.source.values members = [] ∧ e.source = none
  fields : (∃ l, Member.fields.values members = [.obj l] ∧ HoldsFields e.fields l) ∨
    Member.fields.values members = [] ∧ e.fields = []

/-- The cell of the source in the draft of an object that describes an event. -/
theorem Renders.exists_source (h : e.Renders members) :
    ∃ source, Draft.Cell sourceToJson id none source
      (Member.source.values (Keyed.settle members)) ∧ source.getD none = e.source := by
  rcases h.source with hvalue | ⟨hvalue, he⟩
  · rw [Member.values_settle (by simp [hvalue]), hvalue]
    exact ⟨some e.source, .inr ⟨_, rfl, rfl, rfl⟩, rfl⟩
  · rw [Member.values_settle (by simp [hvalue]), hvalue]
    exact ⟨none, .inl ⟨rfl, rfl⟩, he.symm⟩

/-- The cell of the fields in the draft of an object that describes an event. -/
theorem Renders.exists_fields (h : e.Renders members) (he : e.WellFormed) :
    ∃ fields, Draft.Cell Json.obj Keyed.settle none fields
      (Member.fields.values (Keyed.settle members)) ∧
      (fields.getD []).filterMap (fun (name, j) => (Field.ofJson? j).map fun f => (name, f)) =
        e.fields := by
  rcases h.fields with ⟨l, hvalue, hl⟩ | ⟨hvalue, hnone⟩
  · rw [Member.values_settle (by simp [hvalue]), hvalue]
    exact ⟨some (Keyed.settle l), .inr ⟨_, rfl, rfl, rfl⟩, hl.filterMap_settle he⟩
  · rw [Member.values_settle (by simp [hvalue]), hvalue]
    exact ⟨none, .inl ⟨rfl, rfl⟩, hnone.symm⟩

/-- **An object that describes an event is read as it.** -/
theorem Renders.exists_ofJson (h : e.Renders members) (he : e.WellFormed) :
    ∃ left, ofJson (.obj members) = .ok (e, left) := by
  obtain ⟨source, hsource, hreads⟩ := h.exists_source
  obtain ⟨fields, hfields, hkept⟩ := h.exists_fields he
  have hname : Draft.Cell Json.str id none (some e.name)
      (Member.name.values (Keyed.settle members)) := by
    rw [Member.values_settle (by simp [h.name]), h.name]
    exact .inr ⟨_, rfl, rfl, rfl⟩
  have htimestamp : Draft.Cell timestampToJson id none (some e.timestamp)
      (Member.timestamp.values (Keyed.settle members)) := by
    rw [Member.values_settle (by simp [h.timestamp]), h.timestamp]
    exact .inr ⟨_, rfl, rfl, rfl⟩
  have hfills : Draft.Fills {} ⟨some e.name, some e.timestamp, source, fields⟩
      (Keyed.settle members) := ⟨hname, htimestamp, hsource, hfields⟩
  refine ⟨(fields.getD []).filterMap fun (name, j) =>
    if (Field.ofJson? j).isNone then some name else none, ?_⟩
  rw [ofJson, ofMembers, hfills.foldlM_eq]
  simp only [Except.bind, Draft.toEvent, hreads, hkept]

end Event
end Chronicle
