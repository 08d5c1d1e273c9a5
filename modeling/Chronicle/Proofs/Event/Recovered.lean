import Chronicle.Event.Reader
import Chronicle.Proofs.Event.Rendered

/-!
# Events read back from a trace

A document holds the list of a trace if it is this array, or an object with it under the first of
the list names that stands for an array there (`Trace.Holds`). A list tells some events if it is
made of objects that describe them, in order, with anything between them that is no record of an
event (`Trace.Tells`).

Reading a document gives the events that its list tells, however they are described and whatever
stands between them. A document is refused only if there is no list in it, or one with elements of
which none is a record (`Trace.ofJson_recovers`).
-/

namespace Chronicle
namespace Trace

variable {doc : Json} {items : List Json} {events : List Event}

/-! ### The list of a document -/

/-- The document holds the list.

* `bare`: it is the list.
* `under`: the list stands in it under one of the list names, and no list under a name before. -/
inductive Holds : Json → List Json → Prop
  | bare (items : List Json) : Holds (.arr items) items
  | under {members : List (String × Json)} {items : List Json} (before : List String)
      (name : String) (after : List String) (hnames : listNames = before ++ name :: after)
      (hlist : Keyed.get? name (Keyed.settle members) = some (.arr items))
      (hbefore : ∀ other ∈ before, ∀ l, Keyed.get? other (Keyed.settle members) ≠ some (.arr l)) :
      Holds (.obj members) items

theorem bind_arr?_eq_some_iff {j? : Option Json} :
    j?.bind Json.arr? = some items ↔ j? = some (.arr items) := by
  cases j? with
  | none => simp
  | some j => cases j <;> simp [Json.arr?]

theorem list?_eq_ok_iff : list? doc = .ok items ↔ Holds doc items := by
  cases doc with
  | arr l =>
      constructor
      · intro h
        obtain rfl := Except.ok.inj h
        exact .bare l
      · rintro ⟨⟩
        rfl
  | obj members =>
      -- What is looked for under the list names, from the first on.
      let listed : String → Option (List Json) := fun name =>
        (Keyed.get? name (Keyed.settle members)).bind Json.arr?
      have hfound : list? (.obj members) = .ok items ↔ listNames.findSome? listed = some items := by
        rw [list?]
        split
        · next l hl => simp [listed, hl]
        · next hl => simp [listed, hl]
      have hnone : ∀ name, listed name = none ↔
          ∀ l, Keyed.get? name (Keyed.settle members) ≠ some (.arr l) := fun name => by
        rw [Option.eq_none_iff_forall_ne_some]
        exact forall_congr' fun l => not_congr bind_arr?_eq_some_iff
      rw [hfound, List.findSome?_eq_some_iff]
      constructor
      · rintro ⟨before, name, after, hnames, hlist, hbefore⟩
        exact .under before name after hnames (bind_arr?_eq_some_iff.mp hlist) fun other hother =>
          (hnone other).mp (hbefore other hother)
      · rintro (_ | ⟨before, name, after, hnames, hlist, hbefore⟩)
        exact ⟨before, name, after, hnames, bind_arr?_eq_some_iff.mpr hlist, fun other hother =>
          (hnone other).mpr (hbefore other hother)⟩
  | _ =>
      constructor
      · intro h
        cases h
      · intro h
        cases h

/-! ### The events of a list -/

/-- The list tells the events, in order.

* `event`: an object describes the next event.
* `other`: an element between the events is no record. -/
inductive Tells : List Json → List Event → Prop
  | nil : Tells [] []
  | event {e : Event} {members : List (String × Json)} {items : List Json} {events : List Event}
      (described : e.Renders members) (rest : Tells items events) :
      Tells (.obj members :: items) (e :: events)
  | other {j : Json} {items : List Json} {events : List Event} (unread : ¬ Event.IsRecord j)
      (rest : Tells items events) : Tells (j :: items) events

theorem readElements_cons_of_ok {j : Json} {e : Event} {left : List String}
    (h : Event.ofJson j = .ok (e, left)) (i : Nat) :
    (readElements i (j :: items)).1 = e :: (readElements (i + 1) items).1 := by
  simp only [readElements, h]

theorem readElements_cons_of_not_isRecord {j : Json} (h : ¬ Event.IsRecord j) (i : Nat) :
    (readElements i (j :: items)).1 = (readElements (i + 1) items).1 := by
  cases hj : Event.ofJson j with
  | ok r => exact absurd (Event.isRecord_iff.mpr ⟨r.1, r.2, hj⟩) h
  | error fault => simp only [readElements, hj]

/-- The elements are read as the events that they tell. -/
theorem Tells.readElements_eq (h : Tells items events) (he : ∀ e ∈ events, e.WellFormed) (i : Nat) :
    (readElements i items).1 = events := by
  induction h generalizing i with
  | nil => rfl
  | event described rest ih =>
      obtain ⟨hfirst, hothers⟩ := List.forall_mem_cons.mp he
      obtain ⟨left, hleft⟩ := described.exists_ofJson hfirst
      rw [readElements_cons_of_ok hleft, ih hothers]
  | other unread rest ih => rw [readElements_cons_of_not_isRecord unread, ih he]

theorem readElements_eq_nil_iff {i : Nat} :
    (readElements i items).1 = [] ↔ ∀ j ∈ items, ¬ Event.IsRecord j := by
  induction items generalizing i with
  | nil => simp [readElements]
  | cons j rest ih =>
      rw [List.forall_mem_cons]
      by_cases hj : Event.IsRecord j
      · obtain ⟨e, left, hok⟩ := Event.isRecord_iff.mp hj
        simp [readElements_cons_of_ok hok, hj]
      · rw [readElements_cons_of_not_isRecord hj, ih]
        simp [hj]

/-! ### Documents -/

theorem result_ofJson_of_holds (h : Holds doc items) :
    (ofJson doc).result = if (readElements 0 items).1 = [] ∧ items ≠ [] then .error .noEvent
      else .ok (readElements 0 items).1 := by
  rw [ofJson, list?_eq_ok_iff.mpr h]
  simp only [Bool.and_eq_true, List.isEmpty_iff, Bool.not_eq_true', List.isEmpty_eq_false_iff]
  split <;> rfl

theorem Holds.result_eq_ok (h : Holds doc items) (ht : Tells items events)
    (he : ∀ e ∈ events, e.WellFormed) (hsome : events = [] → items = []) :
    (ofJson doc).result = .ok events := by
  rw [result_ofJson_of_holds h, ht.readElements_eq he, if_neg fun hnone => hnone.2 (hsome hnone.1)]

theorem exists_result_eq_error_iff :
    (∃ err, (ofJson doc).result = .error err) ↔
      (∀ items, ¬ Holds doc items) ∨
        ∃ items, Holds doc items ∧ items ≠ [] ∧ ∀ j ∈ items, ¬ Event.IsRecord j := by
  cases hlist : list? doc with
  | error err =>
      have hnone : ∀ items, ¬ Holds doc items := fun items h => by
        rw [list?_eq_ok_iff.mpr h] at hlist
        cases hlist
      refine ⟨fun _ => .inl hnone, fun _ => ⟨err, ?_⟩⟩
      rw [ofJson, hlist]
  | ok items =>
      have hholds : Holds doc items := list?_eq_ok_iff.mp hlist
      rw [result_ofJson_of_holds hholds]
      constructor
      · rintro ⟨err, herr⟩
        split at herr
        · next h => exact .inr ⟨items, hholds, h.2, readElements_eq_nil_iff.mp h.1⟩
        · cases herr
      · rintro (hnone | ⟨items', hholds', hsome, hunread⟩)
        · exact absurd hholds (hnone items)
        · have hsame : items' = items :=
            Except.ok.inj ((list?_eq_ok_iff.mpr hholds').symm.trans hlist)
          subst hsame
          exact ⟨.noEvent, if_pos ⟨readElements_eq_nil_iff.mpr hunread, hsome⟩⟩

/-- **Reading a trace recovers exactly its well-formed events.** A document whose list tells some
events is read as these, in order. It is refused if and only if it holds no list, or a list that is
not empty and in which nothing is a record. -/
theorem ofJson_recovers (doc : Json) :
    (∀ items events, Holds doc items → Tells items events → (∀ e ∈ events, e.WellFormed) →
      (events = [] → items = []) → (ofJson doc).result = .ok events) ∧
    ((∃ err, (ofJson doc).result = .error err) ↔
      (∀ items, ¬ Holds doc items) ∨
        ∃ items, Holds doc items ∧ items ≠ [] ∧ ∀ j ∈ items, ¬ Event.IsRecord j) :=
  ⟨fun _ _ hholds htells he hsome => hholds.result_eq_ok htells he hsome,
    exists_result_eq_error_iff⟩

/-- The list stands under the second of the list names. Beside its events it has a number and an
object without a name, and beside the members and the fields of the first event there are a note and
fields of no type. -/
theorem ofJson_recovers_beside_others :
    let wake : Event := ⟨"wake", 9223372036854775807, none,
      [("pid", .int 2147483647), ("bytes", .long 2147483648), ("comm", .text "sh")]⟩
    let idle : Event := ⟨"idle", -9223372036854775808, some (-1), []⟩
    let fields : List (String × Json) := [("ratio", .decimal "0.5"), ("pid", .int 2147483647),
      ("wide", .int 9223372036854775808), ("bytes", .int 2147483648), ("comm", .str "sh")]
    let woken : List (String × Json) := [("note", .bool true), ("ts", .int 9223372036854775807),
      ("source", .null), ("fields", .obj fields), ("type", .str "wake")]
    let idled : List (String × Json) := [("event", .str "idle"),
      ("timestamp", .int (-9223372036854775808)), ("cpu", .int (-1))]
    let items : List Json := [.int 17, .obj woken, .obj [("time", .int 5)], .obj idled]
    let doc : Json := .obj [("records", .arr []), ("trace", .arr items), ("events", .int 2)]
    Holds doc items ∧ Tells items [wake, idle] ∧ (∀ e ∈ [wake, idle], e.WellFormed) ∧
      (ofJson doc).result = .ok [wake, idle] := by
  intro wake idle fields woken idled items doc
  have hholds : Holds doc items :=
    .under ["events"] "trace" ["records"] rfl (by simp [Keyed.settle, Keyed.put, Keyed.get?])
      (by simp [Keyed.settle, Keyed.put, Keyed.get?])
  have hfields : Event.HoldsFields wake.fields fields :=
    ⟨by simp [fields, wake, Field.toJson], by simp [fields, wake, Field.Unsupported]⟩
  have hwoken : wake.Renders woken := by
    refine ⟨?_, ?_, .inl ?_, .inl ⟨fields, ?_, hfields⟩⟩ <;>
      simp [woken, wake, Event.Member.values, Event.Member.names, Event.Member.label,
        Event.Member.aliases, Event.timestampToJson, Event.sourceToJson]
  have hidled : idle.Renders idled := by
    refine ⟨?_, ?_, .inl ?_, .inr ⟨?_, rfl⟩⟩ <;>
      simp [idled, idle, Event.Member.values, Event.Member.names, Event.Member.label,
        Event.Member.aliases, Event.timestampToJson, Event.sourceToJson]
  have hnameless : ¬ Event.IsRecord (.obj [("time", .int 5)]) := fun h => by
    have hname := h .name
    simp [Event.Member.values, Event.Member.names, Event.Member.label, Event.Member.aliases,
      Event.Member.IsRequired, Keyed.settle, Keyed.put] at hname
  have htells : Tells items [wake, idle] :=
    .other id (.event hwoken (.other hnameless (.event hidled .nil)))
  have hwell : ∀ e ∈ [wake, idle], e.WellFormed := by
    have hwake : wake.WellFormed := ⟨by decide +kernel, by simp [wake, Field.Exact]⟩
    have hidle : idle.WellFormed := ⟨by decide, by simp [idle]⟩
    simpa using ⟨hwake, hidle⟩
  have hsome : [wake, idle] = [] → items = [] := by simp
  exact ⟨hholds, htells, hwell, (ofJson_recovers doc).1 _ _ hholds htells hwell hsome⟩

end Trace
end Chronicle
