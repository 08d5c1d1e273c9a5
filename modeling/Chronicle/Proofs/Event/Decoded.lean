import Chronicle.Event.Record
import Chronicle.Proofs.Except
import Chronicle.Proofs.Keyed
import Chronicle.Proofs.Value.Written

/-!
# Which values are events

A value is the record of an event (`Event.IsRecord`) if it is an object in which each member stands
once, under any of its names and with a value of its form, or not at all, if the event can do
without it; or if it is an array of two to four values of the forms of the members. These are the
values that are read as events (`Event.isRecord_iff`).

Whether a value can be taken into a draft depends on its form and on whether something was taken in
for its member before, and on nothing else. So the inductions over what is taken in only carry which
members a draft has.
-/

namespace Chronicle
namespace Event

variable {j : Json} {members entries : List (String × Json)}

namespace Member

/-- All names of a member. -/
def names (m : Member) : List String :=
  m.label :: m.aliases

/-- What stands in an object under the names of a member, in order. -/
def values (m : Member) (members : List (String × Json)) : List Json :=
  (members.filter fun entry => decide (entry.1 ∈ m.names)).map Prod.snd

/-- No name is that of two members. -/
theorem ofName?_eq_some_iff {name : String} {m : Member} :
    ofName? name = some m ↔ name ∈ m.names := by
  constructor
  · intro h
    simpa [names] using List.find?_some h
  · intro h
    cases m <;> simp only [names, label, aliases, List.mem_cons, List.not_mem_nil, or_false] at h
    case name => rcases h with rfl | rfl | rfl <;> decide +kernel
    case timestamp => rcases h with rfl | rfl | rfl <;> decide +kernel
    case source => rcases h with rfl | rfl <;> decide +kernel
    case fields => subst h; decide +kernel

theorem values_cons_self {m : Member} {name : String} (h : ofName? name = some m) :
    m.values ((name, j) :: entries) = j :: m.values entries := by
  simp [values, ofName?_eq_some_iff.mp h]

theorem values_cons_of_not_mem {m : Member} {name : String} (h : name ∉ m.names) :
    m.values ((name, j) :: entries) = m.values entries := by
  simp [values, h]

theorem values_cons_of_ne {m o : Member} {name : String} (h : ofName? name = some m) (ho : o ≠ m) :
    o.values ((name, j) :: entries) = o.values entries :=
  values_cons_of_not_mem fun hmem =>
    ho (Option.some.inj ((ofName?_eq_some_iff.mpr hmem).symm.trans h))

theorem values_cons_of_none {m : Member} {name : String} (h : ofName? name = none) :
    m.values ((name, j) :: entries) = m.values entries :=
  values_cons_of_not_mem fun hmem => by
    rw [ofName?_eq_some_iff.mpr hmem] at h
    cases h

/-- Where a member stands at most once, it has the same value in the settled object. -/
theorem values_settle {m : Member} (h : (m.values members).length ≤ 1) :
    m.values (Keyed.settle members) = m.values members := by
  rw [values, List.length_map] at h
  rw [values, Keyed.filter_settle fun name => decide (name ∈ m.names),
    Keyed.settle_of_length_le_one h, values]

/-- A value of the form that a member has. -/
def Admits : Member → Json → Prop
  | .name, j => ∃ s, j = .str s
  | .timestamp, j => ∃ t : Int64, j = .int t.toInt
  | .source, j => j = .null ∨ ∃ n : Int32, j = .int n.toInt
  | .fields, j => ∃ l, j = .obj l

/-- A member that no event can do without. -/
def IsRequired (m : Member) : Prop :=
  m = .name ∨ m = .timestamp

end Member

/-- The value is the record of an event. -/
def IsRecord : Json → Prop
  | .obj members => ∀ m : Member,
      (∃ j, m.values (Keyed.settle members) = [j] ∧ m.Admits j) ∨
        m.values (Keyed.settle members) = [] ∧ ¬ m.IsRequired
  | .arr items => 2 ≤ items.length ∧ items.length ≤ 4 ∧
      ∀ entry ∈ Member.all.zip items, entry.1.Admits entry.2
  | _ => False

namespace Draft

variable {d d' : Draft} {m : Member}

/-- What the draft becomes when the value of a member is taken in. -/
inductive Takes (d : Draft) : Member → Json → Draft → Prop
  | name (s : String) : Takes d .name (.str s) { d with name := some s }
  | timestamp (t : Int64) : Takes d .timestamp (.int t.toInt) { d with timestamp := some t }
  | noSource : Takes d .source .null { d with source := some none }
  | source (n : Int32) : Takes d .source (.int n.toInt) { d with source := some (some n) }
  | fields (l : List (String × Json)) :
      Takes d .fields (.obj l) { d with fields := some (Keyed.settle l) }

theorem expect_eq_ok_iff {α : Type} {wanted : Form} {decode : Json → Option α} {a : α} :
    expect wanted decode j = .ok a ↔ decode j = some a := by
  unfold expect
  split
  · next h => simp [h]
  · next h => simp [h]

theorem Takes.of_take (h : d.take m j = .ok d') : d.Takes m j d' := by
  cases m with
  | name =>
      obtain ⟨s, hs, rfl⟩ := map_eq_ok_iff.mp h
      cases j with
      | str s' =>
          have hsome := expect_eq_ok_iff.mp hs
          obtain rfl := Option.some.inj hsome
          exact .name s'
      | _ => cases hs
  | timestamp =>
      obtain ⟨t, ht, rfl⟩ := map_eq_ok_iff.mp h
      obtain rfl := Json.int64?_eq_some_iff.mp (expect_eq_ok_iff.mp ht)
      exact .timestamp t
  | source =>
      cases j with
      | null =>
          obtain rfl := Except.ok.inj h
          exact .noSource
      | int i =>
          obtain ⟨n, hn, rfl⟩ := map_eq_ok_iff.mp h
          have hi := Json.int32?_eq_some_iff.mp (expect_eq_ok_iff.mp hn)
          exact hi ▸ .source n
      | _ => cases h
  | fields =>
      obtain ⟨l, hl, rfl⟩ := map_eq_ok_iff.mp h
      cases j with
      | obj l' =>
          have hsome := expect_eq_ok_iff.mp hl
          obtain rfl := Option.some.inj hsome
          exact .fields l'
      | _ => cases hl

theorem take_eq_ok_iff : d.take m j = .ok d' ↔ d.Takes m j d' := by
  refine ⟨.of_take, fun h => ?_⟩
  cases h with
  | name s => rfl
  | timestamp t => exact map_eq_ok_iff.mpr ⟨t, expect_eq_ok_iff.mpr (Json.int64?_toInt t), rfl⟩
  | noSource => rfl
  | source n => exact map_eq_ok_iff.mpr ⟨n, expect_eq_ok_iff.mpr (Json.int32?_toInt n), rfl⟩
  | fields l => rfl

theorem Takes.has_eq (h : d.Takes m j d') (o : Member) :
    d'.has o = (decide (o = m) || d.has o) := by
  cases h <;> cases o <;> rfl

theorem exists_takes_iff : (∃ d', d.Takes m j d') ↔ m.Admits j := by
  constructor
  · rintro ⟨d', h⟩
    cases h with
    | name s => exact ⟨s, rfl⟩
    | timestamp t => exact ⟨t, rfl⟩
    | noSource => exact .inl rfl
    | source n => exact .inr ⟨n, rfl⟩
    | fields l => exact ⟨l, rfl⟩
  · intro h
    cases m with
    | name =>
        obtain ⟨s, rfl⟩ := h
        exact ⟨_, .name s⟩
    | timestamp =>
        obtain ⟨t, rfl⟩ := h
        exact ⟨_, .timestamp t⟩
    | source =>
        rcases h with rfl | ⟨n, rfl⟩
        · exact ⟨_, .noSource⟩
        · exact ⟨_, .source n⟩
    | fields =>
        obtain ⟨l, rfl⟩ := h
        exact ⟨_, .fields l⟩

/-! ### Objects -/

theorem takeMember_of_none {name : String} (h : Member.ofName? name = none) :
    d.takeMember (name, j) = .ok d := by
  simp only [takeMember, h]

/-- The value of a member is taken in once. -/
theorem takeMember_eq_ok_iff {name : String} (h : Member.ofName? name = some m) :
    d.takeMember (name, j) = .ok d' ↔ d.has m = false ∧ d.Takes m j d' := by
  simp only [takeMember, h]
  cases hhas : d.has m with
  | true => simp
  | false => simp [take_eq_ok_iff]

/-- A draft can take in the value that a member has among the entries, if it has one. -/
def Accepts (d : Draft) (entries : List (String × Json)) (m : Member) : Prop :=
  m.values entries = [] ∨ ∃ j, m.values entries = [j] ∧ m.Admits j ∧ d.has m = false

/-- Once an entry is taken in, there may be no other of its member. -/
theorem accepts_cons_iff {name : String} (hm : Member.ofName? name = some m)
    {rest : List (String × Json)} :
    (∀ o, d.Accepts ((name, j) :: rest) o) ↔
      ∃ d', (d.has m = false ∧ d.Takes m j d') ∧ ∀ o, d'.Accepts rest o := by
  have hother : ∀ o, o ≠ m → o.values ((name, j) :: rest) = o.values rest := fun _ =>
    Member.values_cons_of_ne hm
  have hself : m.values ((name, j) :: rest) = j :: m.values rest := Member.values_cons_self hm
  constructor
  · intro h
    rcases h m with hnil | ⟨j', hcons, hadmits, hhas⟩
    · rw [hself] at hnil
      cases hnil
    · rw [hself] at hcons
      obtain ⟨rfl, hrest⟩ := List.cons.inj hcons
      obtain ⟨d', htakes⟩ := exists_takes_iff.mpr hadmits
      refine ⟨d', ⟨hhas, htakes⟩, fun o => ?_⟩
      by_cases ho : o = m
      · exact .inl (ho ▸ hrest)
      · have haccepts := h o
        simp only [Accepts, hother o ho] at haccepts
        simpa [Accepts, htakes.has_eq, ho] using haccepts
  · rintro ⟨d', ⟨hhas, htakes⟩, h⟩ o
    have haccepts := h o
    by_cases ho : o = m
    · subst ho
      simp only [Accepts, htakes.has_eq, decide_true, Bool.true_or, reduceCtorEq, and_false,
        exists_false, or_false] at haccepts
      exact .inr ⟨j, by rw [hself, haccepts], exists_takes_iff.mp ⟨d', htakes⟩, hhas⟩
    · simp only [Accepts, hother o ho]
      simpa [Accepts, htakes.has_eq, ho] using haccepts

theorem exists_foldlM_takeMember_iff :
    (∃ d', entries.foldlM takeMember d = .ok d') ↔ ∀ m, d.Accepts entries m := by
  induction entries generalizing d with
  | nil => exact ⟨fun _ m => .inl rfl, fun _ => ⟨d, rfl⟩⟩
  | cons entry rest ih =>
      obtain ⟨name, j⟩ := entry
      cases hm : Member.ofName? name with
      | none =>
          simp only [Accepts, Member.values_cons_of_none hm]
          rw [List.foldlM_cons, takeMember_of_none hm]
          exact ih
      | some m =>
          rw [accepts_cons_iff hm]
          simp only [List.foldlM_cons, bind_eq_ok_iff, takeMember_eq_ok_iff hm, ← ih]
          constructor
          · rintro ⟨d', d₁, htaken, hrest⟩
            exact ⟨d₁, htaken, d', hrest⟩
          · rintro ⟨d₁, htaken, d', hrest⟩
            exact ⟨d', d₁, htaken, hrest⟩

/-- A draft has what it had, and the members that were taken in. -/
theorem has_foldlM_takeMember (h : entries.foldlM takeMember d = .ok d') (o : Member) :
    d'.has o = (d.has o || !(o.values entries).isEmpty) := by
  induction entries generalizing d with
  | nil =>
      obtain rfl := Except.ok.inj h
      simp [Member.values]
  | cons entry rest ih =>
      obtain ⟨name, j⟩ := entry
      rw [List.foldlM_cons, bind_eq_ok_iff] at h
      obtain ⟨d₁, hstep, hrest⟩ := h
      rw [ih hrest]
      cases hm : Member.ofName? name with
      | none =>
          rw [takeMember_of_none hm] at hstep
          obtain rfl := Except.ok.inj hstep
          rw [Member.values_cons_of_none hm]
      | some m =>
          obtain ⟨-, htakes⟩ := (takeMember_eq_ok_iff hm).mp hstep
          rw [htakes.has_eq]
          by_cases ho : o = m
          · subst ho
            simp [Member.values_cons_self hm]
          · simp [Member.values_cons_of_ne hm ho, ho]

@[simp] theorem has_empty (m : Member) : ({} : Draft).has m = false := by
  cases m <;> rfl

/-- From nothing on, a draft has the members that stand in the object. -/
theorem has_foldlM_takeMember_empty (h : entries.foldlM takeMember {} = .ok d) (m : Member) :
    d.has m = true ↔ m.values entries ≠ [] := by
  simp [has_foldlM_takeMember h]

/-! ### Arrays -/

/-- Takes in one value after another, each for its member. -/
def takeEach (d : Draft) (l : List (Member × Json)) : Except Fault Draft :=
  l.foldlM (fun d (m, j) => d.take m j) d

theorem takeEach_cons (d : Draft) (m : Member) (j : Json) (rest : List (Member × Json)) :
    d.takeEach ((m, j) :: rest) = (d.take m j >>= fun d => d.takeEach rest) :=
  rfl

theorem exists_takeEach_iff {l : List (Member × Json)} :
    (∃ d', d.takeEach l = .ok d') ↔ ∀ entry ∈ l, entry.1.Admits entry.2 := by
  induction l generalizing d with
  | nil => exact ⟨nofun, fun _ => ⟨d, rfl⟩⟩
  | cons entry rest ih =>
      obtain ⟨m, j⟩ := entry
      simp only [takeEach_cons, bind_eq_ok_iff, take_eq_ok_iff, List.forall_mem_cons]
      constructor
      · rintro ⟨d', d₁, htakes, hrest⟩
        exact ⟨exists_takes_iff.mp ⟨d₁, htakes⟩, ih.mp ⟨d', hrest⟩⟩
      · rintro ⟨hadmits, hrest⟩
        obtain ⟨d₁, htakes⟩ := exists_takes_iff.mpr hadmits
        obtain ⟨d', hd'⟩ := ih.mpr hrest
        exact ⟨d', d₁, htakes, hd'⟩

theorem has_takeEach {l : List (Member × Json)} (h : d.takeEach l = .ok d') (o : Member) :
    d'.has o = (d.has o || decide (o ∈ l.map Prod.fst)) := by
  induction l generalizing d with
  | nil =>
      obtain rfl := Except.ok.inj h
      simp
  | cons entry rest ih =>
      obtain ⟨m, j⟩ := entry
      rw [takeEach_cons, bind_eq_ok_iff] at h
      obtain ⟨d₁, hstep, hrest⟩ := h
      rw [ih hrest, (take_eq_ok_iff.mp hstep).has_eq, List.map_cons]
      rw [Bool.eq_iff_iff]
      simp only [Bool.or_eq_true, decide_eq_true_eq, List.mem_cons, or_assoc]
      exact or_left_comm

/-! ### Events -/

/-- An event is made of a draft with a name and a timestamp. -/
theorem exists_toEvent_iff {absent : Member → Fault} :
    (∃ r, d.toEvent absent = .ok r) ↔ d.has .name = true ∧ d.has .timestamp = true := by
  obtain ⟨name, timestamp, source, fields⟩ := d
  cases name <;> cases timestamp <;> simp [toEvent, has]

end Draft

/-- An object is an event if its members can be taken in one by one and those are among them that no
event can do without. -/
theorem exists_ofMembers_iff_draft :
    (∃ r, ofMembers members = .ok r) ↔
      ∃ d, (Keyed.settle members).foldlM Draft.takeMember {} = .ok d ∧
        d.has .name = true ∧ d.has .timestamp = true := by
  constructor
  · rintro ⟨r, hr⟩
    obtain ⟨d, hd, hr⟩ := bind_eq_ok_iff.mp hr
    exact ⟨d, hd, Draft.exists_toEvent_iff.mp ⟨r, hr⟩⟩
  · rintro ⟨d, hd, hrequired⟩
    obtain ⟨r, hr⟩ := Draft.exists_toEvent_iff.mpr hrequired
    exact ⟨r, bind_eq_ok_iff.mpr ⟨d, hd, hr⟩⟩

theorem exists_ofMembers_iff :
    (∃ r, ofMembers members = .ok r) ↔ IsRecord (.obj members) := by
  rw [exists_ofMembers_iff_draft]
  constructor
  · rintro ⟨d, hd, hname, htimestamp⟩ m
    rcases Draft.exists_foldlM_takeMember_iff.mp ⟨d, hd⟩ m with hnil | ⟨j, hj, hadmits, -⟩
    · refine .inr ⟨hnil, ?_⟩
      rintro (rfl | rfl)
      · exact (Draft.has_foldlM_takeMember_empty hd .name).mp hname hnil
      · exact (Draft.has_foldlM_takeMember_empty hd .timestamp).mp htimestamp hnil
    · exact .inl ⟨j, hj, hadmits⟩
  · intro h
    have hfold : ∃ d, (Keyed.settle members).foldlM Draft.takeMember {} = .ok d := by
      refine Draft.exists_foldlM_takeMember_iff.mpr fun m => ?_
      rcases h m with ⟨j, hj, hadmits⟩ | ⟨hnil, -⟩
      · exact .inr ⟨j, hj, hadmits, Draft.has_empty m⟩
      · exact .inl hnil
    obtain ⟨d, hd⟩ := hfold
    have hrequired : ∀ m : Member, m.IsRequired → d.has m = true := fun m hm => by
      rcases h m with ⟨j, hj, -⟩ | ⟨-, hnot⟩
      · exact (Draft.has_foldlM_takeMember_empty hd m).mpr (by rw [hj]; exact nofun)
      · exact absurd hm hnot
    exact ⟨d, hd, hrequired _ (.inl rfl), hrequired _ (.inr rfl)⟩

theorem exists_ofItems_iff {items : List Json} :
    (∃ r, ofItems items = .ok r) ↔ IsRecord (.arr items) := by
  have hofItems : ofItems items = (Draft.takeEach {} (Member.all.zip items) >>= fun d =>
      d.toEvent (fun _ => .tooFew items.length) >>= fun e =>
        if Member.all.length < items.length then .error (.tooMany items.length) else .ok e) := rfl
  -- The first two members are those that no event can do without.
  have hrequired : ∀ {d : Draft}, Draft.takeEach {} (Member.all.zip items) = .ok d →
      (d.has .name = true ∧ d.has .timestamp = true ↔ 2 ≤ items.length) := by
    intro d hd
    rw [Draft.has_takeEach hd, Draft.has_takeEach hd]
    match items with
    | [] => simp [Member.all, Draft.has]
    | [_] => simp [Member.all, Draft.has]
    | _ :: _ :: _ => simp [Member.all, Draft.has]
  constructor
  · rintro ⟨r, hr⟩
    obtain ⟨d, hd, hr⟩ := bind_eq_ok_iff.mp (hofItems ▸ hr)
    obtain ⟨e, he, hr⟩ := bind_eq_ok_iff.mp hr
    have hmany : ¬ Member.all.length < items.length := fun hmany => by
      rw [if_pos hmany] at hr
      cases hr
    exact ⟨(hrequired hd).mp (Draft.exists_toEvent_iff.mp ⟨e, he⟩), Nat.not_lt.mp hmany,
      Draft.exists_takeEach_iff.mp ⟨d, hd⟩⟩
  · rintro ⟨hfew, hmany, hadmits⟩
    obtain ⟨d, hd⟩ := Draft.exists_takeEach_iff.mpr hadmits
    obtain ⟨e, he⟩ := Draft.exists_toEvent_iff.mpr ((hrequired hd).mpr hfew)
    refine ⟨e, hofItems ▸ bind_eq_ok_iff.mpr ⟨d, hd, bind_eq_ok_iff.mpr ⟨e, he, ?_⟩⟩⟩
    exact if_neg (Nat.not_lt.mpr hmany)

/-- **The records of events are the values that are read as events.** -/
theorem isRecord_iff : IsRecord j ↔ ∃ e left, ofJson j = .ok (e, left) := by
  have hpair : ∀ {x : Except Fault (Event × List String)},
      (∃ r, x = .ok r) ↔ ∃ e left, x = .ok (e, left) := by simp
  cases j with
  | obj members => exact exists_ofMembers_iff.symm.trans hpair
  | arr items => exact exists_ofItems_iff.symm.trans hpair
  | _ => exact ⟨False.elim, nofun⟩

end Event
end Chronicle
