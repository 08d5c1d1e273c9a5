import Chronicle.Json.Parser
import Chronicle.Json.Record

/-!
# Reading what was written

A record is written as an object with one member for each of its fields, and a tagged record as one
whose first member names its kind. So to read it back is to find its kind (`Json.tagged?_obj`) and
then its fields, and a list is read back if its items are (`Json.mapM_map_eq_some`).

Readers that ask how deep a value nests ask it of parts of a document too: a part of a value nests
less deep than the value, and it is sound if the value is (`Json.sound_of_mem_items`,
`Json.sound_of_mem_members`).
-/

namespace Chronicle
namespace Json

variable {items : List Json} {members : List (String × Json)} {j : Json}

/-! ### Parts of a value -/

theorem depth_le_itemsDepth (h : j ∈ items) : j.depth ≤ itemsDepth items := by
  induction items with
  | nil => cases h
  | cons i rest ih =>
      rcases List.mem_cons.mp h with rfl | h
      · exact Nat.le_max_left ..
      · exact Nat.le_trans (ih h) (Nat.le_max_right ..)

theorem depth_le_membersDepth {member : String × Json} (h : member ∈ members) :
    member.2.depth ≤ membersDepth members := by
  induction members with
  | nil => cases h
  | cons m rest ih =>
      rcases List.mem_cons.mp h with rfl | h
      · exact Nat.le_max_left ..
      · exact Nat.le_trans (ih h) (Nat.le_max_right ..)

/-- What nests no deeper than an object leaves room for the object. -/
theorem exists_succ_of_depth_le {n : Nat} (h : (obj members).depth ≤ n) :
    ∃ m, n = m + 1 ∧ ∀ member ∈ members, member.2.depth ≤ m := by
  rw [depth] at h
  obtain ⟨m, rfl⟩ : ∃ m, n = m + 1 := ⟨n - 1, by omega⟩
  refine ⟨m, rfl, fun member hmember => ?_⟩
  have hle := depth_le_membersDepth hmember
  omega

theorem isDefined_of_mem_items (hd : itemsDefined items = true) (h : j ∈ items) :
    j.isDefined = true := by
  induction items with
  | nil => cases h
  | cons i rest ih =>
      rw [itemsDefined, Bool.and_eq_true] at hd
      rcases List.mem_cons.mp h with rfl | h
      · exact hd.1
      · exact ih hd.2 h

theorem isDefined_of_mem_members (hd : membersDefined members = true) {member : String × Json}
    (h : member ∈ members) : member.2.isDefined = true := by
  induction members with
  | nil => cases h
  | cons m rest ih =>
      rw [membersDefined, Bool.and_eq_true] at hd
      rcases List.mem_cons.mp h with rfl | h
      · exact hd.1
      · exact ih hd.2 h

theorem sound_iff {n : Nat} :
    j.sound n = true ↔ j.isDefined = true ∧ n + j.depth ≤ nestingLimit := by
  rw [sound, Bool.and_eq_true, decide_eq_true_eq]

theorem sound_of_mem_items {n : Nat} (hs : (arr items).sound n = true) (h : j ∈ items) :
    j.sound (n + 1) = true := by
  obtain ⟨hdefined, hdepth⟩ := sound_iff.mp hs
  have hle := depth_le_itemsDepth h
  rw [depth] at hdepth
  exact sound_iff.mpr ⟨isDefined_of_mem_items hdefined h, by omega⟩

theorem sound_of_mem_members {n : Nat} (hs : (obj members).sound n = true) {name : String}
    (h : (name, j) ∈ members) : j.sound (n + 1) = true := by
  obtain ⟨hdefined, hdepth⟩ := sound_iff.mp hs
  have hle : j.depth ≤ membersDepth members := depth_le_membersDepth h
  rw [depth] at hdepth
  exact sound_iff.mpr ⟨isDefined_of_mem_members hdefined h, by omega⟩

/-- A reader that makes sure of something first gives what it gives if that holds. -/
theorem guard_bind_eq_some_iff {α : Type} {p : Prop} [Decidable p] {next : Unit → Option α}
    {a : α} : ((guard p : Option Unit) >>= next) = some a ↔ p ∧ next () = some a := by
  by_cases hp : p
  · have hguard : (guard p : Option Unit) = some () := if_pos hp
    rw [hguard]
    exact (and_iff_right hp).symm
  · have hguard : (guard p : Option Unit) = none := if_neg hp
    rw [hguard]
    exact ⟨nofun, fun h => absurd h.1 hp⟩

/-- A text that is read as a value has the shape of one that nests no deeper than documents may. -/
theorem read?_eq_some_iff {text : String} :
    read? text = some j ↔ parse text = some j ∧ j.sound 0 = true := by
  constructor
  · intro h
    obtain ⟨k, hk, h⟩ := Option.bind_eq_some_iff.mp h
    obtain ⟨hs, h⟩ := guard_bind_eq_some_iff.mp h
    obtain rfl := Option.some.inj h
    exact ⟨hk, hs⟩
  · rintro ⟨hk, hs⟩
    exact Option.bind_eq_some_iff.mpr ⟨j, hk, guard_bind_eq_some_iff.mpr ⟨hs, rfl⟩⟩

/-! ### Lists, kinds and optional fields -/

/-- What is read one by one is read as a list. -/
theorem mapM_map {α β γ : Type} {write : α → γ} {read : γ → Option β} {f : α → β} {l : List α}
    (h : ∀ a ∈ l, read (write a) = some (f a)) : (l.map write).mapM read = some (l.map f) := by
  induction l with
  | nil => rfl
  | cons a rest ih =>
      obtain ⟨ha, hrest⟩ := List.forall_mem_cons.mp h
      rw [List.map_cons, List.mapM_cons, ha, ih hrest]
      rfl

/-- What is read back one by one is read back as a list. -/
theorem mapM_map_eq_some {α γ : Type} {write : α → γ} {read : γ → Option α} {l : List α}
    (h : ∀ a ∈ l, read (write a) = some a) : (l.map write).mapM read = some l := by
  rw [mapM_map (f := id) h, List.map_id]

/-- What is read as a list is read one by one. -/
theorem exists_of_mem_mapM {α : Type} {read : Json → Option α} {items : List Json} {l : List α}
    (h : items.mapM read = some l) : ∀ a ∈ l, ∃ j ∈ items, read j = some a := by
  induction items generalizing l with
  | nil =>
      obtain rfl := Option.some.inj h
      simp
  | cons j rest ih =>
      simp only [List.mapM_cons, Option.bind_eq_bind, Option.bind_eq_some_iff, Option.pure_def,
        Option.some.injEq] at h
      obtain ⟨b, hb, bs, hbs, rfl⟩ := h
      intro a ha
      rcases List.mem_cons.mp ha with rfl | ha
      · exact ⟨j, List.mem_cons_self, hb⟩
      · obtain ⟨k, hk, hka⟩ := ih hbs a ha
        exact ⟨k, List.mem_cons_of_mem _ hk, hka⟩

/-- Items are read back as a list by a reader that may go as deep as the list nests. -/
theorem mapM_map_of_depth_le {α : Type} {write : α → Json} {read : Nat → Json → Option α}
    {l : List α} {n : Nat}
    (h : ∀ a ∈ l, ∀ n, (write a).depth ≤ n → read n (write a) = some a)
    (hdepth : (arr (l.map write)).depth ≤ n) : (l.map write).mapM (read n) = some l := by
  refine mapM_map_eq_some fun a ha => h a ha n ?_
  have hle := depth_le_itemsDepth (List.mem_map_of_mem (f := write) ha)
  rw [depth] at hdepth
  omega

/-- A tagged record is read by the kind that its first member names. -/
theorem tagged?_obj {kinds : List String} {kind : String} (hkind : kind ∈ kinds)
    (position : Position) (hmembers : ∀ member ∈ members, member.1 ≠ "type") :
    (obj (("type", .str kind) :: members)).tagged? kinds position = some (kind, .obj members) := by
  -- No other member names a kind, so the first is the only one that does.
  have hnone : members.filter (·.1 == "type") = [] := by
    simpa [List.filter_eq_nil_iff] using hmembers
  have hall : members.filter (·.1 != "type") = members := by
    simpa [List.filter_eq_self] using hmembers
  simp [tagged?, hnone, hall, kind?, hkind]

/-- A record of one field. -/
theorem record?_singleton (name : String) (j : Json) :
    (obj [(name, j)]).record? [[name]] = some [some j] := by
  simp [record?, field?]

/-- A field that is there and not `null` is read as what it holds. -/
theorem optional?_some {α : Type} {decode : Json → Option α} {a : α} (hj : j ≠ .null)
    (h : decode j = some a) : optional? decode (some j) = some (some a) := by
  cases j with
  | null => exact absurd rfl hj
  | _ => exact congrArg (Option.map some) h

/-! ### Equality -/

mutual

/-- The two values are one. -/
def same : Json → Json → Bool
  | .null, .null => true
  | .bool a, .bool b => a == b
  | .int m, .int n => m == n
  | .decimal s, .decimal t => s == t
  | .str s, .str t => s == t
  | .arr as, .arr bs => sameItems as bs
  | .obj as, .obj bs => sameMembers as bs
  | .void, .void => true
  | _, _ => false

/-- The items are the same, in order. -/
def sameItems : List Json → List Json → Bool
  | [], [] => true
  | a :: as, b :: bs => a.same b && sameItems as bs
  | _, _ => false

/-- The members are the same, in order. -/
def sameMembers : List (String × Json) → List (String × Json) → Bool
  | [], [] => true
  | (s, a) :: as, (t, b) :: bs => s == t && (a.same b && sameMembers as bs)
  | _, _ => false

end

mutual

theorem eq_of_same : ∀ {a b : Json}, a.same b = true → a = b
  | .arr as, b, h => by
    cases b with
    | arr bs => exact congrArg _ (eq_of_sameItems h)
    | _ => cases h
  | .obj as, b, h => by
    cases b with
    | obj bs => exact congrArg _ (eq_of_sameMembers h)
    | _ => cases h
  | .null, b, h => by cases b <;> simp_all [same]
  | .bool a, b, h => by cases b <;> simp_all [same]
  | .int m, b, h => by cases b <;> simp_all [same]
  | .decimal s, b, h => by cases b <;> simp_all [same]
  | .str s, b, h => by cases b <;> simp_all [same]
  | .void, b, h => by cases b <;> simp_all [same]

theorem eq_of_sameItems : ∀ {as bs : List Json}, sameItems as bs = true → as = bs
  | [], [], _ => rfl
  | a :: as, b :: bs, h => by
    rw [sameItems, Bool.and_eq_true] at h
    rw [eq_of_same h.1, eq_of_sameItems h.2]

theorem eq_of_sameMembers : ∀ {as bs : List (String × Json)}, sameMembers as bs = true → as = bs
  | [], [], _ => rfl
  | (s, a) :: as, (t, b) :: bs, h => by
    rw [sameMembers, Bool.and_eq_true, Bool.and_eq_true, beq_iff_eq] at h
    rw [h.1, eq_of_same h.2.1, eq_of_sameMembers h.2.2]

end

mutual

theorem same_self : ∀ a : Json, a.same a = true
  | .arr as => sameItems_self as
  | .obj as => sameMembers_self as
  | .null => rfl
  | .bool a => by simp [same]
  | .int n => by simp [same]
  | .decimal s => by simp [same]
  | .str s => by simp [same]
  | .void => rfl

theorem sameItems_self : ∀ as : List Json, sameItems as as = true
  | [] => rfl
  | a :: as => by rw [sameItems, same_self a, sameItems_self as]; rfl

theorem sameMembers_self : ∀ as : List (String × Json), sameMembers as as = true
  | [] => rfl
  | (s, a) :: as => by rw [sameMembers, same_self a, sameMembers_self as]; simp

end

instance : DecidableEq Json := fun a b =>
  decidable_of_iff (a.same b = true) ⟨eq_of_same, fun h => h ▸ same_self a⟩

end Json
end Chronicle
