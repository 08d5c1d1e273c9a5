import Chronicle.Proofs.Except
import Chronicle.Store.Basic

/-!
# Calls on a store

A store is used through calls: an attribute is created, or an attribute is mutated at a time. A call
may be refused, and then the store stays as it is. The stores that matter are those that calls lead
to from the empty one (`Store.Reachable`).

Every call is seen through the tracks of the attributes.

* `create` leaves every track alone; an attribute that is new has the track of one that is not there
  (`track_withTree`).
* `mutate` acts on the tracks of the attributes that it reaches and on no other
  (`track_perform`).
* There is a track for each attribute, whatever the calls (`Reachable.tracks_size`).
-/

namespace Chronicle

/-- A call on a store. -/
inductive Call
  | create (parent : Quark) (name : String)
  | mutate (q : Quark) (t : Int64) (m : Mutation)
deriving DecidableEq, Repr

namespace Tree

@[simp] theorem contains_ofNat {t : Tree} {i : Nat} :
    t.contains (Int.ofNat i) = true ↔ i < t.size := by
  simp [contains, node?, size, Int.toNat?]

/-- The quarks of the attributes are the numbers below the size of the tree. -/
theorem contains_iff {t : Tree} {q : Quark} :
    t.contains q = true ↔ ∃ i < t.size, q = Int.ofNat i := by
  constructor
  · intro h
    cases q with
    | ofNat i => exact ⟨i, contains_ofNat.mp h, rfl⟩
    | negSucc i => simp [contains, node?, Int.toNat?] at h
  · rintro ⟨i, hi, rfl⟩
    exact contains_ofNat.mpr hi

theorem not_contains_root (t : Tree) : t.contains Quark.root = false := rfl

theorem mem_quarks {t : Tree} {q : Quark} : q ∈ t.quarks ↔ t.contains q = true := by
  rw [contains_iff, quarks, List.mem_map]
  constructor
  · rintro ⟨i, hi, rfl⟩
    exact ⟨i, List.mem_range.mp hi, rfl⟩
  · rintro ⟨i, hi, rfl⟩
    exact ⟨i, List.mem_range.mpr hi, rfl⟩

theorem pairwise_quarks (t : Tree) : t.quarks.Pairwise (· < ·) :=
  List.Pairwise.map _ (fun _ _ h => Int.ofNat_lt.mpr h) List.pairwise_lt_range

theorem nodup_quarks (t : Tree) : t.quarks.Nodup := by
  refine List.Pairwise.map _ (fun i j h => ?_) List.nodup_range
  exact fun e => h (Int.ofNat.inj e)

theorem mem_descendants {t : Tree} {q d : Quark} :
    d ∈ t.descendants q ↔ t.contains d = true ∧ d ≠ q ∧ q ∈ t.lineage d := by
  simp [descendants, mem_quarks]

end Tree

namespace Mutation

theorem nodup_reach (m : Mutation) (t : Tree) (q : Quark) : (m.reach t q).Nodup := by
  have hd : (t.descendants q ++ [q]).Nodup := by
    rw [List.nodup_append]
    refine ⟨(Tree.nodup_quarks t).filter _, by simp, fun d hd e he hde => ?_⟩
    obtain rfl := List.mem_singleton.mp he
    exact (Tree.mem_descendants.mp hd).2.1 hde
  cases m with
  | remove => exact hd
  | _ => simp [reach]

/-- A mutation of an attribute reaches attributes only. -/
theorem contains_of_mem_reach {m : Mutation} {t : Tree} {q d : Quark} (hq : t.contains q = true)
    (hd : d ∈ m.reach t q) : t.contains d = true := by
  cases m with
  | remove =>
      rcases List.mem_append.mp hd with hd | hd
      · exact (Tree.mem_descendants.mp hd).1
      · rwa [List.mem_singleton.mp hd]
  | _ => rwa [List.mem_singleton.mp hd]

theorem self_mem_reach (m : Mutation) (t : Tree) (q : Quark) : q ∈ m.reach t q := by
  cases m <;> simp [reach]

/-- The value that a mutation writes to an attribute that it reaches. A `pop` of an empty stack
writes nothing. -/
def written? (k : Track) : Mutation → Option Value
  | .set v => some v
  | .increment delta => some (.int (k.ongoing.int?.getD 0 + delta))
  | .push v => some v
  | .pop => if k.stack.isEmpty then none else some (k.stack.tail.headD .null)
  | .remove => some .null

/-- The sum of an increment that adds up. -/
theorem written?_of_sum {k : Track} {delta n : Int32} (h : k.sum delta = .ok n) :
    (Mutation.increment delta).written? k = some (.int n) := by
  unfold Track.sum at h
  cases hk : k.ongoing with
  | null =>
      rw [hk] at h
      obtain rfl := Except.ok.inj h
      simp [written?, hk, Value.int?]
  | int i =>
      simp only [hk] at h
      split at h
      · obtain rfl := Except.ok.inj h
        simp [written?, hk, Value.int?]
      · cases h
  | long i => simp [hk] at h
  | text s => simp [hk] at h

/-- A mutation that adds up either writes, or empties the stack of an attribute that holds nothing,
or is a `pop` of an empty stack. -/
theorem act_cases {k : Track} {m : Mutation} (t : Int64)
    (hsum : ∀ delta, m = .increment delta → ∃ n, k.sum delta = .ok n) :
    (∃ v stack, m.written? k = some v ∧ m.act t k = { k.write t v with stack }) ∨
      (m = .remove ∧ k.ongoing = .null ∧ m.act t k = { k with stack := [] }) ∨
        (m = .pop ∧ k.stack = [] ∧ m.act t k = k) := by
  cases m with
  | set v => exact .inl ⟨v, [], rfl, rfl⟩
  | increment delta =>
      obtain ⟨n, hn⟩ := hsum delta rfl
      refine .inl ⟨.int n, k.stack, written?_of_sum hn, ?_⟩
      simp only [act, Track.increment, hn]
      rfl
  | push v => exact .inl ⟨v, v :: k.stack, rfl, rfl⟩
  | pop =>
      cases hk : k.stack with
      | nil => exact .inr (.inr ⟨rfl, rfl, by simp [act, Track.pop, hk]⟩)
      | cons v rest =>
          exact .inl ⟨rest.headD .null, rest, by simp [written?, hk], by simp [act, Track.pop, hk]⟩
  | remove =>
      by_cases hk : k.ongoing.isNull = true
      · exact .inr (.inl ⟨rfl, Value.isNull_iff.mp hk, by simp [act, Track.clear, hk]⟩)
      · refine .inl ⟨.null, [], rfl, ?_⟩
        simp only [act, Track.clear, hk]
        rfl

end Mutation

namespace Store

/-- The store with a larger tree, in which the attributes that are new were never written. -/
def withTree (s : Store) (tree : Tree) : Store :=
  { s with
    tree
    tracks := s.tracks ++ Array.replicate (tree.size - s.tracks.size) {} }

@[simp] theorem withTree_tree (s : Store) (tree : Tree) : (s.withTree tree).tree = tree := rfl

@[simp] theorem withTree_clock (s : Store) (tree : Tree) : (s.withTree tree).clock = s.clock := rfl

theorem withTree_tracks_size (s : Store) (tree : Tree) (h : s.tracks.size ≤ tree.size) :
    (s.withTree tree).tracks.size = tree.size := by
  simp only [withTree, Array.size_append, Array.size_replicate]
  omega

theorem track_empty (q : Quark) : ({} : Store).track q = {} := by
  unfold track
  cases q.toNat? <;> rfl

theorem track_of_not_contains {s : Store} (hs : s.tracks.size = s.tree.size) {q : Quark}
    (hq : s.tree.contains q = false) : s.track q = {} := by
  unfold track
  cases q with
  | negSucc i => rfl
  | ofNat i =>
      have hi : ¬i < s.tracks.size := by
        rw [hs, ← Tree.contains_ofNat, hq]
        exact Bool.false_ne_true
      simp [Int.toNat?, hi]

/-- An attribute that is new has the track of one that is not there. -/
@[simp] theorem track_withTree (s : Store) (tree : Tree) (d : Quark) :
    (s.withTree tree).track d = s.track d := by
  unfold track withTree
  cases d.toNat? with
  | none => rfl
  | some i =>
      simp only [Option.bind_some, Array.getElem?_append, Array.getElem?_replicate]
      by_cases hi : i < s.tracks.size
      · rw [if_pos hi]
      · rw [if_neg hi, Array.getElem?_eq_none (by omega)]
        split <;> rfl

theorem withTree_self {s : Store} (h : s.tracks.size = s.tree.size) : s.withTree s.tree = s := by
  simp [withTree, h]

theorem withTree_withTree {s : Store} {t₁ t₂ : Tree} (h₁ : s.tracks.size ≤ t₁.size)
    (h₂ : t₁.size ≤ t₂.size) : (s.withTree t₁).withTree t₂ = s.withTree t₂ := by
  have hsum : t₁.size - s.tracks.size + (t₂.size - t₁.size) = t₂.size - s.tracks.size := by omega
  have hsize := withTree_tracks_size s t₁ h₁
  rw [withTree, hsize, withTree, withTree, Array.append_assoc, Array.replicate_append_replicate,
    hsum]

theorem create_eq (s : Store) (parent : Quark) (name : String) :
    s.create parent name = (s.tree.add parent name).map fun (q, tree) => (q, s.withTree tree) := rfl

/-! ### Mutations -/

@[simp] theorem modify_tree (s : Store) (q : Quark) (f : Track → Track) :
    (s.modify q f).tree = s.tree := by
  unfold modify; split <;> rfl

@[simp] theorem modify_clock (s : Store) (q : Quark) (f : Track → Track) :
    (s.modify q f).clock = s.clock := by
  unfold modify; split <;> rfl

@[simp] theorem modify_tracks_size (s : Store) (q : Quark) (f : Track → Track) :
    (s.modify q f).tracks.size = s.tracks.size := by
  unfold modify; split <;> simp

theorem track_modify {s : Store} (hs : s.tracks.size = s.tree.size) {q : Quark}
    (hq : s.tree.contains q = true) (f : Track → Track) (d : Quark) :
    (s.modify q f).track d = if d = q then f (s.track d) else s.track d := by
  obtain ⟨i, hi, rfl⟩ := Tree.contains_iff.mp hq
  cases d with
  | negSucc j => rfl
  | ofNat j =>
      simp only [modify, track, Int.toNat?, Option.bind_some, Array.getElem?_modify]
      by_cases h : i = j
      · subst h
        simp [hs, hi]
      · have hne : (Int.ofNat j : Quark) ≠ Int.ofNat i := fun e => h (Int.ofNat.inj e).symm
        rw [if_neg h, if_neg hne]

/-- One step of a mutation after another, each at an attribute of its own. -/
theorem track_foldl_modify (f : Track → Track) (d : Quark) (qs : List Quark) (hn : qs.Nodup)
    (s : Store) (hs : s.tracks.size = s.tree.size)
    (hq : ∀ q ∈ qs, s.tree.contains q = true) :
    (qs.foldl (fun s q => s.modify q f) s).track d =
      if d ∈ qs then f (s.track d) else s.track d := by
  induction qs generalizing s with
  | nil => simp
  | cons q rest ih =>
      obtain ⟨hqr, hn⟩ := List.nodup_cons.mp hn
      rw [List.foldl_cons, ih hn (s.modify q f) (by simpa using hs)
        (by simpa using fun p hp => hq p (List.mem_cons_of_mem _ hp)),
        track_modify hs (hq q List.mem_cons_self)]
      by_cases h : d = q
      · subst h
        simp [hqr]
      · simp [h]

theorem foldl_modify_frame (f : Track → Track) (qs : List Quark) (s : Store) :
    (qs.foldl (fun s q => s.modify q f) s).tree = s.tree ∧
      (qs.foldl (fun s q => s.modify q f) s).clock = s.clock ∧
      (qs.foldl (fun s q => s.modify q f) s).tracks.size = s.tracks.size := by
  induction qs generalizing s with
  | nil => exact ⟨rfl, rfl, rfl⟩
  | cons q rest ih => simpa using ih (s.modify q f)

variable {s : Store} {q : Quark} {t : Int64} {m : Mutation}

@[simp] theorem perform_tree : (s.perform q t m).tree = s.tree :=
  (foldl_modify_frame ..).1

@[simp] theorem perform_clock : (s.perform q t m).clock = some t :=
  (foldl_modify_frame ..).2.1

@[simp] theorem perform_tracks_size : (s.perform q t m).tracks.size = s.tracks.size :=
  (foldl_modify_frame ..).2.2

/-- A mutation acts on the tracks of the attributes that it reaches, and on no other. -/
theorem track_perform (hs : s.tracks.size = s.tree.size) (hq : s.tree.contains q = true)
    (d : Quark) :
    (s.perform q t m).track d =
      if d ∈ m.reach s.tree q then m.act t (s.track d) else s.track d :=
  track_foldl_modify (m.act t) d _ (m.nodup_reach s.tree q) { s with clock := some t } hs
    fun _ hp => Mutation.contains_of_mem_reach hq hp

theorem clock_le_of_eq {c : Int64} (hc : s.clock = some c) (h : c ≤ t) : ∀ d ∈ s.clock, d ≤ t := by
  rw [hc]
  rintro d ⟨⟩
  exact h

theorem permit_eq_ok_iff :
    s.permit q t = .ok () ↔ s.tree.contains q = true ∧ ∀ c ∈ s.clock, c ≤ t := by
  unfold permit
  by_cases hq : s.tree.contains q = true
  · cases hc : s.clock with
    | none => simp [hq]
    | some c => by_cases ht : t < c <;> simp [hq, ht, ← Int64.not_lt]
  · simp [hq]

theorem addsUp_eq_ok_iff :
    s.addsUp q m = .ok () ↔ ∀ delta, m = .increment delta → ∃ n, (s.track q).sum delta = .ok n := by
  cases m with
  | increment delta =>
      unfold addsUp
      cases h : (s.track q).sum delta with
      | ok n => simp [h]
      | error e => cases e <;> simp [h]
  | _ => simp [addsUp]

/-- A mutation is accepted: it names an attribute, is not late, and adds up. -/
structure Accepts (s : Store) (q : Quark) (t : Int64) (m : Mutation) : Prop where
  contains : s.tree.contains q = true
  clock_le : ∀ c ∈ s.clock, c ≤ t
  sum : ∀ delta, m = .increment delta → ∃ n, (s.track q).sum delta = .ok n

/-- Only the attribute that is named is added to. -/
theorem Accepts.sum_of_mem_reach (h : s.Accepts q t m) {d : Quark} (hd : d ∈ m.reach s.tree q) :
    ∀ delta, m = .increment delta → ∃ n, (s.track d).sum delta = .ok n := by
  rintro delta rfl
  obtain rfl := List.mem_singleton.mp hd
  exact h.sum delta rfl

theorem accepts_iff : s.Accepts q t m ↔ s.permit q t = .ok () ∧ s.addsUp q m = .ok () := by
  rw [permit_eq_ok_iff, addsUp_eq_ok_iff]
  exact ⟨fun h => ⟨⟨h.contains, h.clock_le⟩, h.sum⟩, fun h => ⟨h.1.1, h.1.2, h.2⟩⟩

theorem mutate_eq (s : Store) (q : Quark) (t : Int64) (m : Mutation) :
    s.mutate q t m = (s.permit q t >>= fun _ => s.addsUp q m >>= fun _ =>
      pure (s.perform q t m)) := rfl

theorem mutate_eq_ok_iff {after : Store} :
    s.mutate q t m = .ok after ↔ s.Accepts q t m ∧ after = s.perform q t m := by
  simp only [mutate_eq, accepts_iff, bind_eq_ok_iff, pure_eq_ok_iff]
  constructor
  · rintro ⟨_, hpermit, _, hadds, h⟩
    exact ⟨⟨hpermit, hadds⟩, h.symm⟩
  · rintro ⟨⟨hpermit, hadds⟩, h⟩
    exact ⟨_, hpermit, _, hadds, h.symm⟩

theorem mutate_error_of_not_accepts (h : ¬s.Accepts q t m) : ∃ e, s.mutate q t m = .error e := by
  cases hm : s.mutate q t m with
  | ok after => exact absurd (mutate_eq_ok_iff.mp hm).1 h
  | error e => exact ⟨e, rfl⟩

/-! ### Calls -/

/-- The store after a call. A call that is refused changes nothing. -/
def call (s : Store) : Call → Store
  | .create parent name =>
    match s.create parent name with
    | .ok (_, after) => after
    | .error _ => s
  | .mutate q t m =>
    match s.mutate q t m with
    | .ok after => after
    | .error _ => s

/-- The store after calls in order. -/
def callEach (s : Store) (calls : List Call) : Store :=
  calls.foldl call s

/-- The stores that calls lead to from the empty one. -/
inductive Reachable : Store → Prop
  | empty : Reachable {}
  | call {s : Store} (c : Call) : Reachable s → Reachable (s.call c)

theorem Reachable.callEach {s : Store} (h : s.Reachable) (calls : List Call) :
    (s.callEach calls).Reachable := by
  induction calls generalizing s with
  | nil => exact h
  | cons c rest ih => exact ih (h.call c)

/-- Calls lead from one store to another. -/
def LeadsTo (s after : Store) : Prop :=
  ∃ calls, after = s.callEach calls

theorem LeadsTo.refl (s : Store) : s.LeadsTo s :=
  ⟨[], rfl⟩

theorem LeadsTo.trans {s₁ s₂ s₃ : Store} (h₁ : s₁.LeadsTo s₂) (h₂ : s₂.LeadsTo s₃) :
    s₁.LeadsTo s₃ := by
  obtain ⟨calls, rfl⟩ := h₁
  obtain ⟨more, rfl⟩ := h₂
  exact ⟨calls ++ more, List.foldl_append.symm⟩

theorem leadsTo_call (s : Store) (c : Call) : s.LeadsTo (s.call c) :=
  ⟨[c], rfl⟩

theorem Reachable.leadsTo {after : Store} (hs : s.Reachable) (h : s.LeadsTo after) :
    after.Reachable := by
  obtain ⟨calls, rfl⟩ := h
  exact hs.callEach calls

theorem reachable_iff : s.Reachable ↔ ({} : Store).LeadsTo s := by
  constructor
  · intro h
    induction h with
    | empty => exact .refl _
    | call c _ ih => exact ih.trans (leadsTo_call _ c)
  · exact Reachable.empty.leadsTo

theorem call_mutate_of_accepts (h : s.Accepts q t m) :
    s.call (.mutate q t m) = s.perform q t m := by
  rw [call, mutate_eq_ok_iff.mpr ⟨h, rfl⟩]

theorem call_mutate_of_not_accepts (h : ¬s.Accepts q t m) : s.call (.mutate q t m) = s := by
  obtain ⟨e, he⟩ := mutate_error_of_not_accepts h
  rw [call, he]

theorem call_mutate_cases (s : Store) (q : Quark) (t : Int64) (m : Mutation) :
    (s.Accepts q t m ∧ s.call (.mutate q t m) = s.perform q t m) ∨
      (¬s.Accepts q t m ∧ s.call (.mutate q t m) = s) := by
  by_cases h : s.Accepts q t m
  · exact .inl ⟨h, call_mutate_of_accepts h⟩
  · exact .inr ⟨h, call_mutate_of_not_accepts h⟩

@[simp] theorem call_mutate_tree (s : Store) (q : Quark) (t : Int64) (m : Mutation) :
    (s.call (.mutate q t m)).tree = s.tree := by
  rcases s.call_mutate_cases q t m with ⟨-, hcall⟩ | ⟨-, hcall⟩
  · rw [hcall, perform_tree]
  · rw [hcall]

/-- A mutation writes nothing where it does not reach. -/
theorem track_call_mutate (hs : s.tracks.size = s.tree.size) {d : Quark}
    (hd : d ∉ m.reach s.tree q) : (s.call (.mutate q t m)).track d = s.track d := by
  rcases s.call_mutate_cases q t m with ⟨ha, hcall⟩ | ⟨-, hcall⟩
  · rw [hcall, track_perform hs ha.contains, if_neg hd]
  · rw [hcall]

/-- Creating an attribute writes nothing. -/
theorem track_call_create (s : Store) (parent : Quark) (name : String) (d : Quark) :
    (s.call (.create parent name)).track d = s.track d := by
  simp only [call, create_eq]
  cases s.tree.add parent name with
  | error u => rfl
  | ok added => exact track_withTree s added.2 d

/-- Everything that a call can do: leave the store alone, extend the tree by one attribute, or
perform a mutation that is accepted. -/
theorem call_cases (s : Store) (hs : s.tracks.size = s.tree.size) (c : Call) :
    s.call c = s ∨
      (∃ parent name, (parent = Quark.root ∨ s.tree.contains parent = true) ∧
        s.tree.child? parent name = none ∧
          s.call c = s.withTree ⟨s.tree.nodes.push ⟨name, parent⟩⟩) ∨
      ∃ q t m, c = .mutate q t m ∧ s.Accepts q t m ∧ s.call c = s.perform q t m := by
  cases c with
  | create parent name =>
      simp only [call, create_eq, Tree.add]
      by_cases hp : parent = Quark.root ∨ s.tree.contains parent = true
      · cases hc : s.tree.child? parent name with
        | some q => simp [hp, Except.map, withTree_self hs]
        | none => exact .inr (.inl ⟨parent, name, hp, hc, by simp [hp, Except.map]⟩)
      · simp [hp, Except.map]
  | mutate q t m =>
      rcases s.call_mutate_cases q t m with ⟨h, hcall⟩ | ⟨-, hcall⟩
      · exact .inr (.inr ⟨q, t, m, rfl, h, hcall⟩)
      · exact .inl hcall

/-- There is a track for each attribute. -/
theorem Reachable.tracks_size (h : s.Reachable) : s.tracks.size = s.tree.size := by
  induction h with
  | empty => rfl
  | @call s c _ ih =>
      rcases s.call_cases ih c with hc | ⟨parent, name, _, _, hc⟩ | ⟨q, t, m, _, _, hc⟩
      · rw [hc, ih]
      · rw [hc, withTree_tracks_size _ _ (by simp [ih, Tree.size]), withTree_tree]
      · rw [hc, perform_tracks_size, perform_tree, ih]

end Store
end Chronicle
