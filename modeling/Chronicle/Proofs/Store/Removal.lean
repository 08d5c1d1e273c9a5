import Chronicle.Proofs.Store.Chain
import Chronicle.Proofs.Store.Stepwise

/-!
# What a removal does

To remove an attribute is to clear it and all that lies below it (`Tree.Below`): each forgets its
stack, and one that holds something is written with `null`. Nothing else changes, and the tree stays
(`Store.Removed`).

What lies below is found by a search that visits an attribute and has its children still to visit,
in whatever order they come (`Tree.Visits`). The order does not count, for an attribute is cleared
by itself, whatever becomes of the others. Nor does it count how often an attribute is visited, for
to clear it again does nothing (`Store.foldl_modify_of_mem_iff`). So to remove an attribute twice at
one time is to remove it once.
-/

namespace Chronicle

/-! ### What lies below -/

namespace Tree

/-- The parents of `d`, from one to the next, come to `q`. -/
inductive Below (t : Tree) (q : Quark) : Quark → Prop
  | child {d : Quark} : t.parent? d = some q → Below t q d
  | step {d p : Quark} : t.parent? d = some p → Below t q p → Below t q d

variable {t : Tree} {q d p : Quark}

theorem contains_of_parent? (h : t.parent? d = some p) : t.contains d = true := by
  obtain ⟨node, hnode, -⟩ := Option.map_eq_some_iff.mp h
  rw [contains, hnode]
  rfl

theorem Below.contains (h : t.Below q d) : t.contains d = true := by
  cases h with
  | child h => exact contains_of_parent? h
  | step h _ => exact contains_of_parent? h

/-- A parent is the root or an attribute that was created earlier. -/
theorem Grounded.parent?_lt (ht : t.Grounded) (h : t.parent? d = some p) :
    p < d ∧ (p = Quark.root ∨ t.contains p = true) := by
  obtain ⟨i, hi, rfl⟩ := contains_iff.mp (contains_of_parent? h)
  obtain ⟨node, hnode, rfl⟩ := Option.map_eq_some_iff.mp h
  rcases ht i node hnode with hroot | ⟨j, hj, hparent⟩
  · rw [hroot]
    exact ⟨Int.negSucc_lt_zero 0 |>.trans_le (Int.natCast_nonneg i), .inl rfl⟩
  · rw [hparent]
    exact ⟨Int.ofNat_lt.mpr hj, .inr (contains_ofNat.mpr (hj.trans hi))⟩

theorem Below.lt (ht : t.Grounded) (h : t.Below q d) : q < d := by
  induction h with
  | child h => exact (ht.parent?_lt h).1
  | step h _ ih => exact ih.trans (ht.parent?_lt h).1

/-- The lineage of an attribute goes on with that of its parent. -/
theorem lineage_eq_cons (ht : t.Grounded) (h : t.parent? d = some p) :
    t.lineage d = d :: t.lineage p := by
  obtain ⟨i, hi, rfl⟩ := contains_iff.mp (contains_of_parent? h)
  obtain ⟨n, hn⟩ := Nat.exists_eq_add_of_lt hi
  obtain ⟨hlt, hp⟩ := ht.parent?_lt h
  have hcons : t.lineage (Int.ofNat i) = Int.ofNat i :: t.lineageWithin (i + n) p := by
    rw [lineage, hn, lineageWithin, h]
  rw [hcons, lineage]
  congr 1
  rcases hp with rfl | hp
  · rw [hn]
    cases i + n <;> rfl
  · obtain ⟨j, hj, rfl⟩ := contains_iff.mp hp
    have hji : j < i := Int.ofNat_lt.mp hlt
    exact lineageWithin_eq_of_growsTo ht (.refl t) hj hj (by omega)

theorem mem_lineage_of_below (ht : t.Grounded) (hq : t.contains q = true) (h : t.Below q d) :
    q ∈ t.lineage d := by
  have hself : q ∈ t.lineage q := by
    obtain ⟨node, hnode⟩ := Option.isSome_iff_exists.mp hq
    have hparent : t.parent? q = some node.parent := by rw [parent?, hnode]; rfl
    rw [lineage_eq_cons ht hparent]
    exact List.mem_cons_self
  induction h with
  | child h =>
      rw [lineage_eq_cons ht h]
      exact List.mem_cons_of_mem _ hself
  | step h _ ih =>
      rw [lineage_eq_cons ht h]
      exact List.mem_cons_of_mem _ ih

theorem below_of_mem_lineage (ht : t.Grounded) {i : Nat} (hne : Int.ofNat i ≠ q)
    (h : q ∈ t.lineage (Int.ofNat i)) : t.Below q (Int.ofNat i) := by
  induction i using Nat.strongRecOn with
  | ind i ih =>
      cases hp : t.parent? (Int.ofNat i) with
      | none =>
          have hnil : t.lineage (Int.ofNat i) = [] := by
            rw [lineage]
            cases t.size with
            | zero => rfl
            | succ n => rw [lineageWithin, hp]
          rw [hnil] at h
          cases h
      | some p =>
          rw [lineage_eq_cons ht hp] at h
          have hmem := (List.mem_cons.mp h).resolve_left (Ne.symm hne)
          by_cases hpq : p = q
          · exact .child (hpq ▸ hp)
          · obtain ⟨hlt, hroot | hcontains⟩ := ht.parent?_lt hp
            · rw [hroot, lineage] at hmem
              cases hsize : t.size <;> rw [hsize] at hmem <;> cases hmem
            · obtain ⟨j, -, rfl⟩ := contains_iff.mp hcontains
              exact .step hp (ih j (Int.ofNat_lt.mp hlt) hpq hmem)

/-- **The descendants of an attribute are what lies below it.** -/
theorem mem_descendants_iff_below (ht : t.Grounded) (hq : t.contains q = true) :
    d ∈ t.descendants q ↔ t.Below q d := by
  rw [mem_descendants]
  constructor
  · rintro ⟨hd, hne, hmem⟩
    obtain ⟨i, -, rfl⟩ := contains_iff.mp hd
    exact below_of_mem_lineage ht hne hmem
  · exact fun h => ⟨h.contains, (Int.ne_of_lt (h.lt ht)).symm, mem_lineage_of_below ht hq h⟩

/-! ### The search -/

/-- The children of an attribute, in order of creation. -/
def children (t : Tree) (q : Quark) : List Quark :=
  t.quarks.filter fun d => t.parent? d == some q

/-- Those in `order` are visited one after another when those in `pending` are to be visited. The
last of them comes first, and its children, in whatever order, are then to be visited too. -/
inductive Visits (t : Tree) : List Quark → List Quark → Prop
  | done : Visits t [] []
  | visit {d : Quark} {pending found order : List Quark} :
    found.Perm (t.children d) → Visits t (pending ++ found) order →
      Visits t (pending ++ [d]) (d :: order)

theorem mem_children : d ∈ t.children q ↔ t.parent? d = some q := by
  rw [children, List.mem_filter, mem_quarks, beq_iff_eq]
  exact ⟨fun h => h.2, fun h => ⟨contains_of_parent? h, h⟩⟩

theorem Below.trans_child (hp : t.parent? p = some q) (h : t.Below p d) : t.Below q d := by
  induction h with
  | child h => exact .step h (.child hp)
  | step h _ ih => exact .step h ih

/-- What lies below an attribute is its children and what lies below them. -/
theorem below_iff_children : t.Below q d ↔ ∃ c ∈ t.children q, d = c ∨ t.Below c d := by
  simp only [mem_children]
  constructor
  · intro h
    induction h with
    | @child d h => exact ⟨d, h, .inl rfl⟩
    | step h _ ih =>
        obtain ⟨c, hc, rfl | hbelow⟩ := ih
        · exact ⟨_, hc, .inr (.child h)⟩
        · exact ⟨c, hc, .inr (.step h hbelow)⟩
  · rintro ⟨c, hc, rfl | h⟩
    · exact .child hc
    · exact h.trans_child hc

/-- **The search finds what is to be visited and what lies below it,** and nothing else. -/
theorem Visits.mem_iff {pending order : List Quark} (h : t.Visits pending order) :
    d ∈ order ↔ ∃ p ∈ pending, d = p ∨ t.Below p d := by
  induction h with
  | done => simp
  | @visit e pending found order hfound _ ih =>
      have hbelow : (∃ c ∈ found, d = c ∨ t.Below c d) ↔ t.Below e d := by
        rw [below_iff_children (q := e)]
        simp only [hfound.mem_iff]
      have hsplit : ∀ more : List Quark, (∃ p ∈ pending ++ more, d = p ∨ t.Below p d) ↔
          (∃ p ∈ pending, d = p ∨ t.Below p d) ∨ ∃ p ∈ more, d = p ∨ t.Below p d := fun more => by
        simp only [List.mem_append, or_and_right, exists_or]
      have hlast : (∃ p ∈ [e], d = p ∨ t.Below p d) ↔ d = e ∨ t.Below e d := by simp
      rw [List.mem_cons, ih, hsplit, hsplit, hbelow, hlast, or_left_comm]

/-- From an attribute the search comes to an end, whatever is then still to be visited. -/
theorem exists_visits_last (ht : t.Grounded) (hd : t.contains d = true) :
    ∃ seen, ∀ pending order, t.Visits pending order →
      t.Visits (pending ++ [d]) (seen ++ order) := by
  obtain ⟨i, hi, rfl⟩ := contains_iff.mp hd
  -- children are created later, so that fewer attributes come after them
  induction hn : t.size - i using Nat.strongRecOn generalizing i with
  | ind n ih =>
      have hlist : ∀ qs : List Quark, (∀ c ∈ qs, t.parent? c = some (Int.ofNat i)) →
          ∃ seen, ∀ pending order, t.Visits pending order →
            t.Visits (pending ++ qs) (seen ++ order) := by
        intro qs hqs
        induction qs with
        | nil => exact ⟨[], fun pending order h => by simpa using h⟩
        | cons c rest ihqs =>
            obtain ⟨hc, hrest⟩ := List.forall_mem_cons.mp hqs
            obtain ⟨j, hj, rfl⟩ := contains_iff.mp (contains_of_parent? hc)
            have hij : i < j := Int.ofNat_lt.mp (ht.parent?_lt hc).1
            obtain ⟨first, hfirst⟩ := ih (t.size - j) (by omega) j hj (contains_of_parent? hc) rfl
            obtain ⟨later, hlater⟩ := ihqs hrest
            refine ⟨later ++ first, fun pending order h => ?_⟩
            simpa using hlater _ _ (hfirst pending order h)
      obtain ⟨seen, hseen⟩ := hlist _ fun c hc => mem_children.mp hc
      exact ⟨Int.ofNat i :: seen, fun pending order h => .visit (.refl _) (hseen pending order h)⟩

/-- The search comes to an end. -/
theorem exists_visits (ht : t.Grounded) {pending : List Quark}
    (hp : ∀ d ∈ pending, t.contains d = true) : ∃ order, t.Visits pending order := by
  induction pending using List.reverseRecOn with
  | nil => exact ⟨[], .done⟩
  | append_singleton pending d ih =>
      obtain ⟨hpending, hd⟩ := List.forall_mem_append.mp hp
      obtain ⟨order, horder⟩ := ih hpending
      obtain ⟨seen, hseen⟩ := exists_visits_last ht (hd d (List.mem_singleton.mpr rfl))
      exact ⟨seen ++ order, hseen pending order horder⟩

end Tree

/-! ### Clearing -/

theorem Track.clear_ongoing (k : Track) (t : Int64) : (k.clear t).ongoing = .null := by
  rw [clear]
  split
  · next h => exact Value.isNull_iff.mp h
  · rfl

theorem Track.clear_stack (k : Track) (t : Int64) : (k.clear t).stack = [] := by
  rw [clear]
  split <;> rfl

/-- To clear a track again, at whatever time, does nothing. -/
theorem Track.clear_clear (k : Track) (t u : Int64) : (k.clear t).clear u = k.clear t := by
  have hnull : ({ k.clear t with stack := [] } : Track).ongoing.isNull = true :=
    Value.isNull_iff.mpr (clear_ongoing k t)
  rw [clear.eq_def (k.clear t), if_pos hnull, ← clear_stack k t]

namespace Store

variable {s : Store} {q d : Quark} {t : Int64}

/-- Attributes are changed one after another, by a change that does nothing more the second time. -/
theorem track_foldl_modify_of_idem {f : Track → Track} (hf : ∀ k, f (f k) = f k) (d : Quark)
    (qs : List Quark) (s : Store) (hs : s.tracks.size = s.tree.size)
    (hq : ∀ q ∈ qs, s.tree.contains q = true) :
    (qs.foldl (fun s q => s.modify q f) s).track d =
      if d ∈ qs then f (s.track d) else s.track d := by
  induction qs generalizing s with
  | nil => simp
  | cons q rest ih =>
      obtain ⟨hq, hrest⟩ := List.forall_mem_cons.mp hq
      rw [List.foldl_cons, ih (s.modify q f) (by simpa using hs) (by simpa using hrest),
        track_modify hs hq]
      by_cases h : d = q
      · subst h
        simp [hf]
      · simp [h]

/-- Neither the order nor the number of times counts. -/
theorem foldl_modify_of_mem_iff {f : Track → Track} (hf : ∀ k, f (f k) = f k) {qs rs : List Quark}
    (hs : s.tracks.size = s.tree.size) (hq : ∀ q ∈ qs, s.tree.contains q = true)
    (h : ∀ d, d ∈ rs ↔ d ∈ qs) :
    rs.foldl (fun s q => s.modify q f) s = qs.foldl (fun s q => s.modify q f) s := by
  have hr : ∀ q ∈ rs, s.tree.contains q = true := fun q hmem => hq q ((h q).mp hmem)
  obtain ⟨htree, hclock, hsize⟩ := foldl_modify_frame f qs s
  obtain ⟨htree', hclock', hsize'⟩ := foldl_modify_frame f rs s
  refine ext_track (by rw [hsize', htree', hs]) (by rw [hsize, htree, hs]) (htree'.trans htree.symm)
    (hclock'.trans hclock.symm) fun d => ?_
  rw [track_foldl_modify_of_idem hf d rs s hs hr, track_foldl_modify_of_idem hf d qs s hs hq]
  simp only [h]

/-- A removal reaches the attribute and what lies below it. -/
theorem mem_reach_remove_iff (hs : s.Reachable) (hq : s.tree.contains q = true) :
    d ∈ Mutation.remove.reach s.tree q ↔ d = q ∨ s.tree.Below q d := by
  rw [Mutation.reach, List.mem_append, List.mem_singleton,
    Tree.mem_descendants_iff_below hs.grounded hq, or_comm]

theorem track_remove_of_below (hs : s.Reachable) (hq : s.tree.contains q = true)
    (hd : d = q ∨ s.tree.Below q d) :
    (s.perform q t .remove).track d = (s.track d).clear t := by
  rw [track_perform hs.tracks_size hq, if_pos ((mem_reach_remove_iff hs hq).mpr hd)]
  rfl

theorem track_remove_of_not_below (hs : s.Reachable) (hq : s.tree.contains q = true)
    (hd : ¬(d = q ∨ s.tree.Below q d)) : (s.perform q t .remove).track d = s.track d := by
  rw [track_perform hs.tracks_size hq, if_neg (mt (mem_reach_remove_iff hs hq).mp hd)]

/-- A removal is accepted again at its own time, and changes nothing. -/
theorem mutate_remove_again (hs : s.Reachable) (hq : s.tree.contains q = true) :
    (s.perform q t .remove).mutate q t .remove = .ok (s.perform q t .remove) := by
  have hsize : (s.perform q t .remove).tracks.size = (s.perform q t .remove).tree.size := by
    rw [perform_tracks_size, perform_tree, hs.tracks_size]
  have haccepts : (s.perform q t .remove).Accepts q t .remove := by
    refine ⟨by rw [perform_tree, hq], fun c hc => ?_, nofun⟩
    rw [← Option.some.inj (perform_clock.symm.trans hc)]
    exact Int64.le_refl t
  refine mutate_eq_ok_iff.mpr ⟨haccepts, ext_track hsize (by simpa using hsize) (by simp) (by simp)
    fun d => ?_⟩
  rw [track_perform hsize haccepts.contains, perform_tree]
  split
  · next hd =>
    rw [track_remove_of_below hs hq ((mem_reach_remove_iff hs hq).mp hd)]
    exact (Track.clear_clear _ t t).symm
  · rfl

/-- A removal is what comes of clearing the attribute and what lies below it, in any order. -/
theorem outcome_forM_clear_eq_remove (hs : s.Reachable) (hq : s.tree.contains q = true)
    {order : List Quark} (h : ∀ d, d ∈ order ↔ d = q ∨ s.tree.Below q d) :
    (order.forM (Steps.clear t)).outcome { s with clock := some t } =
      (.ok (), s.perform q t .remove) := by
  have hmem : ∀ d, d ∈ order ↔ d ∈ Mutation.remove.reach s.tree q := fun d =>
    (h d).trans (mem_reach_remove_iff hs hq).symm
  have hcontains : ∀ d ∈ Mutation.remove.reach s.tree q, s.tree.contains d = true := fun d =>
    Mutation.contains_of_mem_reach hq
  -- the store when the clock is set and nothing else has changed
  let now : Store := { s with clock := some t }
  have hsize : now.tracks.size = now.tree.size := hs.tracks_size
  rw [outcome_forM_clear (s := now) order hsize fun d hd => hcontains d ((hmem d).mp hd),
    foldl_modify_of_mem_iff (fun k => k.clear_clear t t) hsize hcontains hmem]
  rfl

/-- What the removal of `q` at time `t` does.

* `tree` and `clock`: the tree stays, and the clock stands at `t`.
* `cleared`: `q` and what lies below it hold nothing and have no stack.
* `written`: of these, one that held something did so until `t`, and holds nothing since `t`. No
  interval is empty, so one that was written at `t` has no new one.
* `kept`: one that held nothing has held nothing for as long as before.
* `others`: nothing else changes.
* `again`: to remove `q` at `t` again changes nothing.
* `anyOrder`: the same comes of clearing `q` and what lies below it in any order, the clock set.
* `searched`: in particular in the order in which a search finds them. -/
structure Removed (s : Store) (q : Quark) (t : Int64) (after : Store) : Prop where
  tree : after.tree = s.tree
  clock : after.clock = some t
  cleared : ∀ d, d = q ∨ s.tree.Below q d →
    after.ongoing d = .null ∧ (after.track d).stack = []
  written : ∀ d, d = q ∨ s.tree.Below q d → s.ongoing d ≠ .null →
    after.since d = some t ∧ ∃ since, s.since d = some since ∧ since ≤ t ∧
      after.intervals d =
        s.intervals d ++ if since < t then [⟨since, t, s.ongoing d⟩] else []
  kept : ∀ d, d = q ∨ s.tree.Below q d → s.ongoing d = .null →
    after.since d = s.since d ∧ after.intervals d = s.intervals d
  others : ∀ d, ¬(d = q ∨ s.tree.Below q d) → after.track d = s.track d
  again : after.mutate q t .remove = .ok after
  anyOrder : ∀ order : List Quark, (∀ d, d ∈ order ↔ d = q ∨ s.tree.Below q d) →
    (order.forM (Steps.clear t)).outcome { s with clock := some t } = (.ok (), after)
  searched : ∀ children found : List Quark, children.Perm (s.tree.children q) →
    s.tree.Visits children found →
    ((found ++ [q]).forM (Steps.clear t)).outcome { s with clock := some t } = (.ok (), after)

/-- An attribute that held something, cleared. -/
theorem written_of_clear {k : Track} {clock : Option Int64} (hk : k.Tiled clock)
    (ht : ∀ c ∈ clock, c ≤ t) (hheld : k.ongoing ≠ .null) :
    (k.clear t).since = some t ∧ ∃ since, k.since = some since ∧ since ≤ t ∧
      (k.clear t).closed.toList =
        k.closed.toList ++ if since < t then [⟨since, t, k.ongoing⟩] else [] := by
  have hclear : k.clear t = ({ k with stack := [] } : Track).write t .null :=
    if_neg (mt Value.isNull_iff.mp hheld)
  cases hsince : k.since with
  | none => exact absurd (hk.unwritten hsince).1 hheld
  | some since =>
      refine ⟨by rw [hclear]; rfl, since, rfl, (hk.advance ht).since_le_of_some since hsince, ?_⟩
      simp only [hclear, Track.write, hsince]
      split <;> simp

/-- **A removal clears an attribute and all that lies below it, and does nothing else.** It is not
refused if the attribute is there and the time is not before the clock. -/
theorem removes_subtree (hs : s.Reachable) (hq : s.tree.contains q = true)
    (ht : ∀ c ∈ s.clock, c ≤ t) :
    ∃ after, s.mutate q t .remove = .ok after ∧ s.Removed q t after := by
  have hcleared : ∀ d, d = q ∨ s.tree.Below q d →
      (s.perform q t .remove).track d = (s.track d).clear t := fun d =>
    track_remove_of_below hs hq
  refine ⟨_, mutate_eq_ok_iff.mpr ⟨⟨hq, ht, nofun⟩, rfl⟩, {
    tree := perform_tree
    clock := perform_clock
    cleared := fun d hd => ?_
    written := fun d hd hheld => ?_
    kept := fun d hd hheld => ?_
    others := fun d => track_remove_of_not_below hs hq
    again := mutate_remove_again hs hq
    anyOrder := fun order => outcome_forM_clear_eq_remove hs hq
    searched := fun children found hchildren hfound => ?_ }⟩
  · rw [ongoing, hcleared d hd]
    exact ⟨Track.clear_ongoing _ t, Track.clear_stack _ t⟩
  · simp only [since, intervals, ongoing, hcleared d hd]
    exact written_of_clear (hs.tiled d) ht hheld
  · have hclear : (s.track d).clear t = { s.track d with stack := [] } :=
      if_pos (Value.isNull_iff.mpr hheld)
    simp only [since, intervals, hcleared d hd, hclear, and_self]
  · refine outcome_forM_clear_eq_remove hs hq fun d => ?_
    rw [List.mem_append, List.mem_singleton, hfound.mem_iff, Tree.below_iff_children, or_comm]
    simp only [hchildren.mem_iff]

/-- An attribute with a stack and two below it, one of which holds nothing since it was popped. -/
theorem removes_subtree_of_thread :
    let s := ({} : Store).callEach [.create .root "Threads", .create 0 "12", .create 1 "Status",
      .create .root "CPU", .mutate 1 2 (.push (.int 1)), .mutate 2 3 (.push (.text "run")),
      .mutate 2 5 .pop, .mutate 3 5 (.set (.int 4))]
    s.Reachable ∧ s.tree.contains 0 = true ∧ (∀ c ∈ s.clock, c ≤ 9) ∧
      (∃ after, s.mutate 0 9 .remove = .ok after ∧ s.Removed 0 9 after) ∧
      s.tree.Visits [1] [1, 2] := by
  intro s
  have hs : s.Reachable := Reachable.empty.callEach _
  have hq : s.tree.contains 0 = true := by decide +kernel
  have ht : ∀ c ∈ s.clock, c ≤ 9 := clock_le_of_eq (c := 5) (by decide +kernel) (by decide)
  refine ⟨hs, hq, ht, removes_subtree hs hq ht, ?_⟩
  have hone : s.tree.children 1 = [2] := by decide +kernel
  have htwo : s.tree.children 2 = [] := by decide +kernel
  have hlast : s.tree.Visits ([] ++ [2]) [2] := .visit (htwo ▸ .refl _) .done
  have hall : s.tree.Visits ([] ++ [1]) [1, 2] := .visit (hone ▸ .refl _) hlast
  exact hall

end Store
end Chronicle
