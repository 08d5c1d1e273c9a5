import Mathlib.Data.List.Nodup
import Mathlib.Data.List.Perm.Subperm
import Mathlib.Logic.Relation
import Chronicle.Proofs.Store.Register

/-!
# The search for what lies below

In a register the descendants of an attribute are found by a search (`Register.Search`). What lies
directly under the attribute is still to be visited. The last of what is to be visited is taken out,
and what lies under it is put in its place, in whatever order it is kept (`Register.Turn`).

At every turn, what was seen and what is still to be visited lies below the attribute and stands
there once: for what lies under an attribute comes in when it is taken out, and not before, and it
is taken out once (`Register.Partway`). So no search is longer than the tree is large, and at its
end it has found the descendants, each of them once.
-/

namespace Chronicle

open Relation (ReflTransGen)

namespace Register

/-- What is still to be visited, the last first, and what was seen. -/
structure Search where
  pending : List Quark
  seen : List Quark

/-- What lies directly under an attribute. There is no attribute for the root. -/
def childrenOf (r : Register) (q : Quark) : List Quark :=
  ((r.row? q).map fun e => e.children.map Prod.snd).getD []

/-- A turn of a search: the last of what is to be visited is seen, and what lies under it is to be
visited, in some order. -/
inductive Turn (r : Register) : Search → Search → Prop
  | visit {pending seen found : List Quark} {d : Quark} : found.Perm (r.childrenOf d) →
    Turn r ⟨pending ++ [d], seen⟩ ⟨pending ++ found, seen ++ [d]⟩

/-- A search for what lies below `q` comes to `s`. -/
def Reaches (r : Register) (q : Quark) (s : Search) : Prop :=
  ∃ start, start.Perm (r.childrenOf q) ∧ ReflTransGen r.Turn ⟨start, []⟩ s

/-- The searches for what lies below `q` find `found`.

* `ends`: a search ends, in whatever order what lies under an attribute is visited.
* `goes_on`: it goes on as long as something is to be visited.
* `finds`: when nothing is, it has seen what is in `found`, and as often. -/
structure Finds (r : Register) (q : Quark) (found : List Quark) : Prop where
  ends : ∀ s, r.Reaches q s → Acc (fun after before => r.Turn before after) s
  goes_on : ∀ s, r.Reaches q s → s.pending ≠ [] → ∃ after, r.Turn s after
  finds : ∀ s, r.Reaches q s → s.pending = [] → s.seen.Perm found

/-- A search on its way: what it has come upon lies below `q` and stands there once, and under `q`
or what was seen. -/
structure Partway (t : Tree) (q : Quark) (s : Search) : Prop where
  nodup : (s.seen ++ s.pending).Nodup
  below : ∀ d ∈ s.seen ++ s.pending, t.Below q d
  parent : ∀ d ∈ s.seen ++ s.pending, ∃ p, t.parent? d = some p ∧ (p = q ∨ p ∈ s.seen)

variable {r : Register} {t : Tree} {q d : Quark} {s s' : Search}

/-! ### What lies directly under an attribute -/

theorem childrenOf_eq (hd : d ≠ Quark.root) : r.childrenOf d = (r.under d).map Prod.snd := by
  rw [childrenOf, under, if_neg hd]
  cases r.row? d <;> rfl

/-- What is entered under an attribute are its children. -/
theorem Keeps.childrenOf_perm (h : r.Keeps t) (hd : t.contains d = true) :
    (r.childrenOf d).Perm (t.children d) := by
  have hinj : ∀ a ∈ r.under d, ∀ b ∈ r.under d, a.2 = b.2 → a = b := by
    rintro ⟨a, c⟩ ha ⟨b, c'⟩ hb (rfl : c = c')
    rw [h.mem_under] at ha hb
    rw [(Node.mk.inj (Option.some.inj (ha.symm.trans hb))).1]
  have hmem : ∀ c, c ∈ (r.under d).map Prod.snd ↔ c ∈ t.children d := by
    intro c
    rw [Tree.mem_children, List.mem_map]
    constructor
    · rintro ⟨⟨name, c⟩, hc, rfl⟩
      exact (Tree.node?_eq_some_iff.mp ((h.mem_under d name c).mp hc)).2.1
    · intro hparent
      obtain ⟨⟨name, p⟩, hnode, rfl⟩ := Option.map_eq_some_iff.mp hparent
      exact ⟨(name, c), (h.mem_under _ name c).mpr hnode, rfl⟩
  rw [childrenOf_eq (Tree.ne_root_of_contains hd)]
  refine (List.perm_ext_iff_of_nodup ?_ (t.nodup_quarks.filter _)).mpr hmem
  exact (List.Nodup.of_map _ (h.nodup d)).map_on hinj

theorem childrenOf_of_not_contains (h : r.Keeps t) (hq : t.contains q = false) :
    r.childrenOf q = [] := by
  have hnone : r.row? q = none := by
    rw [← Option.not_isSome_iff_eq_none, h.contains_eq, hq]
    exact nofun
  rw [childrenOf, hnone]
  rfl

/-! ### On the way -/

theorem partway_start {start : List Quark} (hs : start.Perm (t.children q)) :
    Partway t q ⟨start, []⟩ where
  nodup := hs.nodup_iff.mpr (t.nodup_quarks.filter _)
  below _ hd := .child (Tree.mem_children.mp (hs.mem_iff.mp hd))
  parent _ hd := ⟨q, Tree.mem_children.mp (hs.mem_iff.mp hd), .inl rfl⟩

/-- Nothing that was come upon lies directly under what is still to be visited. -/
theorem Partway.parent?_ne (ht : t.Grounded) (hs : Partway t q s) (hd : d ∈ s.pending) {c : Quark}
    (hc : c ∈ s.seen ++ s.pending) : t.parent? c ≠ some d := by
  intro hparent
  obtain ⟨p, hp, hq⟩ := hs.parent c hc
  obtain rfl : p = d := Option.some.inj (hp.symm.trans hparent)
  rcases hq with rfl | hseen
  · exact Int.lt_irrefl _ ((hs.below p (List.mem_append_right _ hd)).lt ht)
  · exact (List.nodup_append.mp hs.nodup).2.2 p hseen p hd rfl

/-- **A turn comes upon nothing a second time.** -/
theorem Partway.turn (h : r.Keeps t) (ht : t.Grounded) (hs : Partway t q s) (hturn : r.Turn s s') :
    Partway t q s' := by
  obtain @⟨pending, seen, found, d, hfound⟩ := hturn
  have hd : d ∈ seen ++ (pending ++ [d]) := by simp
  have hchildren := hfound.trans (h.childrenOf_perm (hs.below d hd).contains)
  have hunder : ∀ c ∈ found, t.parent? c = some d := fun c hc =>
    Tree.mem_children.mp (hchildren.mem_iff.mp hc)
  have hperm : (seen ++ [d] ++ (pending ++ found)).Perm (seen ++ (pending ++ [d]) ++ found) := by
    simp only [List.append_assoc]
    refine List.Perm.append_left _ ?_
    rw [← List.append_assoc, ← List.append_assoc]
    exact List.perm_append_comm.append_right _
  have hfound : found.Nodup := hchildren.nodup_iff.mpr (t.nodup_quarks.filter _)
  constructor
  · rw [hperm.nodup_iff, List.nodup_append]
    -- what lies under `d` is new, for `d` is seen only in this turn
    refine ⟨hs.nodup, hfound, fun a ha b hb hab => ?_⟩
    rw [hab] at ha
    exact hs.parent?_ne ht (List.mem_append_right _ (List.mem_singleton.mpr rfl)) ha (hunder b hb)
  · intro c hc
    rcases List.mem_append.mp (hperm.mem_iff.mp hc) with hold | hc
    · exact hs.below c hold
    · exact .step (hunder c hc) (hs.below d hd)
  · intro c hc
    rcases List.mem_append.mp (hperm.mem_iff.mp hc) with hold | hc
    · obtain ⟨p, hp, hq⟩ := hs.parent c hold
      exact ⟨p, hp, hq.imp_right (List.mem_append_left _)⟩
    · exact ⟨d, hunder c hc, .inr (by simp)⟩

theorem Partway.length_le (hs : Partway t q s) : s.seen.length ≤ t.size := by
  have hsub : s.seen.Subperm t.quarks :=
    List.subperm_of_subset (List.nodup_append.mp hs.nodup).1 fun d hd =>
      Tree.mem_quarks.mpr (hs.below d (List.mem_append_left _ hd)).contains
  simpa [Tree.quarks] using hsub.length_le

/-- A search ends, for at each turn an attribute is seen that was not seen before. -/
theorem Partway.acc (h : r.Keeps t) (ht : t.Grounded) (hs : Partway t q s) :
    Acc (fun after before => r.Turn before after) s := by
  induction hn : t.size - s.seen.length using Nat.strongRecOn generalizing s with
  | ind n ih =>
      refine ⟨_, fun after hturn => ?_⟩
      have hafter := hs.turn h ht hturn
      have hle := hafter.length_le
      obtain @⟨pending, seen, found, d, -⟩ := hturn
      simp only [List.length_append, List.length_singleton] at hle hn
      exact ih _ (by rw [← hn, List.length_append, List.length_singleton]; omega) hafter rfl

/-- What a search sees to its end is visited in the tree. -/
theorem Partway.visits (h : r.Keeps t) (ht : t.Grounded) (hs : Partway t q s)
    (hrun : ReflTransGen r.Turn s s') (hend : s'.pending = []) :
    ∃ order, s'.seen = s.seen ++ order ∧ t.Visits s.pending order := by
  induction hrun using ReflTransGen.head_induction_on with
  | refl =>
      refine ⟨[], (List.append_nil _).symm, ?_⟩
      rw [hend]
      exact .done
  | head hturn _ ih =>
      obtain ⟨order, hseen, hvisits⟩ := ih (hs.turn h ht hturn)
      obtain @⟨pending, seen, found, d, hfound⟩ := hturn
      have hd := (hs.below d (by simp)).contains
      refine ⟨d :: order, ?_, .visit (hfound.trans (h.childrenOf_perm hd)) hvisits⟩
      rw [hseen, List.append_assoc, List.singleton_append]

/-! ### The end -/

theorem Turn.exists_of_pending (h : s.pending ≠ []) : ∃ after, r.Turn s after := by
  obtain ⟨pending, seen⟩ := s
  obtain ⟨init, d, rfl⟩ := (List.eq_nil_or_concat pending).resolve_left h
  rw [List.concat_eq_append]
  exact ⟨_, .visit (.refl _)⟩

/-- Nothing is found below the root, nor below what is no attribute. -/
theorem Keeps.finds_of_not_contains (h : r.Keeps t) (hq : t.contains q = false) :
    r.Finds q [] := by
  have hstuck : ∀ {s : Search}, ¬r.Turn ⟨[], []⟩ s := by
    intro s hturn
    generalize hs : (⟨[], []⟩ : Search) = start at hturn
    obtain @⟨pending, seen, found, d, -⟩ := hturn
    exact List.append_ne_nil_of_right_ne_nil _ (List.cons_ne_nil d [])
      (congrArg Search.pending hs).symm
  have hreach : ∀ s, r.Reaches q s → s = ⟨[], []⟩ := by
    rintro s ⟨start, hstart, hrun⟩
    rw [childrenOf_of_not_contains h hq] at hstart
    rw [hstart.eq_nil] at hrun
    rcases hrun.cases_head with rfl | ⟨c, hturn, -⟩
    · rfl
    · exact absurd hturn hstuck
  constructor
  · intro s hs
    rw [hreach s hs]
    exact ⟨_, fun after hturn => absurd hturn hstuck⟩
  · exact fun s _ => Turn.exists_of_pending
  · intro s hs _
    rw [hreach s hs]

theorem Keeps.partway (h : r.Keeps t) (ht : t.Grounded) (hq : t.contains q = true)
    (hs : r.Reaches q s) : Partway t q s := by
  obtain ⟨start, hstart, hrun⟩ := hs
  induction hrun with
  | refl => exact partway_start (hstart.trans (h.childrenOf_perm hq))
  | tail _ hturn ih => exact ih.turn h ht hturn

/-- **The searches find the descendants of an attribute,** each of them once. -/
theorem Keeps.finds (h : r.Keeps t) (ht : t.Grounded) (hq : t.contains q = true) :
    r.Finds q (t.descendants q) where
  ends _ hs := (h.partway ht hq hs).acc h ht
  goes_on _ _ := Turn.exists_of_pending
  finds s hs hend := by
    have hseen := (List.nodup_append.mp (h.partway ht hq hs).nodup).1
    have hdescendants : (t.descendants q).Nodup := t.nodup_quarks.filter _
    refine (List.perm_ext_iff_of_nodup hseen hdescendants).mpr fun d => ?_
    obtain ⟨start, hstart, hrun⟩ := hs
    have hchildren := hstart.trans (h.childrenOf_perm hq)
    obtain ⟨order, hseen, hvisits⟩ := (partway_start hchildren).visits h ht hrun hend
    rw [hseen, List.nil_append, hvisits.mem_iff, Tree.mem_descendants_iff_below ht hq,
      Tree.below_iff_children (q := q)]
    simp only [hchildren.mem_iff]

end Register

namespace Tree

/-- The descendants of `q`.

* `nodup`, `mem_iff`: they are the attributes whose parents, from one to the next, come to `q`, and
  each of them stands there once.
* `of_unknown`: the root has none, and what is no attribute has none. -/
structure Enumerates (t : Tree) (q : Quark) : Prop where
  nodup : (t.descendants q).Nodup
  mem_iff : t.contains q = true → ∀ d, d ∈ t.descendants q ↔ t.Below q d
  of_unknown : t.contains q = false → t.descendants q = []

theorem contains_of_mem_lineageWithin {t : Tree} {q d : Quark} {steps : Nat}
    (h : q ∈ t.lineageWithin steps d) : t.contains q = true := by
  induction steps generalizing d with
  | zero => cases h
  | succ n ih =>
      rw [lineageWithin] at h
      split at h
      · next p hparent =>
        rcases List.mem_cons.mp h with rfl | hmem
        · exact contains_of_parent? hparent
        · exact ih hmem
      · cases h

theorem descendants_of_not_contains {t : Tree} {q : Quark} (hq : t.contains q = false) :
    t.descendants q = [] := by
  refine List.eq_nil_iff_forall_not_mem.mpr fun d hd => ?_
  have hmem := contains_of_mem_lineageWithin (mem_descendants.mp hd).2.2
  rw [hq] at hmem
  cases hmem

/-- **The descendants of an attribute are what lies below it,** and they are what a search finds,
whatever attributes were created and in whatever order those under an attribute are visited. -/
theorem enumerates_addEach (added : List (Quark × String)) (q : Quark) :
    (({} : Tree).addEach added).Enumerates q ∧
      (({} : Register).addEach added).Finds q ((({} : Tree).addEach added).descendants q) := by
  have ht := grounded_addEach grounded_empty added
  have hkeeps := Register.keeps_empty.addEach rooted_empty added
  refine ⟨⟨(nodup_quarks _).filter _, fun hq d => mem_descendants_iff_below ht hq,
    descendants_of_not_contains⟩, ?_⟩
  cases hq : (({} : Tree).addEach added).contains q with
  | true => exact hkeeps.finds ht hq
  | false =>
      rw [descendants_of_not_contains hq]
      exact hkeeps.finds_of_not_contains hq

end Tree
end Chronicle
