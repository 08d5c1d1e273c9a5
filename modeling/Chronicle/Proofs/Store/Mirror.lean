import Chronicle.Proofs.Store.Paths
import Chronicle.Proofs.Store.Refusals

/-!
# Stores with more attributes

A store mirrors another if it has all its attributes and some more, at paths that are called hidden,
and yet records the same at every path (`Store.Mirrors`). A store that has grown mirrors the one it
has grown from (`Store.GrowsTo.mirrors`).

Quarks need not agree, so what is done to two such stores is told by a path. The same names planted
in both, and the same mutation at the same path, lead to two such stores again
(`Store.Mirrors.planted`, `Store.Mirrors.mutate_ok`), and what one refuses the other refuses in the
same words (`Store.Mirrors.mutate_error`).
-/

namespace Chronicle

namespace Store

/-- `s'` has the attributes of `s` and those at hidden paths, and records the same at every path. -/
structure Mirrors (hidden : List String → Prop) (s s' : Store) : Prop where
  clock : s'.clock = s.clock
  has : ∀ path, s'.Has path ↔ s.Has path ∨ hidden path
  track : ∀ path, s'.trackAt path = s.trackAt path

variable {hidden : List String → Prop} {s s' : Store}

/-- What a store has grown is hidden. -/
theorem GrowsTo.mirrors (h : s.GrowsTo s') (hs : s.tracks.size = s.tree.size)
    (hs' : s'.tree.Grounded) : s.Mirrors s'.Has s' where
  clock := h.clock
  has path := by
    constructor
    · exact .inr
    · rintro (hpath | hpath)
      · obtain ⟨d, hd⟩ := Option.isSome_iff_exists.mp hpath
        rw [Has, h.tree.walk? hd]
        rfl
      · exact hpath
  track := h.trackAt hs hs'

section

variable (h : s.Mirrors hidden s') (hs : s.Reachable) (hs' : s'.Reachable)

include h hs hs'

theorem Mirrors.planted (names : List String) :
    (s.planted Quark.root names).Mirrors hidden (s'.planted Quark.root names) := by
  have hgrown := s.growsTo_planted Quark.root names
  have hgrown' := s'.growsTo_planted Quark.root names
  refine ⟨?_, fun path => ?_, fun path => ?_⟩
  · rw [hgrown.clock, hgrown'.clock, h.clock]
  · have hpath := h.has path
    simp only [Has] at hpath
    simp only [Has, Store.planted, withTree_tree, Tree.walk?_plant_isSome_iff hs.grounded,
      Tree.walk?_plant_isSome_iff hs'.grounded, hpath, or_right_comm]
  · rw [hgrown.trackAt hs.tracks_size (hs.planted (.inl rfl) names).1.grounded,
      hgrown'.trackAt hs'.tracks_size (hs'.planted (.inl rfl) names).1.grounded, h.track]

variable {path : List String} (hpath : path ≠ []) {q q' : Quark}
  (hq : s.tree.walk? Quark.root path = some q) (hq' : s'.tree.walk? Quark.root path = some q')
  {t : Int64} {m : Mutation}

include hpath hq hq'

theorem Mirrors.perform (t : Int64) (m : Mutation) :
    (s.perform q t m).Mirrors hidden (s'.perform q' t m) where
  clock := by rw [perform_clock, perform_clock]
  has other := by
    rw [Has, Has, perform_tree, perform_tree]
    exact h.has other
  track other := by
    rw [trackAt_perform hs hpath hq, trackAt_perform hs' hpath hq', h.track]

omit hs hs' hpath in
theorem Mirrors.track_eq : s'.track q' = s.track q := by
  rw [← trackAt_of_walk? hq, ← trackAt_of_walk? hq', h.track]

omit hs hs' hq in
theorem Mirrors.permit (hp : s.permit q t = .ok ()) : s'.permit q' t = .ok () := by
  rw [permit_eq_ok_iff] at hp ⊢
  exact ⟨Tree.contains_of_walk? hpath hq', h.clock ▸ hp.2⟩

/-- What is accepted at a path is accepted at the same path. -/
theorem Mirrors.mutate_ok {after : Store} (hm : s.mutate q t m = .ok after) :
    ∃ after', s'.mutate q' t m = .ok after' ∧ after.Mirrors hidden after' := by
  obtain ⟨haccepts, rfl⟩ := mutate_eq_ok_iff.mp hm
  have haccepts' : s'.Accepts q' t m :=
    ⟨Tree.contains_of_walk? hpath hq', h.clock ▸ haccepts.clock_le,
      h.track_eq hq hq' ▸ haccepts.sum⟩
  exact ⟨_, mutate_eq_ok_iff.mpr ⟨haccepts', rfl⟩, h.perform hs hs' hpath hq hq' t m⟩

/-- What is refused at a path is refused at the same path, in the same words. -/
theorem Mirrors.mutate_error {r : Refusal} (hm : s.mutate q t m = .error r) :
    s'.mutate q' t m = .error r := by
  have htext : s.tree.pathText q = s'.tree.pathText q' := by
    rw [Tree.pathText, Tree.pathText, Tree.path_of_walk? hs.grounded hq,
      Tree.path_of_walk? hs'.grounded hq']
  have htrack := h.track_eq hq hq'
  rw [mutate_eq_error_iff] at hm ⊢
  cases hm with
  | unknownQuark hnot =>
      rw [Tree.contains_of_walk? hpath hq] at hnot
      cases hnot
  | late _ hclock hlt =>
      exact .late (Tree.contains_of_walk? hpath hq') (h.clock.trans hclock) hlt
  | notAnInt hp hsum =>
      rw [htext]
      exact .notAnInt (h.permit hpath hq' hp) (htrack ▸ hsum)
  | overflow hp hsum =>
      rw [htext]
      exact .overflow (h.permit hpath hq' hp) (htrack ▸ hsum)

end

end Store
end Chronicle
