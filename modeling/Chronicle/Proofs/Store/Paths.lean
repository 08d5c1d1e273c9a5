import Chronicle.Proofs.Store.Growth

/-!
# Attributes by their paths

In a tree that calls lead to, different names lead from the root to different attributes
(`Tree.walk?_root_inj`), since the path of an attribute is the names that lead to it
(`Tree.path_of_walk?`), and what lies above an attribute is where the starts of its path lead
(`Tree.mem_lineage_iff`). So a store can be seen through paths alone, where a path that leads
nowhere counts as an attribute that was never written (`Store.trackAt`): planting changes nothing
that is seen (`Store.GrowsTo.trackAt`), and a mutation acts at a path, or at all paths that begin
with it (`Store.trackAt_perform`).
-/

namespace Chronicle

namespace Tree

variable {t : Tree} {q d : Quark} {name : String} {names more : List String}

theorem walk?_concat (t : Tree) (q : Quark) (names : List String) (name : String) :
    t.walk? q (names ++ [name]) = (t.walk? q names).bind fun e => t.child? e name := by
  rw [walk?_append]
  congr 1
  funext e
  rw [walk?]
  cases t.child? e name <;> rfl

theorem node?_of_child? (h : t.child? q name = some d) : t.node? d = some ⟨name, q⟩ := by
  obtain ⟨i, node, rfl, hi, rfl, rfl⟩ := exists_node_of_child? h
  exact hi

/-- Only no names lead from the root to the root. -/
theorem eq_nil_of_walk?_root (h : t.walk? Quark.root names = some Quark.root) : names = [] := by
  by_cases hn : names = []
  · exact hn
  · exact absurd rfl (ne_root_of_contains (contains_of_walk? hn h))

/-- An attribute has at least as many attributes before it as names lead to it, but for itself. -/
theorem length_le_of_walk? (ht : t.Grounded) {i : Nat}
    (h : t.walk? Quark.root names = some (Int.ofNat i)) : names.length ≤ i + 1 := by
  induction i using Nat.strongRecOn generalizing names with
  | ind i ih =>
      rcases List.eq_nil_or_concat names with rfl | ⟨init, last, rfl⟩
      · exact Nat.zero_le _
      · rw [List.concat_eq_append, walk?_concat] at h
        obtain ⟨p, hp, hc⟩ := Option.bind_eq_some_iff.mp h
        have hnode : t.nodes[i]? = some ⟨last, p⟩ := node?_of_child? hc
        rw [List.concat_eq_append, List.length_append, List.length_singleton]
        rcases ht i _ hnode with hroot | ⟨j, hj, hparent⟩
        · obtain rfl : p = Quark.root := hroot
          rw [eq_nil_of_walk?_root hp, List.length_nil]
          omega
        · obtain rfl : p = Int.ofNat j := hparent
          have hle := ih j hj hp
          omega

theorem length_le_size_of_walk? (ht : t.Grounded) (h : t.walk? Quark.root names = some d) :
    names.length ≤ t.size := by
  by_cases hn : names = []
  · rw [hn]
    exact Nat.zero_le _
  · obtain ⟨i, hi, rfl⟩ := contains_iff.mp (contains_of_walk? hn h)
    have hle := length_le_of_walk? ht h
    omega

/-- The lineage of an attribute goes through the starts of its path, and its names are the path. -/
theorem lineageWithin_of_walk? {steps : Nat} (hsteps : names.length ≤ steps)
    (h : t.walk? Quark.root names = some d) :
    (t.lineageWithin steps d).reverse.filterMap t.name? = names ∧
      ∀ q, q ∈ t.lineageWithin steps d ↔
        ∃ start, start ≠ [] ∧ start <+: names ∧ t.walk? Quark.root start = some q := by
  have hnil : ∀ q, ¬∃ start, start ≠ [] ∧ start <+: [] ∧ t.walk? Quark.root start = some q := by
    rintro q ⟨start, hne, hpre, -⟩
    exact hne (List.prefix_nil.mp hpre)
  induction steps generalizing names d with
  | zero =>
      obtain rfl := List.eq_nil_of_length_eq_zero (Nat.le_zero.mp hsteps)
      exact ⟨rfl, fun q => iff_of_false List.not_mem_nil (hnil q)⟩
  | succ steps ih =>
      rcases List.eq_nil_or_concat names with rfl | ⟨init, last, rfl⟩
      · obtain rfl := Option.some.inj h
        have hroot : t.parent? Quark.root = none := rfl
        rw [lineageWithin, hroot]
        exact ⟨rfl, fun q => iff_of_false List.not_mem_nil (hnil q)⟩
      · rw [List.concat_eq_append, List.length_append, List.length_singleton] at hsteps
        rw [List.concat_eq_append] at h ⊢
        obtain ⟨p, hp, hc⟩ := Option.bind_eq_some_iff.mp ((walk?_concat ..).symm.trans h)
        have hnode := node?_of_child? hc
        have hparent : t.parent? d = some p := by rw [parent?, hnode]; rfl
        have hname : t.name? d = some last := by rw [name?, hnode]; rfl
        obtain ⟨hpath, hmem⟩ := ih (by omega) hp
        rw [lineageWithin, hparent]
        refine ⟨?_, fun q => ?_⟩
        · simp only [List.reverse_cons, List.filterMap_append, hpath, List.filterMap_cons, hname,
            List.filterMap_nil]
        · rw [List.mem_cons, hmem]
          constructor
          · rintro (rfl | ⟨start, hne, hpre, hwalk⟩)
            · exact ⟨init ++ [last], by simp, List.prefix_refl _, h⟩
            · exact ⟨start, hne, hpre.trans (List.prefix_append _ _), hwalk⟩
          · rintro ⟨start, hne, hpre, hwalk⟩
            rcases List.prefix_concat_iff.mp hpre with rfl | hpre
            · exact .inl (Option.some.inj (hwalk.symm.trans h))
            · exact .inr ⟨start, hne, hpre, hwalk⟩

/-- **The path of an attribute is the names that lead to it.** -/
theorem path_of_walk? (ht : t.Grounded) (h : t.walk? Quark.root names = some d) :
    t.path d = names :=
  (lineageWithin_of_walk? (length_le_size_of_walk? ht h) h).1

/-- Different names lead to different attributes. -/
theorem walk?_root_inj (ht : t.Grounded) (h : t.walk? Quark.root names = some d)
    (h' : t.walk? Quark.root more = some d) : names = more :=
  (path_of_walk? ht h).symm.trans (path_of_walk? ht h')

/-- An attribute lies above the attributes whose path begins with its own, and above itself. -/
theorem mem_lineage_iff (ht : t.Grounded) (hn : names ≠ [])
    (hq : t.walk? Quark.root names = some q) (hd : t.walk? Quark.root more = some d) :
    q ∈ t.lineage d ↔ names <+: more := by
  rw [lineage, (lineageWithin_of_walk? (length_le_size_of_walk? ht hd) hd).2]
  constructor
  · rintro ⟨start, -, hpre, hwalk⟩
    rwa [walk?_root_inj ht hq hwalk]
  · exact fun hpre => ⟨names, hn, hpre, hq⟩

/-- What names lead to after planting: what they led to before, and all that lies on the way. -/
theorem walk?_plant_isSome_iff (ht : t.Grounded) :
    ((t.plant Quark.root names).2.walk? Quark.root more).isSome = true ↔
      (t.walk? Quark.root more).isSome = true ∨ more <+: names := by
  have hgrows := t.growsTo_plant Quark.root names
  have hgrounded := (grounded_plant ht (.inl rfl) names).1
  constructor
  · intro h
    obtain ⟨d, hd⟩ := Option.isSome_iff_exists.mp h
    cases hold : t.walk? Quark.root more with
    | some e => exact .inl rfl
    | none =>
        have hmore : more ≠ [] := by
          rintro rfl
          cases hold
        have hnew := hgrows.walk?_new hgrounded hold hd
        obtain ⟨n, hwalk⟩ :=
          t.exists_walk?_of_new Quark.root names (contains_of_walk? hmore hd) hnew
        rw [walk?_root_inj hgrounded hd hwalk]
        exact .inr (List.take_prefix n names)
  · rintro (h | ⟨rest, rfl⟩)
    · obtain ⟨d, hd⟩ := Option.isSome_iff_exists.mp h
      rw [hgrows.walk? hd]
      rfl
    · have hend := t.walk?_plant Quark.root (more ++ rest)
      rw [walk?_append] at hend
      obtain ⟨d, hd, -⟩ := Option.bind_eq_some_iff.mp hend
      rw [hd]
      rfl

end Tree

/-! ### What is recorded at a path -/

namespace Mutation

/-- A mutation at a path acts at another: at all that begin with it if it removes, else only at
itself. -/
def actsAt (path : List String) : Mutation → List String → Bool
  | .remove, other => path.isPrefixOf other
  | _, other => other == path

variable {t : Tree} {q d : Quark} {path other : List String}

theorem mem_reach_iff (ht : t.Grounded) (hpath : path ≠ [])
    (hq : t.walk? Quark.root path = some q) (hd : t.walk? Quark.root other = some d)
    (m : Mutation) : d ∈ m.reach t q ↔ m.actsAt path other = true := by
  have heq : d = q ↔ other = path := by
    constructor
    · rintro rfl
      exact Tree.walk?_root_inj ht hd hq
    · rintro rfl
      exact Option.some.inj (hd.symm.trans hq)
  cases m with
  | remove =>
      rw [reach, actsAt, List.isPrefixOf_iff_prefix, List.mem_append, Tree.mem_descendants,
        List.mem_singleton, Tree.mem_lineage_iff ht hpath hq hd]
      constructor
      · rintro (⟨-, -, hpre⟩ | hdq)
        · exact hpre
        · obtain rfl := heq.mp hdq
          exact List.prefix_refl _
      · intro hpre
        by_cases hdq : d = q
        · exact .inr hdq
        · have hother : other ≠ [] := by
            rintro rfl
            exact hpath (List.prefix_nil.mp hpre)
          exact .inl ⟨Tree.contains_of_walk? hother hd, hdq, hpre⟩
  | _ => simp only [reach, List.mem_singleton, actsAt, beq_iff_eq, heq]

/-- At a path that leads nowhere there is nothing to forget. -/
theorem act_remove_empty (t : Int64) : Mutation.remove.act t {} = {} := rfl

end Mutation

namespace Store

/-- A path leads to an attribute, or to the root if it is empty. -/
def Has (s : Store) (path : List String) : Prop :=
  (s.tree.walk? Quark.root path).isSome = true

instance (s : Store) (path : List String) : Decidable (s.Has path) :=
  inferInstanceAs (Decidable (_ = true))

/-- What is recorded at a path; at a path that leads nowhere, nothing was ever written. -/
def trackAt (s : Store) (path : List String) : Track :=
  ((s.tree.walk? Quark.root path).map s.track).getD {}

variable {s s' : Store} {q : Quark} {path : List String}

theorem trackAt_of_walk? (h : s.tree.walk? Quark.root path = some q) :
    s.trackAt path = s.track q := by
  rw [trackAt, h]
  rfl

theorem trackAt_of_walk?_eq_none (h : s.tree.walk? Quark.root path = none) :
    s.trackAt path = {} := by
  rw [trackAt, h]
  rfl

/-- **Nothing is seen of growth.** -/
theorem GrowsTo.trackAt (h : s.GrowsTo s') (hs : s.tracks.size = s.tree.size)
    (hg : s'.tree.Grounded) (path : List String) : s'.trackAt path = s.trackAt path := by
  cases hw : s.tree.walk? Quark.root path with
  | some e => rw [trackAt_of_walk? hw, trackAt_of_walk? (h.tree.walk? hw), h.track]
  | none =>
      rw [trackAt_of_walk?_eq_none hw]
      cases hw' : s'.tree.walk? Quark.root path with
      | none => exact trackAt_of_walk?_eq_none hw'
      | some e =>
          rw [trackAt_of_walk? hw', h.track,
            track_of_not_contains hs (h.tree.walk?_new hg hw hw')]

/-- **A mutation acts at its path,** and if it removes, at all paths that begin with it. -/
theorem trackAt_perform (hs : s.Reachable) (hpath : path ≠ [])
    (hq : s.tree.walk? Quark.root path = some q) (t : Int64) (m : Mutation) (other : List String) :
    (s.perform q t m).trackAt other =
      if m.actsAt path other then m.act t (s.trackAt other) else s.trackAt other := by
  have hwalk : (s.perform q t m).tree.walk? Quark.root other = s.tree.walk? Quark.root other := by
    rw [perform_tree]
  cases hd : s.tree.walk? Quark.root other with
  | some d =>
      rw [trackAt_of_walk? (hwalk.trans hd), trackAt_of_walk? hd,
        track_perform hs.tracks_size (Tree.contains_of_walk? hpath hq)]
      simp only [Mutation.mem_reach_iff hs.grounded hpath hq hd m]
  | none =>
      rw [trackAt_of_walk?_eq_none (hwalk.trans hd), trackAt_of_walk?_eq_none hd]
      split
      · next hacts =>
        cases m with
        | remove => exact (Mutation.act_remove_empty t).symm
        | _ =>
            simp only [Mutation.actsAt, beq_iff_eq] at hacts
            rw [hacts, hq] at hd
            cases hd
      · rfl

end Store
end Chronicle
