import Chronicle.Proofs.Store.Calls

/-!
# Trees that grow

A tree grows when attributes are created: those that are there keep their quarks, names and parents
(`Tree.GrowsTo`), so names lead where they led (`Tree.GrowsTo.walk?`). Names that led nowhere may
lead somewhere in the larger tree, but then to an attribute that is new (`Tree.GrowsTo.walk?_new`):
an attribute is created under one that is there already, so nothing old lies below something new
(`Tree.Grounded`).

`Tree.plant` is the tree in which names lead somewhere, with those attributes created that are
missing, and a store grows with its tree if what is new was never written (`Store.GrowsTo`).
-/

namespace Chronicle

namespace Tree

/-- Every attribute stands under the root or under an earlier one. -/
def Grounded (t : Tree) : Prop :=
  ∀ i node, t.nodes[i]? = some node → node.parent = Quark.root ∨ ∃ j < i, node.parent = Int.ofNat j

/-- The attributes of `t` are those of `u` that were created first. -/
def GrowsTo (t u : Tree) : Prop :=
  ∃ more, u.nodes = t.nodes ++ more

/-- The end of the way that names lead from `q` on, and the tree with the attributes on it, those
that are missing created. -/
def plant (t : Tree) (q : Quark) : List String → Quark × Tree
  | [] => (q, t)
  | name :: rest =>
    match t.child? q name with
    | some c => t.plant c rest
    | none => plant ⟨t.nodes.push ⟨name, q⟩⟩ (Int.ofNat t.size) rest

variable {t u v : Tree} {q c e : Quark} {name : String} {names : List String}

/-! ### Children -/

theorem exists_node_of_child? (h : t.child? q name = some c) :
    ∃ i node, c = Int.ofNat i ∧ t.nodes[i]? = some node ∧ node.parent = q ∧ node.name = name := by
  obtain ⟨i, hi, rfl⟩ := Option.map_eq_some_iff.mp h
  obtain ⟨hlt, hp, -⟩ := Array.findIdx?_eq_some_iff_getElem.mp hi
  simp only [Bool.and_eq_true, beq_iff_eq] at hp
  exact ⟨i, t.nodes[i], rfl, Array.getElem?_eq_getElem hlt, hp.1, hp.2⟩

theorem contains_of_child? (h : t.child? q name = some c) : t.contains c = true := by
  obtain ⟨i, node, rfl, hi, -, -⟩ := exists_node_of_child? h
  obtain ⟨hlt, -⟩ := Array.getElem?_eq_some_iff.mp hi
  exact contains_ofNat.mpr hlt

theorem not_contains_ofNat {i : Nat} : t.contains (Int.ofNat i) = false ↔ t.size ≤ i := by
  rw [Bool.eq_false_iff, ne_eq, contains_ofNat, Nat.not_lt]

/-! ### Growing -/

theorem GrowsTo.refl (t : Tree) : t.GrowsTo t :=
  ⟨#[], (Array.append_empty).symm⟩

theorem GrowsTo.trans (h₁ : t.GrowsTo u) (h₂ : u.GrowsTo v) : t.GrowsTo v := by
  obtain ⟨more₁, h₁⟩ := h₁
  obtain ⟨more₂, h₂⟩ := h₂
  exact ⟨more₁ ++ more₂, by rw [h₂, h₁, Array.append_assoc]⟩

theorem growsTo_push (t : Tree) (node : Node) : t.GrowsTo ⟨t.nodes.push node⟩ :=
  ⟨#[node], Array.push_eq_append⟩

theorem GrowsTo.size_le (h : t.GrowsTo u) : t.size ≤ u.size := by
  obtain ⟨more, h⟩ := h
  rw [size, size, h, Array.size_append]
  omega

theorem GrowsTo.child?_eq (h : t.GrowsTo u) (q : Quark) (name : String) :
    (∃ c, t.child? q name = some c ∧ u.child? q name = some c) ∨
      t.child? q name = none ∧ ∀ c, u.child? q name = some c → t.contains c = false := by
  obtain ⟨more, h⟩ := h
  unfold child?
  rw [h, Array.findIdx?_append]
  cases t.nodes.findIdx? fun node => node.parent == q && node.name == name with
  | some i => exact .inl ⟨Int.ofNat i, rfl, rfl⟩
  | none =>
      refine .inr ⟨rfl, fun c hc => ?_⟩
      obtain ⟨i, hi, rfl⟩ := Option.map_eq_some_iff.mp hc
      rw [Option.none_or] at hi
      obtain ⟨j, -, rfl⟩ := Option.map_eq_some_iff.mp hi
      exact not_contains_ofNat.mpr (Nat.le_add_left ..)

theorem GrowsTo.child? (h : t.GrowsTo u) (hc : t.child? q name = some c) :
    u.child? q name = some c := by
  rcases h.child?_eq q name with ⟨d, hd, hu⟩ | ⟨hnone, -⟩
  · rwa [← hc, hd]
  · rw [hnone] at hc
    cases hc

/-- What stands under something new is new. -/
theorem Grounded.child?_of_not_contains (hu : u.Grounded) (hroot : q ≠ Quark.root)
    (hq : t.contains q = false) (hc : u.child? q name = some c) :
    t.contains c = false := by
  obtain ⟨i, node, rfl, hi, rfl, -⟩ := exists_node_of_child? hc
  rcases hu i node hi with hp | ⟨j, hj, hp⟩
  · exact absurd hp hroot
  · rw [hp, not_contains_ofNat] at hq
    exact not_contains_ofNat.mpr (Nat.le_trans hq (Nat.le_of_lt hj))

theorem ne_root_of_contains (hc : t.contains c = true) : c ≠ Quark.root := by
  rintro rfl
  rw [not_contains_root] at hc
  cases hc

/-! ### Walking -/

theorem walk?_append (t : Tree) (q : Quark) (names more : List String) :
    t.walk? q (names ++ more) = (t.walk? q names).bind fun e => t.walk? e more := by
  induction names generalizing q with
  | nil => rfl
  | cons name rest ih =>
      rw [List.cons_append, walk?, walk?]
      cases t.child? q name with
      | none => rfl
      | some c => exact ih c

/-- Names lead to an attribute, unless there are none. -/
theorem contains_of_walk? (hn : names ≠ []) (h : t.walk? q names = some e) :
    t.contains e = true := by
  induction names generalizing q with
  | nil => exact absurd rfl hn
  | cons name rest ih =>
      obtain ⟨c, hc, h⟩ := Option.bind_eq_some_iff.mp h
      cases rest with
      | nil => exact Option.some.inj h ▸ contains_of_child? hc
      | cons next more => exact ih (List.cons_ne_nil _ _) h

/-- Names lead where they led. -/
theorem GrowsTo.walk? (h : t.GrowsTo u) (hw : t.walk? q names = some e) :
    u.walk? q names = some e := by
  induction names generalizing q with
  | nil => exact hw
  | cons name rest ih =>
      obtain ⟨c, hc, hw⟩ := Option.bind_eq_some_iff.mp hw
      rw [Tree.walk?, h.child? hc]
      exact ih hw

theorem Grounded.walk?_of_not_contains (hu : u.Grounded) (hroot : q ≠ Quark.root)
    (hq : t.contains q = false) (hw : u.walk? q names = some e) :
    t.contains e = false := by
  induction names generalizing q with
  | nil => rwa [← Option.some.inj hw]
  | cons name rest ih =>
      obtain ⟨c, hc, hw⟩ := Option.bind_eq_some_iff.mp hw
      exact ih (ne_root_of_contains (contains_of_child? hc))
        (hu.child?_of_not_contains hroot hq hc) hw

/-- Names that led nowhere lead to something new, if anywhere. -/
theorem GrowsTo.walk?_new (h : t.GrowsTo u) (hu : u.Grounded) (hn : t.walk? q names = none)
    (hw : u.walk? q names = some e) : t.contains e = false := by
  induction names generalizing q with
  | nil => cases hn
  | cons name rest ih =>
      obtain ⟨d, hd, hw⟩ := Option.bind_eq_some_iff.mp hw
      rcases h.child?_eq q name with ⟨c, hc, hcu⟩ | ⟨-, hnew⟩
      · obtain rfl := Option.some.inj (hcu.symm.trans hd)
        rw [Tree.walk?, hc] at hn
        exact ih hn hw
      · exact hu.walk?_of_not_contains (ne_root_of_contains (contains_of_child? hd)) (hnew d hd) hw

/-! ### Planting -/

/-- An attribute is created as the end of a way of one name. -/
theorem add_eq_plant (hq : q = Quark.root ∨ t.contains q = true) (name : String) :
    t.add q name = .ok (t.plant q [name]) := by
  rw [add, if_pos hq, plant]
  cases t.child? q name with
  | some c => rfl
  | none => rfl

theorem plant_append (t : Tree) (q : Quark) (names more : List String) :
    t.plant q (names ++ more) = (t.plant q names).2.plant (t.plant q names).1 more := by
  induction names generalizing t q with
  | nil => rfl
  | cons name rest ih =>
      rw [List.cons_append, plant, plant]
      cases t.child? q name with
      | some c => exact ih t c
      | none => exact ih _ _

theorem growsTo_plant (t : Tree) (q : Quark) (names : List String) :
    t.GrowsTo (t.plant q names).2 := by
  induction names generalizing t q with
  | nil => exact .refl t
  | cons name rest ih =>
      rw [plant]
      cases t.child? q name with
      | some c => exact ih t c
      | none => exact (t.growsTo_push _).trans (ih _ _)

/-- A child that is missing is found once it is created. -/
theorem child?_push (h : t.child? q name = none) :
    (⟨t.nodes.push ⟨name, q⟩⟩ : Tree).child? q name = some (Int.ofNat t.size) := by
  unfold child? at h ⊢
  rw [Array.findIdx?_push, Option.map_eq_none_iff.mp h]
  simp [size]

/-- Names lead to the end of the way that was planted for them. -/
theorem walk?_plant (t : Tree) (q : Quark) (names : List String) :
    (t.plant q names).2.walk? q names = some (t.plant q names).1 := by
  induction names generalizing t q with
  | nil => rfl
  | cons name rest ih =>
      rw [plant]
      cases hc : t.child? q name with
      | some c =>
          rw [walk?, (t.growsTo_plant c rest).child? hc]
          exact ih t c
      | none =>
          rw [walk?, (growsTo_plant _ _ rest).child? (child?_push hc)]
          exact ih _ _

/-- What is there already is not created again. -/
theorem plant_of_walk? (h : t.walk? q names = some e) : t.plant q names = (e, t) := by
  induction names generalizing q with
  | nil => rw [← Option.some.inj h, plant]
  | cons name rest ih =>
      obtain ⟨c, hc, h⟩ := Option.bind_eq_some_iff.mp h
      rw [plant, hc]
      exact ih h

theorem grounded_push (ht : t.Grounded) (hq : q = Quark.root ∨ t.contains q = true)
    (name : String) : (⟨t.nodes.push ⟨name, q⟩⟩ : Tree).Grounded := by
  intro i node hi
  rw [Array.getElem?_push] at hi
  split at hi
  · rename_i hsize
    obtain rfl := Option.some.inj hi
    rcases hq with hq | hq
    · exact .inl hq
    · obtain ⟨j, hj, hq⟩ := contains_iff.mp hq
      exact .inr ⟨j, hsize ▸ hj, hq⟩
  · exact ht i node hi

theorem contains_push (t : Tree) (node : Node) :
    (⟨t.nodes.push node⟩ : Tree).contains (Int.ofNat t.size) = true :=
  contains_ofNat.mpr (by simp [size])

theorem grounded_plant (ht : t.Grounded) (hq : q = Quark.root ∨ t.contains q = true)
    (names : List String) :
    (t.plant q names).2.Grounded ∧
      ((t.plant q names).1 = Quark.root ∨
        (t.plant q names).2.contains (t.plant q names).1 = true) := by
  induction names generalizing t q with
  | nil => exact ⟨ht, hq⟩
  | cons name rest ih =>
      rw [plant]
      cases hc : t.child? q name with
      | some c => exact ih ht (.inr (contains_of_child? hc))
      | none => exact ih (grounded_push ht hq name) (.inr (t.contains_push _))

/-- Only what lies on the way is planted. -/
theorem exists_walk?_of_new (t : Tree) (q : Quark) (names : List String) {d : Quark}
    (hd : (t.plant q names).2.contains d = true) (hnew : t.contains d = false) :
    ∃ n, (t.plant q names).2.walk? q (names.take n) = some d := by
  induction names generalizing t q with
  | nil =>
      rw [plant, hnew] at hd
      cases hd
  | cons name rest ih =>
      rw [plant] at hd ⊢
      cases hc : t.child? q name with
      | some c =>
          rw [hc] at hd
          obtain ⟨n, hn⟩ := ih t c hd hnew
          refine ⟨n + 1, ?_⟩
          rw [List.take_succ_cons, walk?, (t.growsTo_plant c rest).child? hc]
          exact hn
      | none =>
          rw [hc] at hd
          have hfirst := (growsTo_plant _ (Int.ofNat t.size) rest).child? (child?_push hc)
          by_cases hmem : (⟨t.nodes.push ⟨name, q⟩⟩ : Tree).contains d = true
          · -- the one that was created first
            refine ⟨1, ?_⟩
            obtain ⟨i, hi, rfl⟩ := contains_iff.mp hmem
            have hle := not_contains_ofNat.mp hnew
            have hsize : i = t.size := by
              simp only [size, Array.size_push] at hi hle ⊢
              omega
            rw [List.take_succ_cons, List.take_zero, walk?, hfirst, hsize]
            rfl
          · obtain ⟨n, hn⟩ := ih _ _ hd (Bool.not_eq_true _ ▸ hmem)
            refine ⟨n + 1, ?_⟩
            rw [List.take_succ_cons, walk?, hfirst]
            exact hn

end Tree

namespace Store

/-- The tree grows, and nothing else changes: what is new was never written. -/
structure GrowsTo (s s' : Store) : Prop where
  tree : s.tree.GrowsTo s'.tree
  clock : s'.clock = s.clock
  track : ∀ d, s'.track d = s.track d

theorem GrowsTo.refl (s : Store) : s.GrowsTo s :=
  ⟨.refl s.tree, rfl, fun _ => rfl⟩

theorem GrowsTo.trans {s s' s'' : Store} (h₁ : s.GrowsTo s') (h₂ : s'.GrowsTo s'') :
    s.GrowsTo s'' where
  tree := h₁.tree.trans h₂.tree
  clock := h₂.clock.trans h₁.clock
  track d := (h₂.track d).trans (h₁.track d)

theorem GrowsTo.withTree (s : Store) {tree : Tree} (h : s.tree.GrowsTo tree) :
    s.GrowsTo (s.withTree tree) :=
  ⟨h, rfl, track_withTree s tree⟩

/-- The store with the attributes on the way that names lead from `q` on. -/
def planted (s : Store) (q : Quark) (names : List String) : Store :=
  s.withTree (s.tree.plant q names).2

theorem growsTo_planted (s : Store) (q : Quark) (names : List String) :
    s.GrowsTo (s.planted q names) :=
  .withTree s (s.tree.growsTo_plant q names)

variable {s : Store} {q : Quark}

theorem create_eq_planted (hq : q = Quark.root ∨ s.tree.contains q = true) (name : String) :
    s.create q name = .ok ((s.tree.plant q [name]).1, s.planted q [name]) := by
  rw [create_eq, Tree.add_eq_plant hq]
  rfl

/-- Names are planted one part after another. -/
theorem planted_append (hs : s.tracks.size = s.tree.size) (q : Quark) (names more : List String) :
    s.planted q (names ++ more) = (s.planted q names).planted (s.tree.plant q names).1 more := by
  have hsize := (s.tree.growsTo_plant q names).size_le
  rw [planted, planted, planted, Tree.plant_append, withTree_tree,
    withTree_withTree (hs ▸ hsize) (Tree.growsTo_plant ..).size_le]

theorem Reachable.grounded (h : s.Reachable) : s.tree.Grounded := by
  induction h with
  | empty => intro i node hi; simp at hi
  | @call s c hr ih =>
      rcases s.call_cases hr.tracks_size c with hc | ⟨parent, name, hp, _, hc⟩ | ⟨q, t, m, _, _, hc⟩
      · rwa [hc]
      · rw [hc, withTree_tree]
        exact Tree.grounded_push ih hp name
      · rwa [hc, perform_tree]

/-- What is planted is created by calls. -/
theorem Reachable.leadsTo_planted (h : s.Reachable)
    (hq : q = Quark.root ∨ s.tree.contains q = true) (names : List String) :
    s.LeadsTo (s.planted q names) := by
  induction names generalizing s q with
  | nil =>
      rw [Store.planted, Tree.plant, withTree_self h.tracks_size]
      exact .refl s
  | cons name rest ih =>
      have hcall : s.call (.create q name) = s.planted q [name] := by
        rw [Store.call, create_eq_planted hq]
      have hfirst : s.LeadsTo (s.planted q [name]) := hcall ▸ s.leadsTo_call _
      rw [← List.singleton_append, planted_append h.tracks_size]
      exact hfirst.trans
        (ih (h.leadsTo hfirst) (Tree.grounded_plant h.grounded hq [name]).2)

/-- Calls lead to what is planted, and its end can be planted on. -/
theorem Reachable.planted (h : s.Reachable) (hq : q = Quark.root ∨ s.tree.contains q = true)
    (names : List String) :
    (s.planted q names).Reachable ∧
      ((s.tree.plant q names).1 = Quark.root ∨
        (s.planted q names).tree.contains (s.tree.plant q names).1 = true) :=
  ⟨h.leadsTo (h.leadsTo_planted hq names), (Tree.grounded_plant h.grounded hq names).2⟩

end Store
end Chronicle
