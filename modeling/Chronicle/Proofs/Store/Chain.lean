import Chronicle.Proofs.Store.Growth

/-!
# What planting adds

Names that are planted fall into two parts: those that lead to an attribute that is there, and those
that are missing. Planting adds nothing for the first part, and for the second a *chain*: new
attributes in one row, each the only new one under the one before (`Tree.plant_eq_chain`). Nothing
is found under the attribute that was created last, so what is missing is missing to the end.

Attributes that were there keep their lineage, so none of them comes to lie below a new one
(`Tree.GrowsTo.lineage_eq`, `Tree.GrowsTo.mem_descendants_iff`).
-/

namespace Chronicle

namespace Tree

/-- Attributes of the given names, the first under `q` and each other one under the one before, when
`count` attributes were created earlier. -/
def chain (q : Quark) (count : Nat) : List String → List Node
  | [] => []
  | name :: rest => ⟨name, q⟩ :: chain (Int.ofNat count) (count + 1) rest

variable {t u : Tree} {q d e : Quark} {names : List String}

/-! ### Planting as a chain -/

/-- Nothing stands under the attribute that was created last. -/
theorem Grounded.child?_last (ht : t.Grounded) {i : Nat} (hi : t.size ≤ i + 1) (name : String) :
    t.child? (Int.ofNat i) name = none := by
  cases hc : t.child? (Int.ofNat i) name with
  | none => rfl
  | some c =>
      obtain ⟨j, node, -, hj, hparent, -⟩ := exists_node_of_child? hc
      obtain ⟨hlt, -⟩ := Array.getElem?_eq_some_iff.mp hj
      rcases ht j node hj with hroot | ⟨k, hk, hnode⟩
      · rw [hparent] at hroot
        cases hroot
      · obtain rfl := Int.ofNat.inj (hparent.symm.trans hnode)
        have hsize : j < t.size := hlt
        omega

/-- From the attribute that was created last on, planting adds the whole chain. -/
theorem nodes_plant_last (ht : t.Grounded) {i : Nat} (hi : t.size = i + 1) (names : List String) :
    (t.plant (Int.ofNat i) names).2.nodes =
      t.nodes ++ (chain (Int.ofNat i) t.size names).toArray := by
  induction names generalizing t i with
  | nil => simp [plant, chain]
  | cons name rest ih =>
      have hcontains : t.contains (Int.ofNat i) = true := contains_ofNat.mpr (by omega)
      have hsize : (⟨t.nodes.push ⟨name, Int.ofNat i⟩⟩ : Tree).size = t.size + 1 := by
        simp [size]
      rw [plant, ht.child?_last (Nat.le_of_eq hi) name]
      rw [ih (grounded_push ht (.inr hcontains) name) hsize, hsize, chain]
      simp

/-- Names lead as far as they lead, to `e`, and what is planted for them is the chain of the others
under `e`. -/
structure Adds (t u : Tree) (q : Quark) (names old new : List String) (e : Quark) : Prop where
  split : names = old ++ new
  walk : t.walk? q old = some e
  missing : ∀ name ∈ new.head?, t.child? e name = none
  nodes : u.nodes = t.nodes ++ (chain e t.size new).toArray

/-- **Planting adds a chain,** of the names that are missing. -/
theorem plant_eq_chain (ht : t.Grounded) (hq : q = Quark.root ∨ t.contains q = true)
    (names : List String) : ∃ old new e, t.Adds (t.plant q names).2 q names old new e := by
  induction names generalizing q with
  | nil => exact ⟨[], [], q, rfl, rfl, by simp, by simp [plant, chain]⟩
  | cons name rest ih =>
      rw [plant]
      cases hc : t.child? q name with
      | some c =>
          obtain ⟨old, new, e, hsplit, hwalk, hmissing, hnodes⟩ :=
            ih (.inr (contains_of_child? hc))
          refine ⟨name :: old, new, e, by rw [hsplit, List.cons_append], ?_, hmissing, hnodes⟩
          rw [walk?, hc]
          exact hwalk
      | none =>
          have hsize : (⟨t.nodes.push ⟨name, q⟩⟩ : Tree).size = t.size + 1 := by simp [size]
          refine ⟨[], name :: rest, q, rfl, rfl, by simpa using hc, ?_⟩
          have hlast := nodes_plant_last (grounded_push ht hq name) hsize rest
          rw [hsize] at hlast
          rw [hlast, chain]
          simp

/-! ### Lineages -/

theorem GrowsTo.node?_eq (h : t.GrowsTo u) (hd : t.contains d = true) : u.node? d = t.node? d := by
  obtain ⟨more, h⟩ := h
  obtain ⟨i, hi, rfl⟩ := contains_iff.mp hd
  have hnodes : u.nodes[i]? = t.nodes[i]? := by
    rw [h, Array.getElem?_append_left hi]
  exact hnodes

theorem GrowsTo.contains (h : t.GrowsTo u) (hd : t.contains d = true) : u.contains d = true := by
  rw [Tree.contains, h.node?_eq hd]
  exact hd

/-- The lineage of an attribute is found within any number of steps that is larger than its
quark. -/
theorem lineageWithin_eq_of_growsTo (ht : t.Grounded) (h : t.GrowsTo u) {i m n : Nat}
    (hi : i < t.size) (hm : i < m) (hn : i < n) :
    u.lineageWithin n (Int.ofNat i) = t.lineageWithin m (Int.ofNat i) := by
  induction i using Nat.strongRecOn generalizing m n with
  | ind i ih =>
      obtain ⟨m, rfl⟩ := Nat.exists_eq_add_of_lt hm
      obtain ⟨n, rfl⟩ := Nat.exists_eq_add_of_lt hn
      have hnode : t.nodes[i]? = some t.nodes[i] := Array.getElem?_eq_getElem hi
      have hparent : t.parent? (Int.ofNat i) = some t.nodes[i].parent :=
        congrArg (Option.map Node.parent) hnode
      have hparent' : u.parent? (Int.ofNat i) = some t.nodes[i].parent := by
        rw [parent?, h.node?_eq (contains_ofNat.mpr hi)]
        exact hparent
      rw [lineageWithin, lineageWithin, hparent, hparent']
      rcases ht i _ hnode with hroot | ⟨j, hj, hnode⟩
      · have hstop : ∀ (v : Tree) (k : Nat), v.lineageWithin k Quark.root = [] := by
          intro v k
          cases k <;> rfl
        simp only [hroot, hstop]
      · simp only [hnode]
        exact congrArg _ (ih j hj (by omega) (by omega) (by omega))

/-- **Attributes that are there keep their lineage.** -/
theorem GrowsTo.lineage_eq (h : t.GrowsTo u) (ht : t.Grounded) (hd : t.contains d = true) :
    u.lineage d = t.lineage d := by
  obtain ⟨i, hi, rfl⟩ := contains_iff.mp hd
  exact lineageWithin_eq_of_growsTo ht h hi hi (Nat.lt_of_lt_of_le hi h.size_le)

theorem GrowsTo.mem_descendants_iff (h : t.GrowsTo u) (ht : t.Grounded)
    (hd : t.contains d = true) : d ∈ u.descendants q ↔ d ∈ t.descendants q := by
  rw [mem_descendants, mem_descendants, h.lineage_eq ht hd, h.contains hd, hd]

end Tree
end Chronicle
