import Chronicle.Keyed

/-!
# Settled lists

In a settled list every name stands once. A list in which no name is repeated is settled
(`Keyed.settle_of_nodup`), nothing is settled that was not in the list (`Keyed.mem_of_mem_settle`),
and to settle a list and to keep the entries of some names of it can be done in either order
(`Keyed.filter_settle`).
-/

namespace Chronicle
namespace Keyed

variable {κ α : Type} [DecidableEq κ] {name : κ} {a : α} {l : List (κ × α)} {entry : κ × α}

/-- The value of a name stands in the list under that name. -/
theorem mem_of_get? (h : get? name l = some a) : (name, a) ∈ l := by
  induction l with
  | nil => cases h
  | cons entry rest ih =>
      rw [get?] at h
      split at h
      · next heq =>
        obtain rfl := Option.some.inj h
        subst heq
        exact List.mem_cons_self
      · exact List.mem_cons_of_mem _ (ih h)

/-- Where no name is repeated, what stands in the list under a name is its value. -/
theorem get?_eq_some_iff (h : (l.map Prod.fst).Nodup) : get? name l = some a ↔ (name, a) ∈ l := by
  refine ⟨mem_of_get?, fun hmem => ?_⟩
  induction l with
  | nil => cases hmem
  | cons first rest ih =>
      obtain ⟨hfirst, hrest⟩ := List.nodup_cons.mp h
      rw [get?]
      rcases List.mem_cons.mp hmem with rfl | hmem
      · rw [if_pos rfl]
      · have hne : first.1 ≠ name := fun heq =>
          hfirst (heq ▸ List.mem_map_of_mem (f := Prod.fst) hmem)
        rw [if_neg hne, ih hrest hmem]

theorem not_mem_of_get?_eq_none (h : get? name l = none) : name ∉ l.map Prod.fst := by
  induction l with
  | nil => exact List.not_mem_nil
  | cons first rest ih =>
      rw [get?] at h
      split at h
      · cases h
      · next hne => exact List.not_mem_cons_of_ne_of_not_mem (Ne.symm hne) (ih h)

theorem mem_of_mem_put (h : entry ∈ put name a l) : entry = (name, a) ∨ entry ∈ l := by
  induction l with
  | nil => exact .inl (List.mem_singleton.mp h)
  | cons first rest ih =>
      unfold put at h
      split at h
      · rcases List.mem_cons.mp h with rfl | h
        · exact .inl rfl
        · exact .inr (List.mem_cons_of_mem _ h)
      · rcases List.mem_cons.mp h with rfl | h
        · exact .inr List.mem_cons_self
        · exact (ih h).imp_right (List.mem_cons_of_mem _)

theorem put_of_not_mem (h : name ∉ l.map Prod.fst) : put name a l = l ++ [(name, a)] := by
  induction l with
  | nil => rfl
  | cons first rest ih =>
      rw [List.map_cons, List.mem_cons, not_or] at h
      rw [put, if_neg (Ne.symm h.1), ih h.2, List.cons_append]

theorem filter_put (p : κ → Bool) (name : κ) (a : α) (l : List (κ × α)) :
    (put name a l).filter (fun entry => p entry.1) =
      if p name then put name a (l.filter fun entry => p entry.1)
      else l.filter fun entry => p entry.1 := by
  induction l with
  | nil => by_cases hp : p name <;> simp [put, hp]
  | cons first rest ih =>
      by_cases hfirst : first.1 = name
      · subst hfirst
        by_cases hp : p first.1 <;> simp [put, hp]
      · by_cases hp : p name <;> by_cases hq : p first.1 <;>
          simp [put, hfirst, hp, hq, ih]

theorem foldl_put_of_nodup (settled l : List (κ × α))
    (h : ((settled ++ l).map Prod.fst).Nodup) :
    l.foldl (fun acc entry => put entry.1 entry.2 acc) settled = settled ++ l := by
  induction l generalizing settled with
  | nil => rw [List.foldl_nil, List.append_nil]
  | cons first rest ih =>
      have hnew : first.1 ∉ settled.map Prod.fst := by
        rw [List.map_append, List.map_cons, List.nodup_append] at h
        exact fun hmem => h.2.2 _ hmem _ List.mem_cons_self rfl
      have happend : settled ++ first :: rest = (settled ++ [first]) ++ rest := by simp
      rw [List.foldl_cons, put_of_not_mem hnew, ih _ (happend ▸ h), happend]

/-- A list without repeated names is settled. -/
theorem settle_of_nodup (h : (l.map Prod.fst).Nodup) : settle l = l :=
  foldl_put_of_nodup [] l h

theorem settle_of_length_le_one (h : l.length ≤ 1) : settle l = l := by
  match l, h with
  | [], _ => rfl
  | [_], _ => rfl

theorem mem_of_mem_foldl_put {settled : List (κ × α)}
    (h : entry ∈ l.foldl (fun acc entry => put entry.1 entry.2 acc) settled) :
    entry ∈ settled ∨ entry ∈ l := by
  induction l generalizing settled with
  | nil => exact .inl h
  | cons first rest ih =>
      rcases ih h with h | h
      · rcases mem_of_mem_put h with rfl | h
        · exact .inr List.mem_cons_self
        · exact .inl h
      · exact .inr (List.mem_cons_of_mem _ h)

theorem mem_of_mem_settle (h : entry ∈ settle l) : entry ∈ l :=
  (mem_of_mem_foldl_put h).resolve_left List.not_mem_nil

theorem filter_foldl_put (p : κ → Bool) (settled l : List (κ × α)) :
    (l.foldl (fun acc entry => put entry.1 entry.2 acc) settled).filter (fun entry => p entry.1) =
      (l.filter fun entry => p entry.1).foldl (fun acc entry => put entry.1 entry.2 acc)
        (settled.filter fun entry => p entry.1) := by
  induction l generalizing settled with
  | nil => rfl
  | cons first rest ih =>
      rw [List.foldl_cons, ih, filter_put, List.filter_cons]
      split <;> rfl

/-- The settled entries of some names are the entries of those names, settled. -/
theorem filter_settle (p : κ → Bool) (l : List (κ × α)) :
    (settle l).filter (fun entry => p entry.1) = settle (l.filter fun entry => p entry.1) :=
  filter_foldl_put p [] l

end Keyed
end Chronicle
