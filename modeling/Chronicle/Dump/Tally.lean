/-!
# Tallies

A tally counts things by name. Each name occurs once, and the names stand in code point order.
-/

namespace Chronicle

/-- Counts by name, in the order of the names. -/
structure Tally where
  entries : List (String × Nat) := []
  sorted : entries.Pairwise (·.1 < ·.1) := by simp

namespace Tally

instance : Inhabited Tally := ⟨{}⟩

/-- Gives `name` the count `n` among sorted entries. -/
def place (name : String) (n : Nat) : List (String × Nat) → List (String × Nat)
  | [] => [(name, n)]
  | entry :: rest =>
    if name < entry.1 then (name, n) :: entry :: rest
    else if name = entry.1 then (name, n) :: rest
    else entry :: place name n rest

theorem of_mem_place {name : String} {n : Nat} {l : List (String × Nat)} {x : String × Nat}
    (h : x ∈ place name n l) : x = (name, n) ∨ x ∈ l := by
  induction l with
  | nil => simpa [place] using h
  | cons entry rest ih =>
    unfold place at h
    split at h
    · simpa using h
    · split at h
      · rcases List.mem_cons.1 h with h | h
        · exact .inl h
        · exact .inr (List.mem_cons_of_mem _ h)
      · rcases List.mem_cons.1 h with h | h
        · exact .inr (h ▸ List.mem_cons_self)
        · exact (ih h).imp_right (List.mem_cons_of_mem _)

theorem pairwise_place {name : String} {n : Nat} {l : List (String × Nat)}
    (h : l.Pairwise (·.1 < ·.1)) : (place name n l).Pairwise (·.1 < ·.1) := by
  induction l with
  | nil => simp [place]
  | cons entry rest ih =>
    have hrest := List.pairwise_cons.1 h
    unfold place
    split
    · next hlt =>
      refine List.pairwise_cons.2 ⟨fun x hx => ?_, h⟩
      rcases List.mem_cons.1 hx with rfl | hx
      · exact hlt
      · exact String.lt_trans hlt (hrest.1 x hx)
    · next hle =>
      split
      · next heq =>
        exact List.pairwise_cons.2 ⟨fun x hx => heq ▸ hrest.1 x hx, hrest.2⟩
      · next hne =>
        refine List.pairwise_cons.2 ⟨fun x hx => ?_, ih hrest.2⟩
        rcases of_mem_place hx with rfl | hx
        · exact Std.lt_of_le_of_ne (String.not_lt.1 hle) (Ne.symm hne)
        · exact hrest.1 x hx

/-- The tally with the count of `name` set to `n`. -/
def put (t : Tally) (name : String) (n : Nat) : Tally :=
  ⟨place name n t.entries, pairwise_place t.sorted⟩

/-- The tally of entries of which a later one replaces an earlier one of its name. -/
def ofList (entries : List (String × Nat)) : Tally :=
  entries.foldl (fun t entry => t.put entry.1 entry.2) {}

end Tally
end Chronicle
