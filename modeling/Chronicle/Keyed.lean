/-!
# Keyed lists

A list of pairs in which a name is meant to occur once. `put` keeps the place of a name that is
already there and takes the new value; `settle` reads a list with repeated names in this way, so
that every name keeps its first place and its last value.
-/

namespace Chronicle
namespace Keyed

variable {κ α : Type} [DecidableEq κ]

/-- Gives `name` the value `a`, in its place if it has one and at the end otherwise. -/
def put (name : κ) (a : α) : List (κ × α) → List (κ × α)
  | [] => [(name, a)]
  | entry :: rest =>
    if entry.1 = name then (name, a) :: rest else entry :: put name a rest

/-- The value of a name. -/
def get? (name : κ) : List (κ × α) → Option α
  | [] => none
  | entry :: rest => if entry.1 = name then some entry.2 else get? name rest

/-- Every name once, at its first place and with its last value. -/
def settle (entries : List (κ × α)) : List (κ × α) :=
  entries.foldl (fun acc entry => put entry.1 entry.2 acc) []

theorem get?_put_self (name : κ) (a : α) (l : List (κ × α)) :
    get? name (put name a l) = some a := by
  induction l with
  | nil => simp [put, get?]
  | cons entry rest ih => by_cases h : entry.1 = name <;> simp [put, get?, h, ih]

theorem get?_put_ne {name other : κ} (h : other ≠ name) (a : α) (l : List (κ × α)) :
    get? other (put name a l) = get? other l := by
  induction l with
  | nil => simp [put, get?, Ne.symm h]
  | cons entry rest ih => grind [put, get?]

end Keyed
end Chronicle
