import Chronicle.Text.Blank
import Mathlib.Data.List.TakeWhile

/-!
# What trimming leaves

To trim a text is to split it into blanks, a body that neither begins nor ends with a blank, and
blanks (`Text.Trims`). There is one such body (`Text.trims_iff`); it is empty if there are only
blanks.
-/

namespace Chronicle
namespace Text

/-- The text is the body with blanks at its ends, and all of them.

* `split`: what stands before the body and after it is blank.
* `first`, `last`: the body neither begins nor ends with a blank. -/
structure Trims (s body : List Char) : Prop where
  split : ∃ before after, s = before ++ body ++ after ∧ (∀ c ∈ before, isBlank c = true) ∧
    ∀ c ∈ after, isBlank c = true
  first : ∀ c ∈ body.head?, isBlank c = false
  last : ∀ c ∈ body.getLast?, isBlank c = false

variable {s body : List Char}

theorem dropWhile_isBlank_of_first (h : ∀ c ∈ body.head?, isBlank c = false) :
    body.dropWhile isBlank = body := by
  cases body with
  | nil => rfl
  | cons c rest => exact List.dropWhile_cons_of_neg (Bool.eq_false_iff.mp (h c rfl))

theorem first_dropWhile (s : List Char) :
    ∀ c ∈ (s.dropWhile isBlank).head?, isBlank c = false := by
  intro c hc
  have hnot := List.head?_dropWhile_not isBlank s
  rwa [hc] at hnot

/-- Blanks at the end are dropped from the body behind them. -/
theorem reverse_dropWhile_append {after : List Char} (hafter : ∀ c ∈ after, isBlank c = true)
    (hlast : ∀ c ∈ body.getLast?, isBlank c = false) :
    ((body ++ after).reverse.dropWhile isBlank).reverse = body := by
  have hblank : ∀ c ∈ after.reverse, isBlank c = true :=
    fun c hc => hafter c (List.mem_reverse.mp hc)
  have hfirst : ∀ c ∈ body.reverse.head?, isBlank c = false := by
    rwa [List.head?_reverse]
  rw [List.reverse_append, List.dropWhile_append_of_pos hblank, dropWhile_isBlank_of_first hfirst,
    List.reverse_reverse]

theorem Trims.trim_eq (h : Trims s body) : trim s = body := by
  obtain ⟨⟨before, after, rfl, hbefore, hafter⟩, hfirst, hlast⟩ := h
  rw [trim, List.append_assoc, List.dropWhile_append_of_pos hbefore]
  by_cases hbody : body = []
  · subst hbody
    have hnil : after.dropWhile isBlank = [] := List.dropWhile_eq_nil_iff.mpr hafter
    rw [List.nil_append, hnil]
    rfl
  · have hstart : ∀ c ∈ (body ++ after).head?, isBlank c = false := by
      obtain ⟨c, rest, rfl⟩ := List.exists_cons_of_ne_nil hbody
      exact hfirst
    rw [dropWhile_isBlank_of_first hstart, reverse_dropWhile_append hafter hlast]

theorem trims_trim (s : List Char) : Trims s (trim s) := by
  have hback : s.dropWhile isBlank =
      trim s ++ ((s.dropWhile isBlank).reverse.takeWhile isBlank).reverse := by
    rw [trim, ← List.reverse_append, List.takeWhile_append_dropWhile, List.reverse_reverse]
  constructor
  case split =>
    refine ⟨s.takeWhile isBlank, ((s.dropWhile isBlank).reverse.takeWhile isBlank).reverse, ?_,
      fun c => List.mem_takeWhile_imp, fun c hc => List.mem_takeWhile_imp (List.mem_reverse.mp hc)⟩
    rw [List.append_assoc, ← hback, List.takeWhile_append_dropWhile]
  case first =>
    intro c hc
    refine first_dropWhile s c ?_
    rw [hback, List.head?_append, hc]
    rfl
  case last =>
    intro c hc
    rw [trim, List.getLast?_reverse] at hc
    exact first_dropWhile _ c hc

/-- **Trimming leaves the body between the blanks.** -/
theorem trims_iff : Trims s body ↔ trim s = body :=
  ⟨Trims.trim_eq, fun h => h ▸ trims_trim s⟩

end Text
end Chronicle
