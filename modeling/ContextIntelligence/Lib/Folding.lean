import Mathlib

/-!
# Folding long names

A name within a budget is kept; a longer one becomes as many of its first letters as leave room for
a mark, unsafe ones replaced, and the mark, which is computed from the whole name. `total_fold_le`:
a folded name is within the budget.
-/

namespace ContextIntelligence.Lib.Folding

universe u

variable {α : Type u} {size : α → ℕ} {clean : α → α} {mark : List α → List α} {budget : ℕ}

def total (size : α → ℕ) (name : List α) : ℕ := (name.map size).sum

def takeWithin (size : α → ℕ) : ℕ → List α → List α
  | _, [] => []
  | budget, a :: name =>
    if size a ≤ budget then a :: takeWithin size (budget - size a) name else []

/-- Keep a name within the budget; of a longer one keep what leaves room for its mark. -/
def fold (size : α → ℕ) (clean : α → α) (mark : List α → List α) (budget : ℕ) (name : List α) :
    List α :=
  if total size name ≤ budget then name
  else (takeWithin size (budget - total size (mark name)) name).map clean ++ mark name

theorem total_append (name name' : List α) :
    total size (name ++ name') = total size name + total size name' := by
  simp [total]

theorem total_takeWithin_le (name : List α) :
    total size (takeWithin size budget name) ≤ budget := by
  induction name generalizing budget with
  | nil => exact Nat.zero_le _
  | cons a name ih =>
    simp only [takeWithin]
    split
    · rename_i ha
      have hrest := @ih (budget - size a)
      simp only [total, List.map_cons, List.sum_cons] at hrest ⊢
      omega
    · exact Nat.zero_le _

theorem takeWithin_sublist (budget : ℕ) (name : List α) :
    (takeWithin size budget name).Sublist name := by
  induction name generalizing budget with
  | nil => exact List.Sublist.refl _
  | cons a name ih =>
    simp only [takeWithin]
    split
    · exact (ih _).cons_cons a
    · exact List.nil_sublist _

theorem total_map_clean (hclean : ∀ a, size (clean a) = size a) (name : List α) :
    total size (name.map clean) = total size name := by
  rw [total, total, List.map_map]
  congr 1
  exact List.map_congr_left fun a _ => hclean a

theorem fold_of_le {name : List α} (h : total size name ≤ budget) :
    fold size clean mark budget name = name := if_pos h

/-- A folded name fits the budget. -/
theorem total_fold_le (hclean : ∀ a, size (clean a) = size a)
    (hmark : ∀ name, total size (mark name) ≤ budget) (name : List α) :
    total size (fold size clean mark budget name) ≤ budget := by
  rw [fold]
  split
  · assumption
  · rw [total_append, total_map_clean hclean]
    have hkept := @total_takeWithin_le _ size (budget - total size (mark name)) name
    have hfits := hmark name
    omega

end ContextIntelligence.Lib.Folding
