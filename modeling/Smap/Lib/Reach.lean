import Mathlib.Algebra.BigOperators.Group.List.Basic
import Mathlib.Algebra.Ring.Nat
import Mathlib.Data.List.Infix

/-!
# The shortest prefix of a given weight

`reach weight target l` takes elements from the front of `l` until their weights add up to the
target; the element that reaches it is taken.  It is all of `l` if the target is not reached.

## Main results

* `reach_initial` — it is a prefix.
* `reach_concat_of_le`, `reach_concat_of_lt` — whether the last element is taken.
* `filter_suffix_of_pairwise` — a filter that keeps the end of a list.
-/

namespace Smap.Reach

open List

variable {α : Type*} {weight : α → ℕ} {target : ℕ}

def reach (weight : α → ℕ) (target : ℕ) : List α → List α
  | [] => []
  | x :: xs => if target ≤ weight x then [x] else x :: reach weight (target - weight x) xs

theorem reach_initial (l : List α) : reach weight target l <+: l := by
  induction l generalizing target with
  | nil => exact prefix_rfl
  | cons x xs ih =>
    rw [reach]
    split
    · exact prefix_append [x] xs
    · exact cons_prefix_cons.mpr ⟨rfl, ih⟩

variable {l : List α}

theorem reach_ne_nil (h : l ≠ []) : reach weight target l ≠ [] := by
  cases l with
  | nil => exact absurd rfl h
  | cons =>
    rw [reach]
    split <;> exact cons_ne_nil _ _

/-- The last element is not taken if those before it reach the target. -/
theorem reach_concat_of_le (x : α) (h : target ≤ (l.map weight).sum) (hpos : 0 < target) :
    reach weight target (l ++ [x]) = reach weight target l := by
  induction l generalizing target with
  | nil => exact absurd h (Nat.not_le.mpr hpos)
  | cons y ys ih =>
    rw [cons_append, reach, reach]
    split
    · rfl
    · rw [map_cons, sum_cons] at h
      rw [ih (by omega) (by omega)]

/-- Everything is taken if the elements before the last do not reach the target. -/
theorem reach_concat_of_lt (x : α) (h : (l.map weight).sum < target) :
    reach weight target (l ++ [x]) = l ++ [x] := by
  induction l generalizing target with
  | nil =>
    simp only [nil_append, reach]
    split <;> rfl
  | cons y ys ih =>
    rw [map_cons, sum_cons] at h
    rw [cons_append, reach, if_neg (by omega), ih (by omega)]

theorem reach_map {β : Type*} (f : β → α) (l : List β) :
    reach weight target (l.map f) = (reach (weight ∘ f) target l).map f := by
  induction l generalizing target with
  | nil => rfl
  | cons x xs ih =>
    rw [map_cons, reach, reach]
    by_cases h : target ≤ weight (f x)
    · rw [if_pos h, if_pos (show target ≤ (weight ∘ f) x from h)]
      rfl
    · rw [if_neg h, if_neg (show ¬target ≤ (weight ∘ f) x from h), ih]
      rfl

/-- What holds of an element holds of all that come after: they are the end of the list. -/
theorem filter_suffix_of_pairwise {q : α → Bool}
    (h : l.Pairwise fun x y => q x = true → q y = true) : l.filter q <:+ l := by
  induction l with
  | nil => exact suffix_rfl
  | cons x l ih =>
    obtain ⟨hx, hl⟩ := pairwise_cons.mp h
    rw [filter_cons]
    split
    · rename_i hqx
      rw [filter_eq_self.mpr fun y hy => hx y hy hqx]
    · exact (ih hl).trans (suffix_cons x l)

end Smap.Reach
