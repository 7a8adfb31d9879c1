import Mathlib.Data.Nat.Notation
import Mathlib.Logic.Function.Basic

/-!
# One holder at a time

Parties with private records, at most one of which holds something at a time.  What is known
of the world while it is held depends on the record of the holder, and something else is
known while nobody holds it.

The four rules are the ways a party's step can change this: take, go on, give up, and stay
out of it.

## Main definitions

* `OneHolder` — at most one holder, and what is known with one and without.
-/

namespace Smap.Holders

open Function

variable {L W : Type}

/-- At most one party holds, and what is known of the world by its record, or without. -/
structure OneHolder (holds : L → Bool) (stage : L → W → Prop) (idle : W → Prop) (N : ℕ → L)
    (w : W) : Prop where
  sole : ∀ i j, holds (N i) = true → holds (N j) = true → i = j
  stage : ∀ i, holds (N i) = true → stage (N i) w
  idle : (∀ i, holds (N i) = false) → idle w

namespace OneHolder

variable {holds : L → Bool} {stage : L → W → Prop} {idle : W → Prop} {N : ℕ → L} {w w' : W}
  {i : ℕ} {l : L}

/-- Nobody else holds, and the party does or does not from now on. -/
theorem settle (hothers : ∀ j, j ≠ i → holds (N j) = false)
    (hstage : holds l = true → stage l w') (hidle : holds l = false → idle w') :
    OneHolder holds stage idle (update N i l) w' := by
  have hsole : ∀ j, holds (update N i l j) = true → j = i := by
    intro j hj
    by_contra hij
    simp [update_of_ne hij, hothers j hij] at hj
  constructor
  · intro j k hj hk
    rw [hsole j hj, hsole k hk]
  · intro j hj
    obtain rfl := hsole j hj
    rw [update_self] at hj ⊢
    exact hstage hj
  · intro hnobody
    have hself := hnobody i
    rw [update_self] at hself
    exact hidle hself

/-- Nobody else holds, and the party takes it. -/
theorem take (hothers : ∀ j, j ≠ i → holds (N j) = false) (hl : holds l = true)
    (hstage : stage l w') : OneHolder holds stage idle (update N i l) w' := by
  refine settle hothers (fun _ => hstage) fun hl' => ?_
  simp [hl] at hl'

variable (h : OneHolder holds stage idle N w)

include h

theorem not_holds (hi : holds (N i) = true) {j : ℕ} (hij : j ≠ i) : holds (N j) = false := by
  cases hj : holds (N j) with
  | false => rfl
  | true => exact absurd (h.sole j i hj hi) hij

/-- The holder goes on. -/
theorem advance (hi : holds (N i) = true) (hl : holds l = true) (hstage : stage l w') :
    OneHolder holds stage idle (update N i l) w' :=
  take (fun _ hij => h.not_holds hi hij) hl hstage

/-- The holder gives it up. -/
theorem release (hi : holds (N i) = true) (hl : holds l = false) (hidle : idle w') :
    OneHolder holds stage idle (update N i l) w' := by
  refine settle (fun _ hij => h.not_holds hi hij) (fun hl' => ?_) fun _ => hidle
  simp [hl] at hl'

/-- What happens without a change of hands. -/
theorem congr (hstage : ∀ j, holds (N j) = true → stage (N j) w → stage (N j) w')
    (hidle : idle w → idle w') : OneHolder holds stage idle N w' where
  sole := h.sole
  stage j hj := hstage j hj (h.stage j hj)
  idle hnobody := hidle (h.idle hnobody)

/-- A party that does not hold stays out of it. -/
theorem wait (hi : holds (N i) = false) (hl : holds l = false) :
    OneHolder holds stage idle (update N i l) w := by
  have hholds : ∀ j, holds (update N i l j) = holds (N j) := by
    intro j
    by_cases hij : j = i
    · subst hij
      rw [update_self, hl, hi]
    · rw [update_of_ne hij]
  constructor
  · intro j k hj hk
    exact h.sole j k (hholds j ▸ hj) (hholds k ▸ hk)
  · intro j hj
    have hij : j ≠ i := by
      rintro rfl
      simp [update_self, hl] at hj
    rw [update_of_ne hij] at hj ⊢
    exact h.stage j hj
  · exact fun hnobody => h.idle fun j => hholds j ▸ hnobody j

end OneHolder

end Smap.Holders
