import Mathlib.Data.Nat.Notation

/-!
# Tokens in places

Numbered tokens that are minted one after the other and move between places.  The
relation `At q x` says that token `q` is at place `x`; nothing is assumed about how a
state stores it.  A step that moves tokens along a function of places, and one that mints
the next token, keep each token in at most one place.  Tokens may also get lost: every
statement is about the tokens there are after a step.

## Main definitions

* `Ledger At n` — the tokens are those below `n`, each in at most one place.
-/

namespace Smap.Tokens

variable {Place : Type} {At At' : ℕ → Place → Prop} {n : ℕ}

/-- The tokens that are somewhere have been minted, and are nowhere else. -/
structure Ledger (At : ℕ → Place → Prop) (n : ℕ) : Prop where
  unique : ∀ q x y, At q x → At q y → x = y
  below : ∀ q x, At q x → q < n

namespace Ledger

variable (h : Ledger At n)

include h

/-- Tokens move along a function of places, or get lost. -/
theorem move (f : Place → Place) (hf : ∀ q y, At' q y → ∃ x, At q x ∧ f x = y) : Ledger At' n where
  unique q y₁ y₂ h₁ h₂ := by
    obtain ⟨x₁, hx₁, rfl⟩ := hf q y₁ h₁
    obtain ⟨x₂, hx₂, rfl⟩ := hf q y₂ h₂
    rw [h.unique q x₁ x₂ hx₁ hx₂]
  below q y hy := by
    obtain ⟨x, hx, -⟩ := hf q y hy
    exact h.below q x hx

/-- Tokens stay where they are, or get lost. -/
theorem stay (hstay : ∀ q x, At' q x → At q x) : Ledger At' n :=
  h.move id fun q x hx => ⟨x, hstay q x hx, rfl⟩

/-- The next token is minted. -/
theorem mint (z : Place) (hz : ∀ q y, At' q y → At q y ∨ (q = n ∧ y = z)) : Ledger At' (n + 1) where
  unique q y₁ y₂ h₁ h₂ := by
    obtain hy₁ | ⟨rfl, rfl⟩ := hz q y₁ h₁
    · obtain hy₂ | ⟨rfl, rfl⟩ := hz q y₂ h₂
      · exact h.unique q y₁ y₂ hy₁ hy₂
      · exact absurd (h.below q y₁ hy₁) (Nat.lt_irrefl q)
    · obtain hy₂ | ⟨-, rfl⟩ := hz q y₂ h₂
      · exact absurd (h.below q y₂ hy₂) (Nat.lt_irrefl q)
      · rfl
  below q y hy := by
    obtain hy | ⟨rfl, -⟩ := hz q y hy
    · exact Nat.lt_succ_of_lt (h.below q y hy)
    · exact Nat.lt_succ_self q

end Ledger

end Smap.Tokens
