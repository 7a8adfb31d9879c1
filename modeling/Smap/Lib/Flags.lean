import Smap.Lib.Tables

/-!
# A flag that one row has

A table one of whose rows is flagged, under an exclusion constraint that forbids two.  The
constraint alone does not keep the flag from being lost: a transaction passes it on by two
statements, and is *mid way* after the first of them.

`Sole` is what the statements keep.  Whoever has drafted a flagged row also holds the row that
is flagged now, so at most one transaction is about to pass the flag on; and whoever has
drafted the flag away is mid way, or has drafted a row to pass it to.  A transaction that
commits while it is not mid way leaves exactly one flagged row.

## Main definitions

* `Table.updateFlag` — an update that flags a row, under the exclusion constraint.
* `Sole` — one row is flagged, and the flag is not going to be lost.

## Main results

* `Sole.update`, `Sole.updateFlag`, `Sole.commit`, `Sole.rollback` — one rule for each
  statement.
-/

namespace Smap.RowVersions

open Versioned

variable {κ α : Type}

variable {t : Table κ α} {i : ℕ} {k : κ} {p : α → Bool} {f : α → α}

namespace Table

/-- Another row that the transaction sees is flagged. -/
def violates [DecidableEq κ] (t : Table κ α) (flag : α → Bool) (i : ℕ) (k : κ) : Bool :=
  t.keys.any fun k' =>
    decide (k' ≠ k) && (t.row k').freeFor i && ((t.row k').seenBy i).any flag

/-- Another row is held by a transaction that found it flagged or leaves it flagged, and what
will come of it is open. -/
def contends [DecidableEq κ] (t : Table κ α) (flag : α → Bool) (i : ℕ) (k : κ) : Bool :=
  t.keys.any fun k' =>
    decide (k' ≠ k) && !(t.row k').freeFor i &&
      ((t.row k').committed.any flag || (t.row k').draft.any fun d => flag d.2)

/-- An update to a flagged version, under the constraint that no two rows are flagged: whether
a row was changed, or no answer if the constraint is violated.  `none` while the row, or the
outcome of the constraint, is in the hands of another transaction. -/
def updateFlag [DecidableEq κ] (t : Table κ α) (flag : α → Bool) (i : ℕ) (k : κ) (p : α → Bool)
    (f : α → α) : Option (Option Bool × Table κ α) :=
  match t.update i k p f with
  | none => none
  | some (false, t') => some (some false, t')
  | some (true, t') =>
    if t.violates flag i k then some (none, t)
    else if t.contends flag i k then none
    else some (some true, t')

variable {k' : κ}

theorem mem_keys_of_committed {r : α} (h : (t.row k).committed = some r) : k ∈ t.keys := by
  by_contra hk
  simp [(t.listed k hk).1] at h

theorem mem_keys_of_draft {d : ℕ × α} (h : (t.row k).draft = some d) : k ∈ t.keys := by
  by_contra hk
  simp [(t.listed k hk).2] at h

theorem update_of_updateFlag_eq_some_false [DecidableEq κ] {t' : Table κ α} {flag : α → Bool}
    (h : t.updateFlag flag i k p f = some (some false, t')) :
    t.update i k p f = some (false, t') := by
  unfold updateFlag at h
  split at h
  · cases h
  · rename_i hupdate
    cases h
    exact hupdate
  · split at h
    · cases h
    · split at h <;> cases h

/-- What an update to a flagged version that goes through has found at the other rows: nobody
is about to flag one, and one that is flagged is held by the transaction and drafted away. -/
theorem updateFlag_eq_some_true [DecidableEq κ] {t' : Table κ α} {flag : α → Bool}
    (h : t.updateFlag flag i k p f = some (some true, t')) : t.update i k p f = some (true, t') ∧
      (∀ k', k' ≠ k → ∀ j r, (t.row k').draft = some (j, r) → flag r = false) ∧
      ∀ k', k' ≠ k → ∀ r, (t.row k').committed = some r → flag r = true →
        ∃ r', (t.row k').draft = some (i, r') := by
  unfold updateFlag at h
  split at h
  · cases h
  · cases h
  rename_i t'' hupdate
  split at h
  · cases h
  rename_i hviolates
  split at h
  · cases h
  rename_i hcontends
  cases h
  simp only [violates, contends, List.any_eq_true, not_exists, not_and, Bool.and_eq_true,
    decide_eq_true_eq, and_imp] at hviolates hcontends
  refine ⟨hupdate, fun k' hk' j r hd => ?_, fun k' hk' r hc hflag => ?_⟩
  · cases hflag : flag r with
    | false => rfl
    | true =>
      have hmem := mem_keys_of_draft hd
      by_cases hj : j = i
      · subst hj
        refine absurd ?_ (hviolates k' hmem hk' (by simp [Versioned.freeFor, hd]))
        rw [seenBy_of_draft hd]
        simpa using hflag
      · refine absurd ?_ (hcontends k' hmem hk' (by simp [Versioned.freeFor, hd, hj]))
        simp [hd, hflag]
  · have hmem := mem_keys_of_committed hc
    have hfree : (t.row k').freeFor i = true := by
      by_contra hnot
      refine absurd ?_ (hcontends k' hmem hk' (by simpa using hnot))
      simp [hc, hflag]
    rcases draft_of_freeFor hfree with hd | hd
    · refine absurd ?_ (hviolates k' hmem hk' hfree)
      rw [seenBy_of_draft_eq_none hd i, hc]
      simpa using hflag
    · exact hd

end Table

/-! ## What the statements keep -/

/-- The row of `c` is the flagged one, and whoever takes the flag from it passes it on. -/
structure SoleAt (flag : α → Bool) (mid : ℕ → Prop) (t : Table κ α) (c : κ) : Prop where
  flagged : ∃ r, (t.row c).committed = some r ∧ flag r = true
  unique : ∀ k r, (t.row k).committed = some r → flag r = true → k = c
  /-- Who has drafted a flagged row holds the row that is flagged now. -/
  held : ∀ i k r, (t.row k).draft = some (i, r) → flag r = true →
    ∃ r', (t.row c).draft = some (i, r')
  one : ∀ i k k' r r', (t.row k).draft = some (i, r) → (t.row k').draft = some (i, r') →
    flag r = true → flag r' = true → k = k'
  /-- Who has drafted the flag away is mid way, or has drafted a row to pass it to. -/
  passed : ∀ i r, (t.row c).draft = some (i, r) → flag r = false →
    mid i ∨ ∃ k r', (t.row k).draft = some (i, r') ∧ flag r' = true

/-- Exactly one row is flagged, and the transactions under way keep it so. -/
def Sole (flag : α → Bool) (mid : ℕ → Prop) (t : Table κ α) : Prop :=
  ∃ c, SoleAt flag mid t c

variable {flag : α → Bool} {mid mid' : ℕ → Prop} {t' : Table κ α} {c : κ}

variable (h : Sole flag mid t)

include h

theorem Sole.existsUnique : ∃! k, ∃ r, (t.row k).committed = some r ∧ flag r = true := by
  obtain ⟨c, hc⟩ := h
  refine ⟨c, hc.flagged, ?_⟩
  rintro k ⟨r, hr, hflag⟩
  exact hc.unique k r hr hflag

omit h in
/-- A table nobody writes to. -/
theorem Sole.of_existsUnique (hdraft : ∀ k, (t.row k).draft = none)
    (h : ∃! k, ∃ r, (t.row k).committed = some r ∧ flag r = true) : Sole flag mid t := by
  obtain ⟨c, hc, hunique⟩ := h
  refine ⟨c, hc, fun k r hr hflag => hunique k ⟨r, hr, hflag⟩, ?_, ?_, ?_⟩
  · intro i k r hd
    simp [hdraft k] at hd
  · intro i k k' r r' hd
    simp [hdraft k] at hd
  · intro i r hd
    simp [hdraft c] at hd

theorem Sole.congr (hrow : t'.row = t.row) (hmid : ∀ j, mid j → mid' j) : Sole flag mid' t' := by
  obtain ⟨c, hc⟩ := h
  refine ⟨c, ?_⟩
  constructor <;> rw [hrow]
  · exact hc.flagged
  · exact hc.unique
  · exact hc.held
  · exact hc.one
  · exact fun i r hd hflag => (hc.passed i r hd hflag).imp_left (hmid i)

omit h in
theorem Table.committed_of_others (hothers : ∀ k', k' ≠ k → t'.row k' = t.row k')
    (hcommitted : (t'.row k).committed = (t.row k).committed) (k' : κ) :
    (t'.row k').committed = (t.row k').committed := by
  by_cases hk : k' = k
  · rw [hk, hcommitted]
  · rw [hothers k' hk]

omit h in
/-- A version without the flag is drafted, by a transaction that is mid way or has seen no flag
on the row. -/
theorem SoleAt.draft {r : α} (h : SoleAt flag mid t c)
    (hfree : (t.row k).draft = none ∨ ∃ r, (t.row k).draft = some (i, r))
    (hothers : ∀ k', k' ≠ k → t'.row k' = t.row k')
    (hcommitted : (t'.row k).committed = (t.row k).committed)
    (hdraft : (t'.row k).draft = some (i, r)) (hflag : flag r = false) (hmid : ∀ j, mid j → mid' j)
    (hgive : mid' i ∨ ∀ r₀, (t.row k).seenBy i = some r₀ → flag r₀ = false) :
    SoleAt flag mid' t' c := by
  have hcommitted' := Table.committed_of_others hothers hcommitted
  -- A flagged draft is one of before, at another row.
  have hold : ∀ j k' r', (t'.row k').draft = some (j, r') → flag r' = true →
      (t.row k').draft = some (j, r') := by
    intro j k' r' hd hf
    by_cases hk : k' = k
    · subst hk
      rw [hdraft] at hd
      cases hd
      simp [hflag] at hf
    · rwa [hothers k' hk] at hd
  -- The row was not another's.
  have hmine : ∀ j r', (t.row k).draft = some (j, r') → j = i := by
    intro j r' hd
    obtain hnone | ⟨r₀, hr₀⟩ := hfree
    · simp [hnone] at hd
    · rw [hr₀] at hd
      exact (Prod.mk.inj (Option.some.inj hd)).1.symm
  -- Where the flag was going to be passed on, it still is.
  have hkept : ∀ j r', (t.row c).draft = some (j, r') → flag r' = false →
      mid' j ∨ ∃ k' r', (t'.row k').draft = some (j, r') ∧ flag r' = true := by
    intro j r' hd hf
    obtain hm | ⟨k', r'', hd', hf'⟩ := h.passed j r' hd hf
    · exact .inl (hmid j hm)
    by_cases hk : k' = k
    · subst hk
      obtain rfl := hmine j r'' hd'
      refine .inl (hgive.resolve_right fun hseen => ?_)
      simp [hseen r'' (seenBy_of_draft hd')] at hf'
    · exact .inr ⟨k', r'', hothers k' hk ▸ hd', hf'⟩
  constructor
  · rw [hcommitted' c]
    exact h.flagged
  · intro k' r' hr'
    exact h.unique k' r' (hcommitted' k' ▸ hr')
  · intro j k' r' hd hf
    obtain ⟨r'', hc⟩ := h.held j k' r' (hold j k' r' hd hf) hf
    by_cases hck : c = k
    · subst hck
      obtain rfl := hmine j r'' hc
      exact ⟨r, hdraft⟩
    · exact ⟨r'', hothers c hck ▸ hc⟩
  · intro j k₁ k₂ r₁ r₂ h₁ h₂ hf₁ hf₂
    exact h.one j k₁ k₂ r₁ r₂ (hold j k₁ r₁ h₁ hf₁) (hold j k₂ r₂ h₂ hf₂) hf₁ hf₂
  · intro j r' hd hf
    by_cases hck : c = k
    · subst hck
      rw [hdraft] at hd
      cases hd
      obtain hm | hseen := hgive
      · exact .inl hm
      obtain hnone | ⟨r₀, hr₀⟩ := hfree
      · -- The transaction would have seen the flag.
        obtain ⟨r₀, hr₀, hflag₀⟩ := h.flagged
        rw [seenBy_of_draft_eq_none hnone i] at hseen
        simp [hseen r₀ hr₀] at hflag₀
      · exact hkept i r₀ hr₀ (hseen r₀ (seenBy_of_draft hr₀))
    · exact hkept j r' (hothers c hck ▸ hd) hf

/-- An update to a version without the flag, by a transaction that is mid way, or whose
condition spares the flagged row. -/
theorem Sole.update [DecidableEq κ] {b : Bool} (hupdate : t.update i k p f = some (b, t'))
    (hf : ∀ r, p r = true → flag (f r) = false) (hmid : ∀ j, mid j → mid' j)
    (hgive : mid' i ∨ ∀ r, p r = true → flag r = false) : Sole flag mid' t' := by
  obtain ⟨-, hrow, -⟩ | ⟨-, hfree, hothers, hcommitted, r, hr, hp, hdraft⟩ :=
    Table.update_eq_some hupdate
  · exact h.congr hrow hmid
  · obtain ⟨c, hc⟩ := h
    refine ⟨c, hc.draft hfree hothers hcommitted hdraft (hf r hp) hmid ?_⟩
    refine hgive.imp_right fun hspare r₀ hr₀ => ?_
    rw [hr] at hr₀
    exact Option.some.inj hr₀ ▸ hspare r hp

/-- An update to a flagged version that goes through, after which the transaction is not mid
way any more. -/
theorem Sole.updateFlag [DecidableEq κ] (hupdate : t.updateFlag flag i k p f = some (some true, t'))
    (hf : ∀ r, p r = true → flag (f r) = true) (hmid : ∀ j, j ≠ i → mid j → mid' j) :
    Sole flag mid' t' := by
  obtain ⟨hplain, hdrafts, hcommitteds⟩ := Table.updateFlag_eq_some_true hupdate
  obtain ⟨hfalse, -⟩ | ⟨-, -, hothers, hcommitted, r, -, hp, hdraft⟩ :=
    Table.update_eq_some hplain
  · cases hfalse
  obtain ⟨c, hc⟩ := h
  have hcommitted' := Table.committed_of_others hothers hcommitted
  -- The only flagged draft is the one just made.
  have honly : ∀ j k' r', (t'.row k').draft = some (j, r') → flag r' = true → j = i ∧ k' = k := by
    intro j k' r' hd hflag
    by_cases hk : k' = k
    · subst hk
      rw [hdraft] at hd
      exact ⟨(Prod.mk.inj (Option.some.inj hd)).1.symm, rfl⟩
    · rw [hothers k' hk] at hd
      simp [hdrafts k' hk j r' hd] at hflag
  have hheld : ∃ r', (t'.row c).draft = some (i, r') := by
    by_cases hck : c = k
    · subst hck
      exact ⟨_, hdraft⟩
    · obtain ⟨r₀, hr₀, hflag₀⟩ := hc.flagged
      rw [hothers c hck]
      exact hcommitteds c hck r₀ hr₀ hflag₀
  refine ⟨c, ?_⟩
  constructor
  · rw [hcommitted' c]
    exact hc.flagged
  · intro k' r' hr'
    exact hc.unique k' r' (hcommitted' k' ▸ hr')
  · intro j k' r' hd hflag
    obtain ⟨rfl, -⟩ := honly j k' r' hd hflag
    exact hheld
  · intro j k₁ k₂ r₁ r₂ h₁ h₂ hf₁ hf₂
    rw [(honly j k₁ r₁ h₁ hf₁).2, (honly j k₂ r₂ h₂ hf₂).2]
  · intro j r' hd _
    obtain ⟨r₀, hr₀⟩ := hheld
    rw [hr₀] at hd
    cases hd
    exact .inr ⟨k, f r, hdraft, hf r hp⟩

/-- **A transaction that is not mid way commits**, and the flag is where it was or has been
passed on. -/
theorem Sole.commit (hi : ¬ mid i) : Sole flag mid (t.commit i) := by
  obtain ⟨c, hc⟩ := h
  have hrow : ∀ k, (t.commit i).row k = (t.row k).commit i := fun _ => rfl
  by_cases hflag : ∃ k r, (t.row k).draft = some (i, r) ∧ flag r = true
  · obtain ⟨k, r, hd, hf⟩ := hflag
    obtain ⟨rc, hdc⟩ := hc.held i k r hd hf
    have hcommitted : ((t.commit i).row k).committed = some r := by
      exact (commit_of_draftOf (draftOf_eq_some.mpr hd)).1
    -- Nobody else has drafted a flagged row: the row of `c` has one holder.
    have hnobody : ∀ j k' r', ((t.commit i).row k').draft = some (j, r') → flag r' = false := by
      intro j k' r' hd'
      obtain ⟨hd', hji⟩ := draft_commit hd'
      cases hf' : flag r' with
      | false => rfl
      | true =>
        obtain ⟨r'', hdc'⟩ := hc.held j k' r' hd' hf'
        rw [hdc] at hdc'
        exact absurd (Prod.mk.inj (Option.some.inj hdc')).1.symm hji
    refine ⟨k, ⟨r, hcommitted, hf⟩, ?_, ?_, ?_, ?_⟩
    · intro k' r' hr' hf'
      obtain hd' | ⟨hnone, hr'⟩ := committed_commit_cases hr'
      · exact hc.one i k' k r' r hd' hd hf' hf
      · obtain rfl := hc.unique k' r' hr' hf'
        simp [draftOf_eq_some.mpr hdc] at hnone
    · intro j k' r' hd' hf'
      simp [hnobody j k' r' hd'] at hf'
    · intro j k₁ k₂ r₁ r₂ h₁ _ hf₁ _
      simp [hnobody j k₁ r₁ h₁] at hf₁
    · intro j r' hd'
      simp [hrow, (commit_of_draftOf (draftOf_eq_some.mpr hd)).2] at hd'
  · -- The row of `c` is not the transaction's: it would have drafted the flag away.
    have hnone : (t.row c).draftOf i = none := by
      cases hd : (t.row c).draftOf i with
      | none => rfl
      | some r =>
        have hd' := draftOf_eq_some.mp hd
        cases hf : flag r with
        | true => exact absurd ⟨c, r, hd', hf⟩ hflag
        | false =>
          obtain hm | hex := hc.passed i r hd' hf
          · exact absurd hm hi
          · exact absurd hex hflag
    have hsame : (t.commit i).row c = t.row c := by
      exact commit_of_draftOf_eq_none hnone
    refine ⟨c, ?_, ?_, ?_, ?_, ?_⟩
    · rw [hsame]
      exact hc.flagged
    · intro k r hr hf
      obtain hd | ⟨-, hr⟩ := committed_commit_cases hr
      · exact absurd ⟨k, r, hd, hf⟩ hflag
      · exact hc.unique k r hr hf
    · intro j k r hd hf
      rw [hsame]
      exact hc.held j k r (draft_commit hd).1 hf
    · intro j k₁ k₂ r₁ r₂ h₁ h₂
      exact hc.one j k₁ k₂ r₁ r₂ (draft_commit h₁).1 (draft_commit h₂).1
    · intro j r hd hf
      have hji := (draft_commit hd).2
      rw [hsame] at hd
      refine (hc.passed j r hd hf).imp_right ?_
      rintro ⟨k, r', hd', hf'⟩
      refine ⟨k, r', ?_, hf'⟩
      rw [hrow, commit_of_draft hd' hji]
      exact hd'

theorem Sole.rollback (hmid : ∀ j, j ≠ i → mid j → mid' j) : Sole flag mid' (t.rollback i) := by
  obtain ⟨c, hc⟩ := h
  have hrow : ∀ k, (t.rollback i).row k = (t.row k).rollback i := fun _ => rfl
  refine ⟨c, ?_⟩
  constructor <;> simp only [hrow, committed_rollback, draft_rollback]
  · exact hc.flagged
  · exact hc.unique
  · rintro j k r ⟨hd, hji⟩ hf
    obtain ⟨r', hr'⟩ := hc.held j k r hd hf
    exact ⟨r', hr', hji⟩
  · rintro j k₁ k₂ r₁ r₂ ⟨h₁, -⟩ ⟨h₂, -⟩
    exact hc.one j k₁ k₂ r₁ r₂ h₁ h₂
  · rintro j r ⟨hd, hji⟩ hf
    obtain hm | ⟨k, r', hd', hf'⟩ := hc.passed j r hd hf
    · exact .inl (hmid j hji hm)
    · exact .inr ⟨k, r', ⟨hd', hji⟩, hf'⟩

end Smap.RowVersions
