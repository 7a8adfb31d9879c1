import Mathlib.Data.List.Basic

/-!
# Row versions under read committed

One database row shared by transactions that read the last committed version and
their own uncommitted one.  A row has at most one uncommitted version, and its writer
holds the row until it commits; another writer waits.  A conditional update whose
condition fails on the version its transaction sees changes nothing and does not wait.

Some versions are *final*: no update admits them.  `Versioned.live` keeps, as part of
the row, that nobody rewrites a row whose committed version is final, and from it a
final version stays for ever (`Evolves`).

## Main definitions

* `Versioned α final` — a row with its committed version and its draft.
* `Versioned.seenBy`, `Versioned.draftOf` — what a transaction reads, what it wrote.
* `Versioned.insert`, `Versioned.update`, `Versioned.upsert`, `Versioned.commit`,
  `Versioned.rollback` — the statements.
* `Versioned.newest` — the version the row is going to have.
* `Evolves` — what any statement of any transaction does to the committed version.
* `Untouched` — what the statements of others leave alone.
* `Everywhere` — a property of all versions of a row.
* `Inherits` — a property that passes from the committed version to the draft.
-/

namespace Smap.RowVersions

/-- A row: the committed version, and the draft of the transaction that holds it. -/
structure Versioned (α : Type) (final : α → Bool) where
  committed : Option α
  draft : Option (ℕ × α)
  /-- Nobody rewrites a final row. -/
  live : ∀ r, committed = some r → draft.isSome → final r = false

open Versioned

variable {α : Type} {final p : α → Bool} {c c' : Versioned α final} {i j : ℕ} {r : α} {f : α → α}
  {hp : ∀ r, p r = true → final r = false} {b : Bool}

namespace Versioned

/-- No row yet. -/
def absent : Versioned α final where
  committed := none
  draft := none
  live := by simp

/-- The version a transaction has written and not committed. -/
def draftOf (c : Versioned α final) (i : ℕ) : Option α :=
  match c.draft with
  | some (j, r) => if j = i then some r else none
  | none => none

/-- The version a transaction reads: its own draft, or else the committed one. -/
def seenBy (c : Versioned α final) (i : ℕ) : Option α :=
  (c.draftOf i).or c.committed

/-- The row is not held by another transaction. -/
def freeFor (c : Versioned α final) (i : ℕ) : Bool :=
  match c.draft with
  | some (j, _) => j == i
  | none => true

theorem draftOf_eq_some : c.draftOf i = some r ↔ c.draft = some (i, r) := by
  unfold draftOf
  cases hd : c.draft with
  | none => simp
  | some d =>
    obtain ⟨j, r'⟩ := d
    by_cases hj : j = i
    · simp [hj]
    · simp [hj]

theorem draftOf_of_draft_eq_none (h : c.draft = none) (i : ℕ) : c.draftOf i = none := by
  simp [draftOf, h]

/-- The row has one holder. -/
theorem draftOf_eq_none_of_ne (h : c.draft = some (j, r)) (hij : j ≠ i) : c.draftOf i = none := by
  simp [draftOf, h, hij]

theorem seenBy_of_draftOf (h : c.draftOf i = some r) : c.seenBy i = some r := by
  simp [seenBy, h]

theorem seenBy_of_draftOf_eq_none (h : c.draftOf i = none) : c.seenBy i = c.committed := by
  simp [seenBy, h]

theorem seenBy_of_draft (h : c.draft = some (i, r)) : c.seenBy i = some r :=
  seenBy_of_draftOf (draftOf_eq_some.mpr h)

theorem seenBy_of_draft_eq_none (h : c.draft = none) (i : ℕ) : c.seenBy i = c.committed :=
  seenBy_of_draftOf_eq_none (draftOf_of_draft_eq_none h i)

/-! ## Statements -/

/-- Insert the row.  Not possible once there is one. -/
def insert (c : Versioned α final) (i : ℕ) (r : α) : Option (Versioned α final) :=
  if hc : c.committed = none ∧ c.draft = none then
    some
      { committed := none
        draft := some (i, r)
        live := by simp }
  else none

/-- `UPDATE … SET f WHERE p`.  `none` while another transaction holds a row that
matches; otherwise whether a row was changed. -/
def update (c : Versioned α final) (i : ℕ) (p : α → Bool) (f : α → α)
    (hp : ∀ r, p r = true → final r = false) : Option (Bool × Versioned α final) :=
  match hs : c.seenBy i with
  | none => some (false, c)
  | some r =>
    if hpr : p r = true then
      if c.freeFor i = true then
        some (true,
          { committed := c.committed
            draft := some (i, f r)
            live := by
              intro r' hc _
              by_cases hd : c.draft.isSome
              · exact c.live r' hc hd
              · -- no draft: the version the condition admitted is the committed one
                have hnone : c.draft = none := by simpa using hd
                rw [seenBy_of_draft_eq_none hnone i, hc] at hs
                obtain rfl := Option.some.inj hs
                exact hp r' hpr })
      else none
    else some (false, c)

/-- `INSERT … ON CONFLICT DO UPDATE` on rows that have no final versions.  `none` while
another transaction holds the row. -/
def upsert (c : Versioned α final) (i : ℕ) (r : α) (hfinal : ∀ r, final r = false) :
    Option (Versioned α final) :=
  if c.freeFor i = true then
    some
      { committed := c.committed
        draft := some (i, r)
        live := fun r' _ _ => hfinal r' }
  else none

/-- Commit: the draft of the transaction becomes the committed version. -/
def commit (c : Versioned α final) (i : ℕ) : Versioned α final :=
  match c.draftOf i with
  | some r =>
    { committed := some r
      draft := none
      live := by simp }
  | none => c

/-- Roll back: the draft of the transaction is dropped. -/
def rollback (c : Versioned α final) (i : ℕ) : Versioned α final :=
  match c.draftOf i with
  | some _ =>
    { committed := c.committed
      draft := none
      live := by simp }
  | none => c

/-- The version the row will have once its holder commits. -/
def newest (c : Versioned α final) : Option α :=
  (c.draft.map Prod.snd).or c.committed

/-! ## What the statements do -/

theorem insert_eq_some (h : c.insert i r = some c') :
    c.committed = none ∧ c.draft = none ∧ c'.committed = none ∧ c'.draft = some (i, r) := by
  unfold insert at h
  split at h
  · rename_i hc
    cases h
    exact ⟨hc.1, hc.2, rfl, rfl⟩
  · cases h

theorem draft_of_freeFor (h : c.freeFor i = true) :
    c.draft = none ∨ ∃ r, c.draft = some (i, r) := by
  unfold freeFor at h
  cases hd : c.draft with
  | none => exact .inl rfl
  | some d =>
    obtain ⟨j, r⟩ := d
    rw [hd] at h
    have hj : j = i := by simpa using h
    exact .inr ⟨r, by rw [hj]⟩

/-- **A conditional update** either finds no version that matches and leaves the row, or
drafts the new version in the name of the transaction, which nobody else held. -/
theorem update_eq_some (h : c.update i p f hp = some (b, c')) :
    (b = false ∧ c' = c ∧ ∀ r, c.seenBy i = some r → p r = false) ∨
      (b = true ∧ (c.draft = none ∨ ∃ r, c.draft = some (i, r)) ∧
        c'.committed = c.committed ∧
        ∃ r, c.seenBy i = some r ∧ p r = true ∧ c'.draft = some (i, f r)) := by
  unfold update at h
  split at h
  · rename_i hs
    cases h
    exact .inl ⟨rfl, rfl, by simp [hs]⟩
  · rename_i r hs
    split at h
    · rename_i hpr
      split at h
      · rename_i hfree
        cases h
        exact .inr ⟨rfl, draft_of_freeFor hfree, rfl, r, hs, hpr, rfl⟩
      · cases h
    · rename_i hpr
      cases h
      refine .inl ⟨rfl, rfl, ?_⟩
      intro r' hr'
      rw [hs] at hr'
      cases hr'
      simpa using hpr

/-- The answer of an update is the condition, on the version the transaction sees. -/
theorem update_answer (h : c.update i p f hp = some (b, c')) : b = (c.seenBy i).any p := by
  obtain ⟨rfl, -, hno⟩ | ⟨rfl, -, -, r, hs, hpr, -⟩ := update_eq_some h
  · cases hs : c.seenBy i with
    | none => rfl
    | some r => simp [hno r hs]
  · simp [hs, hpr]

theorem upsert_eq_some {hfinal : ∀ r, final r = false} (h : c.upsert i r hfinal = some c') :
    (c.draft = none ∨ ∃ r, c.draft = some (i, r)) ∧ c'.committed = c.committed ∧
      c'.draft = some (i, r) := by
  unfold upsert at h
  split at h
  · rename_i hfree
    cases h
    exact ⟨draft_of_freeFor hfree, rfl, rfl⟩
  · cases h

theorem newest_of_draft (h : c.draft = some (i, r)) : c.newest = some r := by
  simp [newest, h]

theorem newest_of_draft_eq_none (h : c.draft = none) : c.newest = c.committed := by
  simp [newest, h]

/-- Where nobody else holds the row, a transaction sees its newest version. -/
theorem seenBy_eq_newest (h : c.draft = none ∨ ∃ r, c.draft = some (i, r)) :
    c.seenBy i = c.newest := by
  obtain hd | ⟨r, hd⟩ := h
  · rw [newest_of_draft_eq_none hd, seenBy_of_draft_eq_none hd i]
  · rw [newest_of_draft hd, seenBy_of_draft hd]

theorem commit_of_draftOf (h : c.draftOf i = some r) :
    (c.commit i).committed = some r ∧ (c.commit i).draft = none := by
  unfold commit
  split
  · rename_i r' hr'
    rw [hr'] at h
    exact ⟨h, rfl⟩
  · rename_i hnone
    simp [hnone] at h

theorem commit_of_draftOf_eq_none (h : c.draftOf i = none) : c.commit i = c := by
  unfold commit
  split
  · rename_i r hr
    simp [hr] at h
  · rfl

/-- A committed row has no draft of the transaction left. -/
@[simp] theorem draftOf_commit (c : Versioned α final) (i : ℕ) : (c.commit i).draftOf i = none := by
  cases h : c.draftOf i with
  | none => rw [commit_of_draftOf_eq_none h, h]
  | some => exact draftOf_of_draft_eq_none (commit_of_draftOf h).2 i

/-- What the transaction saw is what it leaves behind. -/
@[simp] theorem committed_commit (c : Versioned α final) (i : ℕ) :
    (c.commit i).committed = c.seenBy i := by
  cases h : c.draftOf i with
  | none => rw [commit_of_draftOf_eq_none h, seenBy_of_draftOf_eq_none h]
  | some => rw [(commit_of_draftOf h).1, seenBy_of_draftOf h]

/-- What a commit leaves is the transaction's draft, or what was there if it had none. -/
theorem committed_commit_cases (h : (c.commit i).committed = some r) :
    c.draft = some (i, r) ∨ c.draftOf i = none ∧ c.committed = some r := by
  rw [committed_commit] at h
  cases hd : c.draftOf i with
  | none => exact .inr ⟨rfl, seenBy_of_draftOf_eq_none hd ▸ h⟩
  | some x =>
    obtain rfl : x = r := Option.some.inj ((seenBy_of_draftOf hd).symm.trans h)
    exact .inl (draftOf_eq_some.mp hd)

@[simp] theorem newest_commit (c : Versioned α final) (i : ℕ) : (c.commit i).newest = c.newest := by
  cases h : c.draftOf i with
  | none => rw [commit_of_draftOf_eq_none h]
  | some =>
    obtain ⟨hc, hd⟩ := commit_of_draftOf h
    rw [newest_of_draft_eq_none hd, hc, newest_of_draft (draftOf_eq_some.mp h)]

theorem commit_of_draft (h : c.draft = some (j, r)) (hij : j ≠ i) : c.commit i = c :=
  commit_of_draftOf_eq_none (draftOf_eq_none_of_ne h hij)

theorem isSome_seenBy (h : c.committed.isSome) (i : ℕ) : (c.seenBy i).isSome := by
  simp [seenBy, h]

/-- A draft that is left after a commit is another's. -/
theorem draft_commit (h : (c.commit i).draft = some (j, r)) : c.draft = some (j, r) ∧ j ≠ i := by
  cases hd : c.draftOf i with
  | none =>
    rw [commit_of_draftOf_eq_none hd] at h
    refine ⟨h, ?_⟩
    rintro rfl
    simp [draftOf_eq_some.mpr h] at hd
  | some =>
    simp [(commit_of_draftOf hd).2] at h

@[simp] theorem committed_rollback (c : Versioned α final) (i : ℕ) :
    (c.rollback i).committed = c.committed := by
  unfold rollback
  split <;> rfl

/-- The drafts of others stay. -/
theorem draft_rollback : (c.rollback i).draft = some (j, r) ↔ c.draft = some (j, r) ∧ j ≠ i := by
  cases hd : c.draftOf i with
  | none =>
    simp only [rollback, hd, iff_self_and]
    rintro h rfl
    simp [draftOf_eq_some.mpr h] at hd
  | some =>
    rw [draftOf_eq_some] at hd
    simp only [rollback, draftOf_eq_some.mpr hd, hd]
    constructor
    · exact nofun
    · rintro ⟨h, hij⟩
      cases h
      exact absurd rfl hij

end Versioned

open Versioned

/-! ## What a row goes through -/

/-- What every statement does to the committed version: a row that exists goes on
existing, and a final version stays. -/
def Evolves (c c' : Versioned α final) : Prop :=
  ∀ r, c.committed = some r →
    ∃ r', c'.committed = some r' ∧ (final r = true → r' = r)

/-- What a transaction relies on: its draft, and the committed version beneath it, are
left alone by the others. -/
def Untouched (i : ℕ) (c c' : Versioned α final) : Prop :=
  c'.draftOf i = c.draftOf i ∧ ((c.draftOf i).isSome → c'.committed = c.committed)

theorem Evolves.refl (c : Versioned α final) : Evolves c c :=
  fun r h => ⟨r, h, fun _ => rfl⟩

theorem evolves_of_committed_eq (h : c'.committed = c.committed) : Evolves c c' :=
  fun r hr => ⟨r, h.trans hr, fun _ => rfl⟩

theorem Untouched.refl (i : ℕ) (c : Versioned α final) : Untouched i c c :=
  ⟨rfl, fun _ => rfl⟩

theorem evolves_insert (h : c.insert i r = some c') : Evolves c c' := by
  obtain ⟨hc, -, hc', -⟩ := insert_eq_some h
  exact evolves_of_committed_eq (hc'.trans hc.symm)

theorem committed_update (h : c.update i p f hp = some (b, c')) : c'.committed = c.committed := by
  obtain ⟨-, rfl, -⟩ | ⟨-, -, hc', -⟩ := update_eq_some h
  · rfl
  · exact hc'

theorem evolves_update (h : c.update i p f hp = some (b, c')) : Evolves c c' :=
  evolves_of_committed_eq (committed_update h)

theorem evolves_commit (c : Versioned α final) (i : ℕ) : Evolves c (c.commit i) := by
  intro r hr
  cases hd : c.draftOf i with
  | none =>
    rw [commit_of_draftOf_eq_none hd]
    exact ⟨r, hr, fun _ => rfl⟩
  | some r' =>
    refine ⟨r', (commit_of_draftOf hd).1, fun hfinal => ?_⟩
    -- a final row has no draft to commit
    have hlive := c.live r hr (by rw [draftOf_eq_some.mp hd]; rfl)
    simp [hlive] at hfinal

theorem untouched_insert (hij : j ≠ i) (h : c.insert j r = some c') : Untouched i c c' := by
  obtain ⟨-, hd, -, hd'⟩ := insert_eq_some h
  have hnone := draftOf_of_draft_eq_none hd i
  exact ⟨by rw [draftOf_eq_none_of_ne hd' hij, hnone], by simp [hnone]⟩

theorem untouched_update (hij : j ≠ i) (h : c.update j p f hp = some (b, c')) :
    Untouched i c c' := by
  obtain ⟨-, rfl, -⟩ | ⟨-, hfree, -, _, -, -, hd'⟩ := update_eq_some h
  · exact Untouched.refl _ _
  · have hnone : c.draftOf i = none := by
      obtain hd | ⟨r, hd⟩ := hfree
      · exact draftOf_of_draft_eq_none hd i
      · exact draftOf_eq_none_of_ne hd hij
    exact ⟨by rw [draftOf_eq_none_of_ne hd' hij, hnone], by simp [hnone]⟩

theorem untouched_commit (hij : j ≠ i) : Untouched i c (c.commit j) := by
  cases hd : c.draftOf j with
  | none =>
    rw [commit_of_draftOf_eq_none hd]
    exact Untouched.refl _ _
  | some =>
    have hnone := draftOf_eq_none_of_ne (draftOf_eq_some.mp hd) hij
    have hnone' := draftOf_of_draft_eq_none (commit_of_draftOf hd).2 i
    exact ⟨by rw [hnone', hnone], by simp [hnone]⟩

/-! ## Final versions -/

/-- A committed final version is what every transaction sees, and nobody holds the row. -/
theorem draft_eq_none_of_final (hr : c.committed = some r) (hfinal : final r = true) :
    c.draft = none := by
  cases hd : c.draft with
  | none => rfl
  | some =>
    have hlive := c.live r hr (by simp [hd])
    simp [hlive] at hfinal

section S

variable (hs : c.seenBy i = some r)

include hs

variable (hfinal : final r = true)

include hfinal

/-- A transaction that sees a final version has written it itself, or it is committed. -/
theorem final_seenBy : c.draftOf i = some r ∨ c.committed = some r ∧ c.draft = none := by
  cases hd : c.draftOf i with
  | none =>
    rw [seenBy_of_draftOf_eq_none hd] at hs
    exact .inr ⟨hs, draft_eq_none_of_final hs hfinal⟩
  | some =>
    rw [seenBy_of_draftOf hd] at hs
    exact .inl hs

omit hfinal in
theorem final_not_insert {r' : α} (h : c.insert j r' = some c') : False := by
  obtain ⟨hc, hd, -, -⟩ := insert_eq_some h
  simp [seenBy_of_draft_eq_none hd i, hc] at hs

/-- **A final version stays what a transaction sees**, whoever tries to update the row. -/
theorem final_seenBy_update (h : c.update j p f hp = some (b, c')) : c'.seenBy i = some r := by
  obtain ⟨-, rfl, -⟩ | ⟨-, hfree, -, r', hs', hpr', -⟩ := update_eq_some h
  · exact hs
  -- whoever changes the row sees a version that is not final, so it is not what `i` sees
  have hlive := hp r' hpr'
  have hne : ∀ k, c.seenBy k = some r → k ≠ j := by
    rintro k hk rfl
    cases hk.symm.trans hs'
    simp [hfinal] at hlive
  obtain hd | ⟨hc, hd⟩ := final_seenBy hs hfinal
  · obtain hnone | ⟨r'', hj⟩ := hfree
    · simp [draftOf_of_draft_eq_none hnone] at hd
    · simp [draftOf_eq_none_of_ne hj (hne i hs).symm] at hd
  · refine absurd rfl (hne j ?_)
    rw [seenBy_of_draft_eq_none hd j, hc]

/-- The same, whoever commits. -/
theorem final_seenBy_commit (j : ℕ) : (c.commit j).seenBy i = some r := by
  cases hdj : c.draftOf j with
  | none => rwa [commit_of_draftOf_eq_none hdj]
  | some =>
    obtain hd | ⟨-, hd⟩ := final_seenBy hs hfinal
    · obtain ⟨hcommitted, hdraft⟩ := commit_of_draftOf hdj
      have hj := draftOf_eq_some.mp hdj
      have hi := draftOf_eq_some.mp hd
      rw [hj] at hi
      cases hi
      rw [seenBy_of_draft_eq_none hdraft _, hcommitted]
    · simp [draftOf_of_draft_eq_none hd] at hdj

/-- Some version of the row is final. -/
def Versioned.anyFinal (c : Versioned α final) : Bool :=
  c.committed.any final || c.draft.any fun d => final d.2

theorem anyFinal_of_seenBy : c.anyFinal = true := by
  obtain hd | ⟨hc, -⟩ := final_seenBy hs hfinal
  · simp [anyFinal, draftOf_eq_some.mp hd, hfinal]
  · simp [anyFinal, hc, hfinal]

end S

/-- A row that is drafted is as final as its draft. -/
theorem anyFinal_of_draft (hd : c.draft = some (i, r)) : c.anyFinal = final r := by
  cases hc : c.committed with
  | none => simp [anyFinal, hc, hd]
  | some r' =>
    have hlive := c.live r' hc (by simp [hd])
    simp [anyFinal, hc, hd, hlive]

theorem anyFinal_of_draft_eq_none (hd : c.draft = none) : c.anyFinal = c.committed.any final := by
  simp [anyFinal, hd]

/-- Who can change the row finds no version of it final. -/
theorem anyFinal_update (h : c.update i p f hp = some (true, c')) :
    c.anyFinal = false ∧ ∃ r, c.seenBy i = some r ∧ p r = true ∧ c'.anyFinal = final (f r) := by
  obtain ⟨hfalse, -⟩ | ⟨-, hfree, -, r, hs, hpr, hd'⟩ := update_eq_some h
  · cases hfalse
  refine ⟨?_, r, hs, hpr, anyFinal_of_draft hd'⟩
  obtain hd | ⟨r', hd⟩ := hfree
  · rw [seenBy_of_draft_eq_none hd i] at hs
    rw [anyFinal_of_draft_eq_none hd, hs]
    exact hp r hpr
  · rw [seenBy_of_draft hd] at hs
    obtain rfl := Option.some.inj hs
    rw [anyFinal_of_draft hd]
    exact hp r' hpr

theorem anyFinal_commit (c : Versioned α final) (i : ℕ) : (c.commit i).anyFinal = c.anyFinal := by
  cases hd : c.draftOf i with
  | none => rw [commit_of_draftOf_eq_none hd]
  | some =>
    obtain ⟨hc', hd'⟩ := commit_of_draftOf hd
    rw [anyFinal_of_draft (draftOf_eq_some.mp hd), anyFinal_of_draft_eq_none hd', hc']
    rfl

/-! ## What all versions have in common -/

/-- The committed version and the draft both have the property. -/
structure Everywhere (P : α → Prop) (c : Versioned α final) : Prop where
  committed : ∀ r, c.committed = some r → P r
  draft : ∀ i r, c.draft = some (i, r) → P r

namespace Everywhere

variable {P : α → Prop}

variable (h : Everywhere P c)

include h

theorem seenBy (hr : c.seenBy i = some r) : P r := by
  cases hd : c.draftOf i with
  | none =>
    rw [seenBy_of_draftOf_eq_none hd] at hr
    exact h.committed r hr
  | some r' =>
    rw [seenBy_of_draftOf hd] at hr
    obtain rfl := Option.some.inj hr
    exact h.draft i r' (draftOf_eq_some.mp hd)

/-- An update that keeps the property of the version it rewrites. -/
theorem update
    (hf : ∀ r, c.seenBy i = some r → P r → P (f r)) (hupdate : c.update i p f hp = some (b, c')) :
    Everywhere P c' := by
  obtain ⟨-, rfl, -⟩ | ⟨-, -, hc', r, hs, -, hd'⟩ := update_eq_some hupdate
  · exact h
  · refine ⟨fun r' hr' => h.committed r' (hc' ▸ hr'), fun j r' hr' => ?_⟩
    rw [hd'] at hr'
    cases hr'
    exact hf r hs (h.seenBy hs)

/-- A commit publishes the draft, or does nothing. -/
theorem commit (i : ℕ) : Everywhere P (c.commit i) := by
  cases hd : c.draftOf i with
  | none =>
    rw [commit_of_draftOf_eq_none hd]
    exact h
  | some =>
    obtain ⟨hcommitted, hdraft⟩ := commit_of_draftOf hd
    refine ⟨fun r' hr' => ?_, fun j r' hr' => ?_⟩
    · rw [committed_commit] at hr'
      exact h.seenBy hr'
    · simp [hdraft] at hr'

end Everywhere

/-- A property that the draft of a row has whenever the committed version has it. -/
def Inherits (P : α → Prop) (c : Versioned α final) : Prop :=
  ∀ r, c.committed = some r → P r → ∀ i r', c.draft = some (i, r') → P r'

namespace Inherits

variable {P : α → Prop}

variable (h : Inherits P c)

include h

theorem update (hf : ∀ r, P r → P (f r)) (hupdate : c.update i p f hp = some (b, c')) :
    Inherits P c' := by
  obtain ⟨-, rfl, -⟩ | ⟨-, hfree, hc', r, hs, -, hd'⟩ := update_eq_some hupdate
  · exact h
  intro r₀ hr₀ hP j r' hr'
  rw [hd'] at hr'
  cases hr'
  rw [hc'] at hr₀
  refine hf r ?_
  obtain hnone | ⟨r₁, hd⟩ := hfree
  · rw [seenBy_of_draft_eq_none hnone, hr₀] at hs
    exact Option.some.inj hs ▸ hP
  · rw [seenBy_of_draft hd] at hs
    exact Option.some.inj hs ▸ h r₀ hr₀ hP i r₁ hd

theorem commit (i : ℕ) : Inherits P (c.commit i) := by
  cases hd : c.draftOf i with
  | none =>
    rw [commit_of_draftOf_eq_none hd]
    exact h
  | some =>
    intro r _ _ j r' hr'
    simp [(commit_of_draftOf hd).2] at hr'

omit h in
/-- What a transaction sees keeps the property, whoever updates the row. -/
theorem seenBy_update (hf : ∀ r, P r → P (f r)) (hupdate : c.update j p f hp = some (b, c'))
    (hseen : ∀ r, c.seenBy i = some r → P r) : ∀ r, c'.seenBy i = some r → P r := by
  obtain ⟨-, rfl, -⟩ | ⟨-, hfree, hc', r, hs, -, hd'⟩ := update_eq_some hupdate
  · exact hseen
  intro r' hr'
  by_cases hij : j = i
  · subst hij
    rw [seenBy_of_draft hd'] at hr'
    exact Option.some.inj hr' ▸ hf r (hseen r hs)
  · -- the draft is not the transaction's own, before or after
    have hnone : c.draftOf i = none := by
      obtain hnone | ⟨r₁, hd⟩ := hfree
      · exact draftOf_of_draft_eq_none hnone i
      · exact draftOf_eq_none_of_ne hd hij
    rw [seenBy_of_draftOf_eq_none (draftOf_eq_none_of_ne hd' hij), hc'] at hr'
    exact hseen r' (by rw [seenBy_of_draftOf_eq_none hnone, hr'])

/-- What a transaction sees of a stored row keeps the property when another commits. -/
theorem seenBy_commit (hstored : c.committed = some r)
    (hseen : ∀ r, c.seenBy i = some r → P r) :
    ∀ r, (c.commit j).seenBy i = some r → P r := by
  cases hd : c.draftOf j with
  | none =>
    rw [commit_of_draftOf_eq_none hd]
    exact hseen
  | some r₁ =>
    intro r' hr'
    obtain ⟨hcommitted, hnone⟩ := commit_of_draftOf hd
    rw [seenBy_of_draft_eq_none hnone, hcommitted] at hr'
    cases hr'
    by_cases hij : j = i
    · subst hij
      exact hseen r₁ (seenBy_of_draftOf hd)
    · have hdraft := draftOf_eq_some.mp hd
      have hother := seenBy_of_draftOf_eq_none (draftOf_eq_none_of_ne hdraft hij)
      exact h r hstored (hseen r (hother.trans hstored)) j r₁ hdraft

end Inherits

end Smap.RowVersions
