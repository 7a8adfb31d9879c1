import Mathlib.Data.List.Dedup
import Smap.Lib.RowVersions

/-!
# Keyed tables under read committed

A table is a row for each key, under the versions of `RowVersions`, and the keys that have
a row.  Its rows are never final: a statement may rewrite any of them.

## Main definitions

* `Table` — keys and rows; `Table.upsert`, `Table.update`, `Table.commit`, `Table.rollback` —
  the statements.
* `Table.select` — what a transaction reads; `Table.newest` — the table as it is going to
  be once every transaction has committed.
-/

namespace Smap.RowVersions

open Versioned Function List

/-- A row that may always be rewritten. -/
abbrev Row (α : Type) := Versioned α fun _ => false

/-- Rows by key; a key that is not listed has none. -/
structure Table (κ α : Type) where
  keys : List κ
  row : κ → Row α
  nodup : keys.Nodup
  listed : ∀ k, k ∉ keys → (row k).committed = none ∧ (row k).draft = none

namespace Table

variable {κ α : Type}

/-- No rows. -/
def empty : Table κ α where
  keys := []
  row _ := .absent
  nodup := nodup_nil
  listed _ _ := ⟨rfl, rfl⟩

/-- Committed rows; the first one of a key counts. -/
def ofList [DecidableEq κ] (rows : List (κ × α)) : Table κ α where
  keys := (rows.map Prod.fst).dedup
  row k := ⟨rows.lookup k, none, by simp⟩
  nodup := nodup_dedup _
  listed k hk := by
    refine ⟨lookup_eq_none_iff.mpr fun r hr => ?_, rfl⟩
    rw [bne_iff_ne]
    rintro rfl
    exact hk (mem_dedup.mpr (mem_map_of_mem hr))

/-- Insert a row under a key, or rewrite the one there is. -/
def upsert [DecidableEq κ] (t : Table κ α) (i : ℕ) (k : κ) (r : α) : Option (Table κ α) :=
  match (t.row k).upsert i r fun _ => rfl with
  | none => none
  | some c =>
    some
      { keys := t.keys.insert k
        row := Function.update t.row k c
        nodup := t.nodup.insert
        listed := by
          intro k' hk'
          rw [mem_insert_iff, not_or] at hk'
          rw [update_of_ne hk'.1]
          exact t.listed k' hk'.2 }

/-- `UPDATE … SET f WHERE p` on the row of a key, and whether it was changed.  A `DELETE` is
an update too, where a row may be `none`. -/
def update [DecidableEq κ] (t : Table κ α) (i : ℕ) (k : κ) (p : α → Bool) (f : α → α) :
    Option (Bool × Table κ α) :=
  match h : (t.row k).update i p f fun _ _ => rfl with
  | none => none
  | some (b, c) =>
    some (b,
      { keys := t.keys
        row := Function.update t.row k c
        nodup := t.nodup
        listed := by
          intro k' hk'
          by_cases hk : k' = k
          · -- a key without a row has nothing to update
            subst hk
            obtain ⟨hc, hd⟩ := t.listed k' hk'
            have hnone := draftOf_of_draft_eq_none hd i
            have hs := seenBy_of_draftOf_eq_none hnone
            rw [update_self]
            obtain ⟨-, rfl, -⟩ | ⟨-, -, -, r, hr, -, -⟩ := update_eq_some h
            · exact ⟨hc, hd⟩
            · rw [hs, hc] at hr
              cases hr
          · rw [update_of_ne hk]
            exact t.listed k' hk' })

def rollback (t : Table κ α) (i : ℕ) : Table κ α where
  keys := t.keys
  row k := (t.row k).rollback i
  nodup := t.nodup
  listed := by
    intro k hk
    obtain ⟨hc, hd⟩ := t.listed k hk
    simp only [Versioned.rollback, draftOf_of_draft_eq_none hd i]
    exact ⟨hc, hd⟩

def commit (t : Table κ α) (i : ℕ) : Table κ α where
  keys := t.keys
  row k := (t.row k).commit i
  nodup := t.nodup
  listed := by
    intro k hk
    obtain ⟨hc, hd⟩ := t.listed k hk
    rw [commit_of_draftOf_eq_none (draftOf_of_draft_eq_none hd i)]
    exact ⟨hc, hd⟩

/-- The rows a transaction sees under some keys. -/
def select (t : Table κ α) (i : ℕ) (p : κ → Bool) : List α :=
  (t.keys.filter p).filterMap fun k => (t.row k).seenBy i

/-- The row a key is going to have. -/
def newest (t : Table κ α) (k : κ) : Option α := (t.row k).newest

variable {t t' : Table κ α} {i : ℕ} {k : κ} {r : α} {p : κ → Bool}

theorem upsert_eq_some [DecidableEq κ] (h : t.upsert i k r = some t') :
    ((t.row k).draft = none ∨ ∃ r, (t.row k).draft = some (i, r)) ∧
      (t'.row k).committed = (t.row k).committed ∧ (t'.row k).draft = some (i, r) ∧
      ∀ k', k' ≠ k → t'.row k' = t.row k' := by
  unfold upsert at h
  split at h
  · cases h
  rename_i c hc
  cases h
  obtain ⟨hfree, hcommitted, hd⟩ := upsert_eq_some hc
  refine ⟨hfree, ?_, ?_, fun k' hk' => update_of_ne hk' _ _⟩
  · simpa only [update_self] using hcommitted
  · simpa only [update_self] using hd

/-- An update changes nothing, or drafts a new version of a row that nobody else holds. -/
theorem update_eq_some [DecidableEq κ] {p : α → Bool} {f : α → α} {b : Bool}
    (h : t.update i k p f = some (b, t')) :
    (b = false ∧ t'.row = t.row ∧ ∀ r, (t.row k).seenBy i = some r → p r = false) ∨
      (b = true ∧ ((t.row k).draft = none ∨ ∃ r, (t.row k).draft = some (i, r)) ∧
        (∀ k', k' ≠ k → t'.row k' = t.row k') ∧ (t'.row k).committed = (t.row k).committed ∧
        ∃ r, (t.row k).seenBy i = some r ∧ p r = true ∧ (t'.row k).draft = some (i, f r)) := by
  unfold update at h
  split at h
  · cases h
  rename_i b' c hc
  cases h
  obtain ⟨rfl, rfl, hno⟩ | ⟨rfl, hfree, hcommitted, r, hr, hp, hd⟩ :=
    update_eq_some hc
  · exact .inl ⟨rfl, update_eq_self k t.row, hno⟩
  · refine .inr ⟨rfl, hfree, fun k' hk' => update_of_ne hk' _ _, ?_, r, hr, hp, ?_⟩
    · simpa only [update_self] using hcommitted
    · simpa only [update_self] using hd

theorem newest_upsert [DecidableEq κ] (h : t.upsert i k r = some t') :
    t'.newest = Function.update t.newest k (some r) := by
  obtain ⟨-, -, hd, hother⟩ := upsert_eq_some h
  funext k'
  by_cases hk : k' = k
  · subst hk
    rw [update_self]
    exact newest_of_draft hd
  · rw [update_of_ne hk, newest, newest, hother k' hk]

@[simp] theorem newest_commit (t : Table κ α) (i : ℕ) : (t.commit i).newest = t.newest := by
  funext k
  exact Versioned.newest_commit (t.row k) i

theorem mem_select : r ∈ t.select i p ↔ ∃ k, p k = true ∧ (t.row k).seenBy i = some r := by
  simp only [select, mem_filterMap, mem_filter]
  constructor
  · rintro ⟨k, ⟨-, hp⟩, hr⟩
    exact ⟨k, hp, hr⟩
  · rintro ⟨k, hp, hr⟩
    refine ⟨k, ⟨?_, hp⟩, hr⟩
    by_contra hk
    obtain ⟨hc, hd⟩ := t.listed k hk
    simp [seenBy_of_draft_eq_none hd i, hc] at hr

/-- Rows that show their key are read once each. -/
theorem nodup_select {key : α → κ} (hkey : ∀ k r, (t.row k).seenBy i = some r → key r = k) :
    ((t.select i p).map key).Nodup := by
  rw [select, map_filterMap]
  refine (t.nodup.filter p).filterMap fun k k' b hk hk' => ?_
  obtain ⟨r, hr, rfl⟩ := Option.map_eq_some_iff.mp hk
  obtain ⟨r', hr', hb⟩ := Option.map_eq_some_iff.mp hk'
  rw [← hkey k r hr, ← hkey k' r' hr', hb]

end Table

end Smap.RowVersions
