import Mathlib.Data.List.Basic

/-!
# Tables with soft deletion

Rows are never removed: a deletion stamps a row with an instant, and a restoration clears the
stamp.  A unique index ranges over the rows that are live, so a deletion always succeeds and a
restoration fails where another live row has taken the key.

## Main definitions

* `SoftTable` — rows under a unique index on the live ones.
* `SoftTable.stamp`, `SoftTable.clear` — an `UPDATE` of the stamp, set or cleared.
* `SoftTable.stampEach`, `SoftTable.clearEach` — loops of such updates.
* `SoftTable.IsLive` — a row is there and has no stamp.

## Main results

* `SoftTable.isLive_stampEach` — what a loop of deletions leaves.
* `SoftTable.Below.clearEach` — a loop of restorations does not fail on rows that were live
  together once.
-/

namespace Smap.SoftDelete

open List

/-- A row: the columns of the unique index, the others, and the stamp. -/
structure SoftRow (κ δ : Type) where
  key : κ
  data : δ
  deletedAt : Option ℕ

/-- Rows by id.  No two live ones have the same key. -/
structure SoftTable (ι κ δ : Type) where
  ids : List ι
  row : ι → Option (SoftRow κ δ)
  listed : ∀ i r, row i = some r → i ∈ ids
  unique : ∀ i j r s, row i = some r → row j = some s → r.deletedAt = none →
    s.deletedAt = none → r.key = s.key → i = j

namespace SoftTable

variable {ι κ δ : Type}

/-- A row without a stamp. -/
def IsLive (t : SoftTable ι κ δ) (i : ι) : Prop := ∃ r, t.row i = some r ∧ r.deletedAt = none

/-- `UPDATE … SET deleted_at = at WHERE p`. -/
def stamp (t : SoftTable ι κ δ) (p : ι → SoftRow κ δ → Bool) (time : ℕ) : SoftTable ι κ δ where
  ids := t.ids
  row i := (t.row i).map fun r => if p i r then { r with deletedAt := some time } else r
  listed i r h := by
    obtain ⟨r', hr', -⟩ := Option.map_eq_some_iff.mp h
    exact t.listed i r' hr'
  unique i j r s hr hs hrlive hslive hkey := by
    obtain ⟨r', hr', rfl⟩ := Option.map_eq_some_iff.mp hr
    obtain ⟨s', hs', rfl⟩ := Option.map_eq_some_iff.mp hs
    split at hrlive
    · cases hrlive
    · split at hslive
      · cases hslive
      · rename_i hr'' hs''
        rw [if_neg hr'', if_neg hs''] at hkey
        exact t.unique i j r' s' hr' hs' hrlive hslive hkey

/-- The rows with some stamps cleared. -/
def cleared (t : SoftTable ι κ δ) (p : ι → SoftRow κ δ → Bool) (i : ι) : Option (SoftRow κ δ) :=
  (t.row i).map fun r => if p i r then { r with deletedAt := none } else r

/-- Two live rows have one key. -/
def collide [DecidableEq ι] [DecidableEq κ] (i j : ι) (r s : Option (SoftRow κ δ)) : Bool :=
  match r, s with
  | some r, some s =>
    r.deletedAt.isNone && s.deletedAt.isNone && decide (r.key = s.key) && decide (i ≠ j)
  | _, _ => false

/-- The unique index is kept. -/
def fits [DecidableEq ι] [DecidableEq κ] (t : SoftTable ι κ δ)
    (p : ι → SoftRow κ δ → Bool) : Bool :=
  t.ids.all fun i => t.ids.all fun j => !collide i j (t.cleared p i) (t.cleared p j)

theorem fits_iff [DecidableEq ι] [DecidableEq κ] {t : SoftTable ι κ δ}
    {p : ι → SoftRow κ δ → Bool} :
    t.fits p = true ↔ ∀ i j r s, t.cleared p i = some r → t.cleared p j = some s →
      r.deletedAt = none → s.deletedAt = none → r.key = s.key → i = j := by
  have hmem : ∀ i r, t.cleared p i = some r → i ∈ t.ids := by
    intro i r h
    obtain ⟨r', hr', -⟩ := Option.map_eq_some_iff.mp h
    exact t.listed i r' hr'
  simp only [fits, all_eq_true, Bool.not_eq_true']
  constructor
  · intro h i j r s hr hs hrlive hslive hkey
    have hij := h i (hmem i r hr) j (hmem j s hs)
    simpa [collide, hr, hs, hrlive, hslive, hkey] using hij
  · intro h i _ j _
    cases hr : t.cleared p i with
    | none => rfl
    | some r =>
      cases hs : t.cleared p j with
      | none => rfl
      | some s =>
        have hij := h i j r s hr hs
        simp only [collide, Bool.and_eq_false_iff, Option.isNone_eq_false_iff,
          decide_eq_false_iff_not, not_not, Option.isSome_iff_ne_none]
        tauto

/-- `UPDATE … SET deleted_at = NULL WHERE p`, or an integrity error. -/
def clear [DecidableEq ι] [DecidableEq κ] (t : SoftTable ι κ δ) (p : ι → SoftRow κ δ → Bool) :
    Option (SoftTable ι κ δ) :=
  if h : t.fits p = true then
    some
      { ids := t.ids
        row := t.cleared p
        listed := by
          intro i r hr
          obtain ⟨r', hr', -⟩ := Option.map_eq_some_iff.mp hr
          exact t.listed i r' hr'
        unique := fits_iff.mp h }
  else none

variable {α : Type}

/-- One update after the other, each with its own instant. -/
def stampEach (t : SoftTable ι κ δ) (p : α → ι → SoftRow κ δ → Bool) (time : α → ℕ)
    (as : List α) : SoftTable ι κ δ :=
  as.foldl (fun t a => t.stamp (p a) (time a)) t

/-- One update after the other, until one of them fails. -/
def clearEach [DecidableEq ι] [DecidableEq κ] (t : SoftTable ι κ δ)
    (p : α → ι → SoftRow κ δ → Bool) (as : List α) : Option (SoftTable ι κ δ) :=
  as.foldlM (fun t a => t.clear (p a)) t

/-! ## What is live -/

variable {t t' t₀ : SoftTable ι κ δ} {p : ι → SoftRow κ δ → Bool} {i : ι}

variable {q : α → ι → SoftRow κ δ → Bool} {time : α → ℕ} {as : List α}

/-- A row that is live stays what it is until it is stamped, and is not live from then on. -/
theorem isLive_stampEach : (t.stampEach q time as).IsLive i ↔
      ∃ r, t.row i = some r ∧ r.deletedAt = none ∧ ∀ a ∈ as, q a i r = false := by
  induction as generalizing t with
  | nil => simp [stampEach, IsLive]
  | cons a as ih =>
    refine ih.trans ?_
    constructor
    · rintro ⟨r, hr, hlive, has⟩
      obtain ⟨r', hr', rfl⟩ := Option.map_eq_some_iff.mp hr
      split at hlive
      · cases hlive
      rename_i ha
      rw [if_neg ha] at has
      refine ⟨r', hr', hlive, ?_⟩
      rintro b (- | ⟨-, hb⟩)
      · exact Bool.eq_false_iff.mpr ha
      · exact has b hb
    · rintro ⟨r, hr, hlive, has⟩
      refine ⟨r, ?_, hlive, fun b hb => has b (mem_cons_of_mem a hb)⟩
      simp [stamp, hr, has a mem_cons_self]

theorem isSome_row_stampEach : ((t.stampEach q time as).row i).isSome = (t.row i).isSome := by
  induction as generalizing t with
  | nil => rfl
  | cons a as ih =>
    rw [stampEach, foldl_cons]
    refine ih.trans ?_
    rw [stamp, Option.isSome_map]

section Clear

variable [DecidableEq ι] [DecidableEq κ]

theorem row_of_clear (h : t.clear p = some t') : t'.row = t.cleared p := by
  unfold clear at h
  split at h
  · cases h
    rfl
  · cases h

theorem isLive_of_clear (h : t.clear p = some t') :
    t'.IsLive i ↔ ∃ r, t.row i = some r ∧ (r.deletedAt = none ∨ p i r = true) := by
  simp only [IsLive, row_of_clear h, cleared, Option.map_eq_some_iff]
  constructor
  · rintro ⟨-, ⟨r, hr, rfl⟩, hlive⟩
    split at hlive
    · rename_i hp
      exact ⟨r, hr, .inr hp⟩
    · exact ⟨r, hr, .inl hlive⟩
  · rintro ⟨r, hr, hlive⟩
    refine ⟨_, ⟨r, hr, rfl⟩, ?_⟩
    split
    · rfl
    · rename_i hp
      exact hlive.resolve_right hp

end Clear

/-! ## Tables with fewer live rows -/

/-- The same rows, of which no more are live. -/
def Below (t t₀ : SoftTable ι κ δ) : Prop :=
  ∀ i r, t.row i = some r → ∃ r₀, t₀.row i = some r₀ ∧ r.key = r₀.key ∧
    (r.deletedAt = none → r₀.deletedAt = none)

theorem Below.refl (t : SoftTable ι κ δ) : t.Below t := fun _ r hr => ⟨r, hr, rfl, id⟩

theorem Below.stamp (h : t.Below t₀) (time : ℕ) : (t.stamp p time).Below t₀ := by
  intro i r hr
  obtain ⟨r', hr', rfl⟩ := Option.map_eq_some_iff.mp hr
  obtain ⟨r₀, hr₀, hkey, hlive⟩ := h i r' hr'
  refine ⟨r₀, hr₀, ?_⟩
  split
  · exact ⟨hkey, nofun⟩
  · exact ⟨hkey, hlive⟩

theorem Below.stampEach (h : t.Below t₀) (as : List α) : (t.stampEach q time as).Below t₀ := by
  induction as generalizing t with
  | nil => exact h
  | cons a as ih => exact ih (h.stamp (time a))

section Clear

variable [DecidableEq ι] [DecidableEq κ]

/-- Rows that were live once can be restored. -/
theorem Below.clear (h : t.Below t₀)
    (hp : ∀ i r, t.row i = some r → p i r = true → t₀.IsLive i) :
    ∃ t', t.clear p = some t' ∧ t'.Below t₀ := by
  have hcleared : ∀ i r, t.cleared p i = some r → ∃ r₀, t₀.row i = some r₀ ∧ r.key = r₀.key ∧
      (r.deletedAt = none → r₀.deletedAt = none) := by
    intro i r hr
    obtain ⟨r', hr', rfl⟩ := Option.map_eq_some_iff.mp hr
    obtain ⟨r₀, hr₀, hkey, hlive⟩ := h i r' hr'
    refine ⟨r₀, hr₀, ?_⟩
    split
    · rename_i hpi
      obtain ⟨s, hs, hslive⟩ := hp i r' hr' hpi
      rw [hr₀] at hs
      cases hs
      exact ⟨hkey, fun _ => hslive⟩
    · exact ⟨hkey, hlive⟩
  have hfits : t.fits p = true := by
    refine fits_iff.mpr fun i j r s hr hs hrlive hslive hkey => ?_
    obtain ⟨r₀, hr₀, hrkey, hr₀live⟩ := hcleared i r hr
    obtain ⟨s₀, hs₀, hskey, hs₀live⟩ := hcleared j s hs
    exact t₀.unique i j r₀ s₀ hr₀ hs₀ (hr₀live hrlive) (hs₀live hslive)
      (hrkey.symm.trans (hkey.trans hskey))
  exact ⟨_, dif_pos hfits, hcleared⟩

/-- A restoration of the rows that a deletion has stamped undoes it, if they were live. -/
theorem clear_stamp {q : ι → SoftRow κ δ → Bool} {time : ℕ}
    (hlive : ∀ i r, t.row i = some r → p i r = true → r.deletedAt = none)
    (hstamped : ∀ i r, p i r = true → q i { r with deletedAt := some time } = true)
    (hrest : ∀ i r, t.row i = some r → p i r = false → q i r = false) :
    ∃ t', (t.stamp p time).clear q = some t' ∧ ∀ i, t'.IsLive i ↔ t.IsLive i := by
  have hback : ∀ i r, (t.stamp p time).row i = some r → q i r = true → t.IsLive i := by
    intro i r hr hq
    obtain ⟨r', hr', rfl⟩ := Option.map_eq_some_iff.mp hr
    split at hq
    · rename_i hp
      exact ⟨r', hr', hlive i r' hr' hp⟩
    · rename_i hp
      simp [hrest i r' hr' (by simpa using hp)] at hq
  obtain ⟨t', ht', -⟩ := ((Below.refl t).stamp time).clear hback
  refine ⟨t', ht', fun i => ?_⟩
  rw [isLive_of_clear ht']
  constructor
  · rintro ⟨r, hr, hrlive | hq⟩
    · obtain ⟨r₀, hr₀, -, hlive₀⟩ := (Below.refl t).stamp time i r hr
      exact ⟨r₀, hr₀, hlive₀ hrlive⟩
    · exact hback i r hr hq
  · rintro ⟨r, hr, hrlive⟩
    refine ⟨_, Option.map_eq_some_iff.mpr ⟨r, hr, rfl⟩, ?_⟩
    split
    · rename_i hp
      exact .inr (hstamped i r hp)
    · exact .inl hrlive

theorem Below.clearEach (h : t.Below t₀)
    (hq : ∀ a ∈ as, ∀ i r, q a i r = true → t₀.IsLive i) :
    ∃ t', t.clearEach q as = some t' ∧ t'.Below t₀ := by
  induction as generalizing t with
  | nil => exact ⟨t, rfl, h⟩
  | cons a as ih =>
    obtain ⟨t₁, ht₁, hbelow⟩ := h.clear fun i r _ => hq a mem_cons_self i r
    obtain ⟨t', ht', hbelow'⟩ := ih hbelow fun b hb => hq b (mem_cons_of_mem a hb)
    refine ⟨t', ?_, hbelow'⟩
    rw [SoftTable.clearEach, foldlM_cons, ht₁]
    exact ht'

end Clear

end SoftTable

end Smap.SoftDelete
