import Mathlib.Data.Finset.Card

/-!
# Epoch latches

A fan-in counter with a one-shot latch.  Arrivals carry an id; repeated ids count
once.  The arrival that brings the number of distinct ids up to `fire` takes the
latch, and the one that brings it up to `total` closes the epoch: the ids and the
latch are dropped and the next arrival starts afresh.

The second half says what a whole run of arrivals does without mentioning the state:
the arrivals are cut into epochs (`epochs`), and inside an epoch the latch is taken at
the one arrival where the count of distinct ids crosses `fire` (`flags`).

## Main definitions

* `State`, `arrive`, `run` — the machine.
* `State.Inv` — the latch is taken exactly when enough ids have arrived.
* `epochs`, `flags` — the reading of a run as a list of epochs.
* `run_decisions`, `run_state` — the machine computes that reading.
* `afterComplete` — what still arrives once every id of a set has.
-/

namespace Smap.EpochLatch

open Finset List

variable {β : Type*} [DecidableEq β]

/-! ## The machine -/

structure State (β : Type*) where
  epoch : ℕ := 0
  arrived : Finset β := ∅
  fired : Bool := false

/-- One arrival: whether it takes the latch, and the state after it. -/
def arrive (fire total : ℕ) (s : State β) (b : β) : Bool × State β :=
  let arrived := insert b s.arrived
  let reached := decide (fire ≤ arrived.card)
  (reached && !s.fired,
    if total ≤ arrived.card then { epoch := s.epoch + 1 }
    else { s with arrived := arrived, fired := s.fired || reached })

/-- A run of arrivals: the decisions in order, and the state after it. -/
def run (fire total : ℕ) : State β → List β → List Bool × State β
  | s, [] => ([], s)
  | s, b :: rest =>
    let (decision, s') := arrive fire total s b
    let (decisions, s'') := run fire total s' rest
    (decision :: decisions, s'')

@[simp] theorem run_nil (fire total : ℕ) (s : State β) : run fire total s [] = ([], s) := rfl

@[simp] theorem run_cons (fire total : ℕ) (s : State β) (b : β) (rest : List β) :
    run fire total s (b :: rest) =
      ((arrive fire total s b).1 :: (run fire total (arrive fire total s b).2 rest).1,
        (run fire total (arrive fire total s b).2 rest).2) := rfl

/-- The epoch is open, and its latch is taken exactly when enough ids have arrived. -/
structure State.Inv (fire total : ℕ) (s : State β) : Prop where
  isOpen : s.arrived.card < total
  latch : s.fired = true ↔ fire ≤ s.arrived.card

/-- Between epochs: nothing has arrived and the latch is free. -/
def State.Fresh (s : State β) : Prop := s.arrived = ∅ ∧ s.fired = false

variable {fire total : ℕ} {s : State β} {b : β}

omit [DecidableEq β] in
theorem State.Fresh.inv (hfire : 1 ≤ fire) (htotal : 1 ≤ total) (h : s.Fresh) :
    s.Inv fire total := by
  obtain ⟨harr, hfired⟩ := h
  refine ⟨?_, ?_⟩
  · rw [harr, card_empty]
    omega
  rw [harr, hfired, card_empty]
  constructor
  · intro hf
    cases hf
  · intro hle
    omega

theorem arrive_of_total_le (fire : ℕ) (h : total ≤ (insert b s.arrived).card) :
    (arrive fire total s b).2 = { epoch := s.epoch + 1 } := by
  simp only [arrive, if_pos h]

theorem arrive_of_lt_total (fire : ℕ) (h : (insert b s.arrived).card < total) :
    (arrive fire total s b).2 = { s with
      arrived := insert b s.arrived
      fired := s.fired || decide (fire ≤ (insert b s.arrived).card) } := by
  simp only [arrive, if_neg (not_le.mpr h)]

/-- An arrival takes the latch exactly when it makes the count cross `fire`. -/
theorem State.Inv.decision (h : s.Inv fire total) (b : β) : (arrive fire total s b).1 =
      decide (s.arrived.card < fire ∧ fire ≤ (insert b s.arrived).card) := by
  have hlatch := h.latch
  cases hf : s.fired with
  | true =>
    have hle : fire ≤ s.arrived.card := hlatch.mp hf
    simp only [arrive, hf, Bool.not_true, Bool.and_false]
    symm
    rw [decide_eq_false_iff_not]
    omega
  | false =>
    have hlt : s.arrived.card < fire := by
      by_contra hge
      simp [hlatch.mpr (not_lt.mp hge)] at hf
    simp only [arrive, hf, Bool.not_false, Bool.and_true, hlt, true_and]

theorem State.Inv.arrive (hfire : 1 ≤ fire) (htotal : 1 ≤ total) (h : s.Inv fire total) (b : β) :
    (arrive fire total s b).2.Inv fire total := by
  have hmono : s.arrived.card ≤ (insert b s.arrived).card :=
    card_le_card (subset_insert b s.arrived)
  by_cases hclose : total ≤ (insert b s.arrived).card
  · rw [arrive_of_total_le fire hclose]
    exact State.Fresh.inv hfire htotal ⟨rfl, rfl⟩
  rw [arrive_of_lt_total fire (not_le.mp hclose)]
  refine ⟨not_le.mp hclose, ?_⟩
  simp only [Bool.or_eq_true, h.latch, decide_eq_true_eq]
  constructor
  · rintro (hle | hle)
    · exact le_trans hle hmono
    · exact hle
  · exact Or.inr

theorem State.Inv.run (hfire : 1 ≤ fire) (htotal : 1 ≤ total) (h : s.Inv fire total) (bs : List β) :
    (run fire total s bs).2.Inv fire total := by
  induction bs generalizing s with
  | nil => exact h
  | cons b rest ih => exact ih (h.arrive hfire htotal b)

/-! ## Reading a run as epochs -/

/-- Where the number of distinct ids crosses `fire`, given the ids seen before. -/
def flags (fire : ℕ) : Finset β → List β → List Bool
  | _, [] => []
  | seen, b :: rest =>
    decide (seen.card < fire ∧ fire ≤ (insert b seen).card) :: flags fire (insert b seen) rest

/-- Cut a run into closed epochs and an open one, given the arrivals of the current
epoch so far.  An epoch closes at the arrival that completes `total` distinct ids. -/
def epochs (total : ℕ) : List β → List β → List (List β) × List β
  | current, [] => ([], current)
  | current, b :: rest =>
    if total ≤ (current ++ [b]).toFinset.card then
      ((current ++ [b]) :: (epochs total [] rest).1, (epochs total [] rest).2)
    else epochs total (current ++ [b]) rest

/-- Seeing the head first or with the rest is the same. -/
theorem insert_union_toFinset (b : β) (seen : Finset β) (rest : List β) :
    insert b seen ∪ rest.toFinset = seen ∪ (b :: rest).toFinset := by
  rw [toFinset_cons, insert_union, union_insert]

theorem flags_append (fire : ℕ) (seen : Finset β) (xs ys : List β) :
    flags fire seen (xs ++ ys) = flags fire seen xs ++ flags fire (seen ∪ xs.toFinset) ys := by
  induction xs generalizing seen with
  | nil => simp [flags]
  | cons b rest ih =>
    simp only [cons_append, flags, ih, insert_union_toFinset]

/-- **The latch is taken at most once**: exactly once if the count of distinct ids
crosses `fire` somewhere in the list, and never otherwise. -/
theorem count_flags (fire : ℕ) (seen : Finset β) (bs : List β) :
    (flags fire seen bs).count true =
      if seen.card < fire ∧ fire ≤ (seen ∪ bs.toFinset).card then 1 else 0 := by
  induction bs generalizing seen with
  | nil =>
    have hno : ¬(seen.card < fire ∧ fire ≤ (seen ∪ ([] : List β).toFinset).card) := by
      simp only [toFinset_nil, union_empty]
      omega
    simp only [flags, count_nil, if_neg hno]
  | cons b rest ih =>
    have hone : seen.card ≤ (insert b seen).card :=
      card_le_card (subset_insert b seen)
    have htwo : (insert b seen).card ≤ (seen ∪ (b :: rest).toFinset).card := by
      rw [← insert_union_toFinset]
      exact card_le_card subset_union_left
    rw [flags, count_cons, ih, insert_union_toFinset]
    simp only [beq_iff_eq, decide_eq_true_eq]
    split_ifs <;> omega

/-- In one epoch's worth of arrivals, starting from none. -/
theorem count_flags_empty (hfire : 1 ≤ fire) (bs : List β) :
    (flags fire ∅ bs).count true = if fire ≤ bs.toFinset.card then 1 else 0 := by
  rw [count_flags, empty_union, card_empty]
  have hpos : 0 < fire := hfire
  simp only [hpos, true_and]

theorem true_mem_flags (hfire : 1 ≤ fire) (bs : List β) :
    true ∈ flags fire ∅ bs ↔ fire ≤ bs.toFinset.card := by
  rw [← count_pos_iff, count_flags_empty hfire]
  split_ifs with h <;> simp [h]

/-- The epochs are consecutive pieces of the run. -/
theorem flatten_epochs (total : ℕ) (current bs : List β) :
    (epochs total current bs).1.flatten ++ (epochs total current bs).2 = current ++ bs := by
  induction bs generalizing current with
  | nil => simp [epochs]
  | cons b rest ih =>
    rw [epochs]
    split
    · rw [flatten_cons, append_assoc, ih]
      simp
    · rw [ih]
      simp

/-- The open epoch has not completed its ids. -/
theorem card_open_lt (htotal : 1 ≤ total) (current bs : List β)
    (hcur : current.toFinset.card < total) : (epochs total current bs).2.toFinset.card < total := by
  induction bs generalizing current with
  | nil => exact hcur
  | cons b rest ih =>
    rw [epochs]
    split
    · exact ih [] (by rw [toFinset_nil, card_empty]; omega)
    · rename_i hlt
      exact ih _ (not_le.mp hlt)

/-- **An epoch closes exactly when its ids are complete**: its last arrival brings the
number of distinct ids from below `total` up to `total`. -/
theorem closed_spec (htotal : 1 ≤ total) (current bs : List β)
    (hcur : current.toFinset.card < total) :
    ∀ ep ∈ (epochs total current bs).1, ∃ before last, ep = before ++ [last] ∧
      before.toFinset.card < total ∧ ep.toFinset.card = total := by
  induction bs generalizing current with
  | nil =>
    intro ep hep
    exact absurd hep not_mem_nil
  | cons b rest ih =>
    intro ep hep
    rw [epochs] at hep
    split at hep
    · rename_i hfull
      rcases mem_cons.mp hep with rfl | hep
      · refine ⟨current, b, rfl, hcur, le_antisymm ?_ hfull⟩
        have hle : (current ++ [b]).toFinset.card ≤ current.toFinset.card + 1 := by
          rw [toFinset_append]
          refine le_trans (card_union_le _ _) ?_
          simp
        omega
      · exact ih [] (by rw [toFinset_nil, card_empty]; omega) ep hep
    · rename_i hlt
      exact ih _ (not_le.mp hlt) ep hep

theorem card_toFinset_le_append (xs ys : List β) : xs.toFinset.card ≤ (xs ++ ys).toFinset.card := by
  rw [toFinset_append]
  exact card_le_card subset_union_left

theorem epochs_of_closing (current bs : List β) (b : β) (rest : List β)
    (hlt : (current ++ bs).toFinset.card < total)
    (hfull : total ≤ (current ++ bs ++ [b]).toFinset.card) :
    epochs total current (bs ++ b :: rest) =
      ((current ++ bs ++ [b]) :: (epochs total [] rest).1, (epochs total [] rest).2) := by
  induction bs generalizing current with
  | nil =>
    rw [append_nil] at hfull
    rw [nil_append, epochs, if_pos hfull, append_nil]
  | cons a bs ih =>
    have hsplit : current ++ a :: bs = (current ++ [a]) ++ bs := by simp
    rw [hsplit] at hlt hfull
    have hlt' : (current ++ [a]).toFinset.card < total :=
      lt_of_le_of_lt (card_toFinset_le_append _ _) hlt
    rw [cons_append, epochs, if_neg (not_le.mpr hlt'), ih _ hlt hfull, hsplit]

/-! ## The machine computes the reading -/

/-- The decisions the epochs of a run prescribe. -/
def decisions (fire total : ℕ) (bs : List β) : List Bool :=
  (epochs total [] bs).1.flatMap (flags fire ∅) ++ flags fire ∅ (epochs total [] bs).2

theorem run_spec (hfire : 1 ≤ fire) (htotal : 1 ≤ total) (bs : List β) :
    ∀ (s : State β) (current : List β), s.arrived = current.toFinset → s.Inv fire total →
      flags fire ∅ current ++ (run fire total s bs).1 =
          (epochs total current bs).1.flatMap (flags fire ∅) ++
            flags fire ∅ (epochs total current bs).2 ∧
        (run fire total s bs).2.epoch = s.epoch + (epochs total current bs).1.length ∧
        (run fire total s bs).2.arrived = (epochs total current bs).2.toFinset := by
  -- the current epoch's arrivals are carried along, so the flags of a closed epoch
  -- come out in one piece
  induction bs with
  | nil =>
    intro s current hcur _
    simp [epochs, hcur]
  | cons b rest ih =>
    intro s current hcur hinv
    have hins : insert b s.arrived = (current ++ [b]).toFinset := by
      rw [hcur, toFinset_append]
      ext x
      simp
    have hhead : flags fire ∅ current ++ [(arrive fire total s b).1] =
        flags fire ∅ (current ++ [b]) := by
      rw [flags_append, empty_union, hinv.decision b, ← hcur]
      rfl
    have hassoc : flags fire ∅ current ++ (run fire total s (b :: rest)).1 =
        flags fire ∅ (current ++ [b]) ++
          (run fire total (arrive fire total s b).2 rest).1 := by
      rw [run_cons, ← hhead, append_assoc]
      rfl
    rw [hassoc, run_cons, epochs]
    have hinv' := hinv.arrive hfire htotal b
    by_cases hfull : total ≤ (current ++ [b]).toFinset.card
    · rw [if_pos hfull]
      have hstate := arrive_of_total_le fire (hins ▸ hfull)
      rw [hstate] at hinv' ⊢
      obtain ⟨hdec, hep, harr⟩ := ih { epoch := s.epoch + 1 } [] rfl hinv'
      rw [flags, nil_append] at hdec
      refine ⟨?_, ?_, harr⟩
      · rw [flatMap_cons, append_assoc, hdec]
      · rw [hep, length_cons, Nat.add_right_comm, Nat.add_assoc]
    · rw [if_neg hfull]
      have hstate := arrive_of_lt_total fire (hins ▸ not_le.mp hfull)
      have hcur' : (arrive fire total s b).2.arrived = (current ++ [b]).toFinset := by
        rw [hstate]
        exact hins
      have hepoch : (arrive fire total s b).2.epoch = s.epoch := by rw [hstate]
      obtain ⟨hdec, hep, harr⟩ := ih _ _ hcur' hinv'
      exact ⟨hdec, by rw [hep, hepoch], harr⟩

/-- **A run from a fresh state decides as its epochs prescribe.** -/
theorem run_decisions (hfire : 1 ≤ fire) (htotal : 1 ≤ total) (hs : s.Fresh) (bs : List β) :
    (run fire total s bs).1 = decisions fire total bs := by
  have h := (run_spec hfire htotal bs s [] hs.1 (hs.inv hfire htotal)).1
  rw [flags, nil_append] at h
  exact h

/-- The state after a run from a fresh state: the number of closed epochs, the ids of
the open one, and its latch. -/
theorem run_state (hfire : 1 ≤ fire) (htotal : 1 ≤ total) (hs : s.Fresh) (bs : List β) :
    (run fire total s bs).2 =
      { epoch := s.epoch + (epochs total [] bs).1.length
        arrived := (epochs total [] bs).2.toFinset
        fired := decide (fire ≤ (epochs total [] bs).2.toFinset.card) } := by
  obtain ⟨-, hep, harr⟩ := run_spec hfire htotal bs s [] hs.1 (hs.inv hfire htotal)
  have hlatch := ((hs.inv hfire htotal).run hfire htotal bs).latch
  rw [harr] at hlatch
  have hfired : (run fire total s bs).2.fired =
      decide (fire ≤ (epochs total [] bs).2.toFinset.card) := by
    rw [Bool.eq_iff_iff, hlatch, decide_eq_true_eq]
  rw [← hfired, ← hep, ← harr]

/-- With both thresholds at one, every arrival takes the latch and closes its epoch. -/
theorem run_one_one (hs : s.Fresh) (bs : List β) :
    (run 1 1 s bs).1 = replicate bs.length true ∧ (run 1 1 s bs).2.Fresh := by
  induction bs generalizing s with
  | nil => exact ⟨rfl, hs⟩
  | cons b rest ih =>
    have hcard : (insert b s.arrived).card = 1 := by
      rw [hs.1, insert_empty_eq, card_singleton]
    have hdec : (arrive 1 1 s b).1 = true := by
      rw [(hs.inv (le_refl 1) (le_refl 1)).decision b, hcard, hs.1]
      rfl
    have hstate : (arrive 1 1 s b).2.Fresh := by
      rw [arrive_of_total_le 1 (le_of_eq hcard.symm)]
      exact ⟨rfl, rfl⟩
    obtain ⟨hdecs, hfresh⟩ := ih hstate
    rw [run_cons]
    refine ⟨?_, hfresh⟩
    rw [hdec, hdecs]
    rfl

/-! ## Counting the times the latch is taken -/

/-- The latch is never taken in a run exactly when the threshold lies above what an
epoch can hold, or above what arrives. -/
theorem count_decisions_eq_zero_iff (hfire : 1 ≤ fire) (htotal : 1 ≤ total) (bs : List β) :
    (decisions fire total bs).count true = 0 ↔ total < fire ∨ bs.toFinset.card < fire := by
  have hopen := card_open_lt htotal [] bs (by rw [toFinset_nil, card_empty]; omega)
  have hclosed := closed_spec htotal [] bs (by rw [toFinset_nil, card_empty]; omega)
  have hpieces := flatten_epochs total [] bs
  rw [count_eq_zero, decisions, mem_append, mem_flatMap, true_mem_flags hfire, not_or, not_le]
  constructor
  · rintro ⟨hdone, hlast⟩
    by_contra hcon
    rw [not_or, not_lt, not_lt] at hcon
    cases hd : (epochs total [] bs).1 with
    | nil =>
      -- nothing closed, so the open epoch is the whole run
      rw [hd, flatten_nil, nil_append, nil_append] at hpieces
      rw [hpieces] at hlast
      omega
    | cons ep =>
      have hep : ep ∈ (epochs total [] bs).1 := hd ▸ mem_cons_self
      obtain ⟨-, -, -, -, hcard⟩ := hclosed ep hep
      refine hdone ⟨ep, hep, (true_mem_flags hfire ep).mpr ?_⟩
      omega
  · intro hbound
    have hle : ∀ ep, ep ∈ (epochs total [] bs).1 ∨ ep = (epochs total [] bs).2 →
        ep.toFinset.card < fire := by
      intro ep hep
      rcases hbound with hbound | hbound
      · rcases hep with hep | rfl
        · obtain ⟨-, -, -, -, hcard⟩ := hclosed ep hep
          omega
        · omega
      · refine lt_of_le_of_lt (card_le_card ?_) hbound
        intro x hx
        rw [mem_toFinset] at hx ⊢
        rw [← nil_append bs, ← hpieces, mem_append, mem_flatten]
        rcases hep with hep | rfl
        · exact Or.inl ⟨ep, hep, hx⟩
        · exact Or.inr hx
    refine ⟨?_, hle _ (Or.inr rfl)⟩
    rintro ⟨ep, hep, hmem⟩
    have hcard := hle ep (Or.inl hep)
    rw [true_mem_flags hfire] at hmem
    omega

theorem flags_of_lt {seen : Finset β} {bs : List β} (h : (seen ∪ bs.toFinset).card < fire) :
    flags fire seen bs = replicate bs.length false := by
  induction bs generalizing seen with
  | nil => rfl
  | cons b rest ih =>
    have hle : (insert b seen).card ≤ (insert b seen ∪ rest.toFinset).card :=
      card_le_card subset_union_left
    rw [← insert_union_toFinset] at h
    have hhead : ¬(seen.card < fire ∧ fire ≤ (insert b seen).card) := by omega
    rw [flags, ih h, decide_eq_false hhead]
    rfl

/-- The first `total` distinct ids, however often repeated, make the first epoch. -/
theorem decisions_of_closing (fire : ℕ) (before : List β) (last : β) (rest : List β)
    (hlt : before.toFinset.card < total) (hfull : total ≤ (before ++ [last]).toFinset.card) :
    decisions fire total (before ++ last :: rest) =
      flags fire ∅ (before ++ [last]) ++ decisions fire total rest := by
  have hcut := epochs_of_closing [] before last rest (by simpa using hlt) (by simpa using hfull)
  rw [nil_append] at hcut
  rw [decisions, hcut, flatMap_cons, append_assoc]
  rfl

/-- Each id once, and as many ids as an epoch holds: one epoch. -/
theorem decisions_of_complete (fire : ℕ) (htotal : 1 ≤ total) {bs : List β} (hnodup : bs.Nodup)
    (hlen : bs.length = total) : decisions fire total bs = flags fire ∅ bs := by
  obtain ⟨before, last, rfl⟩ : ∃ before last, bs = before ++ [last] := by
    refine ⟨bs.dropLast, bs.getLast ?_, (dropLast_append_getLast _).symm⟩
    intro hnil
    rw [hnil, length_nil] at hlen
    omega
  have hbefore : before.toFinset.card < total := by
    have hle := toFinset_card_le before
    rw [length_append, length_singleton] at hlen
    omega
  have hfull : total ≤ (before ++ [last]).toFinset.card := by
    rw [toFinset_card_of_nodup hnodup]
    omega
  rw [decisions_of_closing fire before last [] hbefore hfull]
  simp [decisions, epochs, flags]

/-- What still arrives after every id of a set has arrived. -/
def afterComplete (ids : Finset β) : Finset β → List β → List β
  | _, [] => []
  | seen, b :: rest => if ids ⊆ insert b seen then rest else afterComplete ids (insert b seen) rest

theorem afterComplete_spec {ids : Finset β} :
    ∀ {seen : Finset β} {bs : List β}, ¬ids ⊆ seen → ids ⊆ seen ∪ bs.toFinset →
      ∃ before last, bs = before ++ last :: afterComplete ids seen bs ∧
        ¬ids ⊆ seen ∪ before.toFinset ∧ ids ⊆ insert last (seen ∪ before.toFinset) := by
  intro seen bs
  induction bs generalizing seen with
  | nil =>
    intro hnot hcover
    rw [toFinset_nil, union_empty] at hcover
    exact absurd hcover hnot
  | cons b rest ih =>
    intro hnot hcover
    by_cases hb : ids ⊆ insert b seen
    · refine ⟨[], b, ?_, ?_, ?_⟩
      · rw [afterComplete, if_pos hb, nil_append]
      · rwa [toFinset_nil, union_empty]
      · rwa [toFinset_nil, union_empty]
    · rw [← insert_union_toFinset] at hcover
      obtain ⟨before, last, hsplit, hopen, hfull⟩ := ih hb hcover
      refine ⟨b :: before, last, ?_, ?_, ?_⟩
      · rw [afterComplete, if_neg hb, cons_append, ← hsplit]
      · rwa [← insert_union_toFinset]
      · rwa [← insert_union_toFinset]

/-- **Repeats before completion are free; what arrives afterwards counts again.** -/
theorem count_decisions_of_cover (hfire : 1 ≤ fire) {ids : Finset β} {bs : List β}
    (hids : ids.Nonempty) (hbs : bs.toFinset = ids) :
    (decisions fire ids.card bs).count true =
      (if fire ≤ ids.card then 1 else 0) +
        (decisions fire ids.card (afterComplete ids ∅ bs)).count true := by
  have hnot : ¬ids ⊆ ∅ := by
    rw [subset_empty]
    exact hids.ne_empty
  obtain ⟨before, last, hsplit, hopen, hfull⟩ :=
    afterComplete_spec hnot (by rw [empty_union, hbs])
  rw [empty_union] at hopen hfull
  have hsub : before.toFinset ⊆ ids := by
    intro x hx
    rw [← hbs, hsplit, mem_toFinset]
    exact mem_append_left _ (mem_toFinset.mp hx)
  have hlast : last ∈ ids := by
    rw [← hbs, hsplit, mem_toFinset]
    exact mem_append_right _ mem_cons_self
  have hcover : (before ++ [last]).toFinset = ids := by
    refine Finset.Subset.antisymm ?_ ?_
    · intro x hx
      rw [List.mem_toFinset, mem_append, List.mem_singleton] at hx
      rcases hx with hx | rfl
      · exact hsub (mem_toFinset.mpr hx)
      · exact hlast
    · intro x hx
      have hx' := hfull hx
      rw [mem_insert, mem_toFinset] at hx'
      rw [List.mem_toFinset, mem_append, List.mem_singleton]
      exact hx'.symm
  have hlt : before.toFinset.card < ids.card :=
    card_lt_card ⟨hsub, hopen⟩
  have hcut := decisions_of_closing fire before last (afterComplete ids ∅ bs) hlt
    (le_of_eq (by rw [hcover]))
  rw [← hsplit] at hcut
  rw [hcut, count_append, count_flags_empty hfire, hcover]

/-- **What repeats cost.**  With repeats the ids of an epoch take the latch as often as
without exactly if an epoch cannot take it, or too few ids arrive once it is complete. -/
theorem count_decisions_eq_iff (hfire : 1 ≤ fire) {base ids : List β} (hne : base ≠ [])
    (hnodup : base.Nodup) (hids : ids.toFinset = base.toFinset) :
    (decisions fire base.length ids).count true = (decisions fire base.length base).count true ↔
      base.length < fire ∨ (afterComplete base.toFinset ∅ ids).toFinset.card < fire := by
  have hpos : 1 ≤ base.length := length_pos_iff.mpr hne
  have hcard : base.toFinset.card = base.length := toFinset_card_of_nodup hnodup
  have hcover := count_decisions_of_cover hfire (toFinset_nonempty_iff base |>.mpr hne) hids
  rw [hcard] at hcover
  rw [decisions_of_complete fire hpos hnodup rfl, count_flags_empty hfire, hcard, hcover,
    Nat.add_eq_left, count_decisions_eq_zero_iff hfire hpos]

end Smap.EpochLatch
