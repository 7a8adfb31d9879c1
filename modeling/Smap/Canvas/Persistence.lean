import Smap.Canvas.Relay

/-!
# Updates that are persisted

A flush takes a snapshot, writes it, and marks the document as flushed.  It marks the document
as it is then, also where an update has come in since the snapshot; the close of the last
editor finds nothing to write and evicts the document together with that update.  The same
window is open between the last flush and the eviction, and a connection may load the document
from a row it has read before somebody else wrote it.
-/

namespace Smap.Canvas

open Smap.Program Function Finset List

variable {D : Type} [SemilatticeSup D] [OrderBot D]

/-- The row has the update. -/
def World.persists (w : World D) (u : D) : Prop := ∃ state, w.crdtState = some state ∧ u ≤ state

/-- Updates stay out of flushes, a document is loaded from the row as it is, and an editor
that leaves is not misled by an entry that is only there for the cap. -/
def undisturbed (i : ℕ) (_input : Unit) (N : ℕ → Notes D) (o : Op D) (w : World D) : Prop :=
  match o with
  | .applyUpdate _ => w.entry.isSome = true → ∀ j, (N j).taken = none
  | .load crdtState _ => w.entry = none → crdtState = w.crdtState
  | .zcard => (N i).phase = .leaving → ∀ j, .temp j ∈ w.editors → ∃ k, .conn k ∈ w.editors
  | _ => True

/-! ## Who is registered -/

/-- Only editors are registered as such, and someone is open while there is a document. -/
structure Registry (N : ℕ → Notes D) (w : World D) : Prop where
  editing : ∀ i, .conn i ∈ w.editors → (N i).phase = .editing
  held : w.entry.isSome = true → ∃ i, (N i).isOpen = true

variable {N : ℕ → Notes D} {w w' : World D} {i : ℕ} {l : Notes D}

namespace Registry

omit [SemilatticeSup D] [OrderBot D]

theorem update (h : Registry N w)
    (hothers : ∀ j, j ≠ i → .conn j ∈ w'.editors → .conn j ∈ w.editors)
    (hself : .conn i ∈ w'.editors → l.phase = .editing)
    (hheld : w'.entry.isSome = true → l.isOpen = true ∨ ∃ j, j ≠ i ∧ (N j).isOpen = true) :
    Registry (Function.update N i l) w' where
  editing j := update_elim hself fun j hij hj => h.editing j (hothers j hij hj)
  held hentry := by
    rcases hheld hentry with hl | ⟨j, hij, hj⟩
    · exact ⟨i, by rwa [update_self]⟩
    · exact ⟨j, by rwa [update_of_ne hij]⟩

theorem isOpen_of_phase (h : l.phase = (N i).phase) : l.isOpen = (N i).isOpen := by
  unfold Notes.isOpen
  rw [h]

/-- A connection that stays in its phase. -/
theorem keep (h : Registry N w) (hphase : l.phase = (N i).phase)
    (heditors : ∀ j, .conn j ∈ w'.editors → .conn j ∈ w.editors)
    (hentry : w'.entry.isSome = true → w.entry.isSome = true) :
    Registry (Function.update N i l) w' := by
  refine h.update (fun j _ => heditors j) (fun hi => ?_) fun hsome => ?_
  · rw [hphase]
    exact h.editing i (heditors i hi)
  · obtain ⟨j, hj⟩ := h.held (hentry hsome)
    by_cases hij : j = i
    · subst hij
      exact .inl ((isOpen_of_phase hphase).trans hj)
    · exact .inr ⟨j, hij, hj⟩

end Registry

/-! ## What is where -/

/-- The document in memory and the snapshots have every accepted update, and so has the row
whenever the document is clean or gone. -/
structure Contents (N : ℕ → Notes D) (w : World D) : Prop where
  inMemory : ∀ e, w.entry = some e → ∀ u ∈ w.accepted, u ≤ e.doc
  clean : ∀ e, w.entry = some e → e.dirty = false → ∀ u ∈ w.accepted, w.persists u
  gone : w.entry = none → ∀ u ∈ w.accepted, w.persists u
  taken : ∀ i state, (N i).taken = some state → ∀ u ∈ w.accepted, u ≤ state
  written : ∀ i, (N i).written = true →
    (N i).taken.isSome = true ∧ ∀ u ∈ w.accepted, w.persists u

namespace Contents

omit [OrderBot D]

/-- A connection notes what is true. -/
theorem update (h : Contents N w)
    (htaken : ∀ state, l.taken = some state → ∀ u ∈ w.accepted, u ≤ state)
    (hwritten : l.written = true → l.taken.isSome = true ∧ ∀ u ∈ w.accepted, w.persists u) :
    Contents (Function.update N i l) w where
  inMemory := h.inMemory
  clean := h.clean
  gone := h.gone
  taken _ state := update_elim (htaken state) fun j _ => h.taken j state
  written _ := update_elim hwritten fun j _ => h.written j

/-- A connection that notes nothing about flushes. -/
theorem keep (h : Contents N w) (htaken : l.taken = (N i).taken)
    (hwritten : l.written = (N i).written) : Contents (Function.update N i l) w := by
  refine h.update (fun state hstate => h.taken i state (htaken ▸ hstate)) fun hl => ?_
  rw [htaken]
  exact h.written i (hwritten ▸ hl)

/-- Editors come and go. -/
theorem congr (h : Contents N w) (hentry : w'.entry = w.entry)
    (hstate : w'.crdtState = w.crdtState) (haccepted : w'.accepted = w.accepted) :
    Contents N w' := by
  have hpersists : ∀ u, w.persists u → w'.persists u := by
    rintro u ⟨state, hsome, hu⟩
    exact ⟨state, hstate.trans hsome, hu⟩
  constructor
  · rw [hentry, haccepted]
    exact h.inMemory
  · rw [hentry, haccepted]
    exact fun e he hdirty u hu => hpersists u (h.clean e he hdirty u hu)
  · rw [hentry, haccepted]
    exact fun hnone u hu => hpersists u (h.gone hnone u hu)
  · rw [haccepted]
    exact h.taken
  · rw [haccepted]
    exact fun j hj => ⟨(h.written j hj).1, fun u hu => hpersists u ((h.written j hj).2 u hu)⟩

/-- A step that leaves the row with every accepted update. -/
theorem of_persists (h : Contents N w) (haccepted : w'.accepted = w.accepted)
    (hentry : ∀ e', w'.entry = some e' → ∃ e, w.entry = some e ∧ e'.doc = e.doc)
    (hpersists : ∀ u ∈ w.accepted, w'.persists u) : Contents N w' := by
  constructor
  · intro e' he' u hu
    obtain ⟨e, he, hdoc⟩ := hentry e' he'
    rw [hdoc]
    exact h.inMemory e he u (haccepted ▸ hu)
  · exact fun _ _ _ u hu => hpersists u (haccepted ▸ hu)
  · exact fun _ u hu => hpersists u (haccepted ▸ hu)
  · rw [haccepted]
    exact h.taken
  · exact fun j hj => ⟨(h.written j hj).1, fun u hu => hpersists u (haccepted ▸ hu)⟩

end Contents

/-! ## Steps -/

section Steps

variable {S : Settings D}

omit [OrderBot D] in
/-- An update is rejected, or joined to the document that is in memory. -/
theorem applyUpdate_cases (S : Settings D) (u : Update D) (w : World D) :
    (applyUpdate S u w).2 = w ∨
      ∃ e u', w.entry = some e ∧ (applyUpdate S u w).2 =
        { w with entry := some ⟨e.doc ⊔ u', true⟩, accepted := w.accepted ++ [u'] } := by
  unfold applyUpdate
  split
  · exact .inl rfl
  · exact .inl rfl
  · exact .inl rfl
  · rename_i e u' he
    split
    · exact .inl rfl
    · exact .inr ⟨e, u', he, rfl⟩

variable {o : Op D} {r : Res o}

section Registry

omit [SemilatticeSup D] [OrderBot D]

/-- An editor comes, or a connection is counted for the cap. -/
theorem Registry.enter (h : Registry N w) (temp : Bool) :
    Registry (Function.update N i (note (N i) (.zadd temp) ()))
      { w with editors := insert (member temp i) w.editors } := by
  cases temp with
  | true =>
    refine h.keep rfl (fun j hj => ?_) id
    simpa [member] using hj
  | false =>
    refine h.update (fun j hij hj => ?_) (fun _ => rfl) fun _ => .inl rfl
    simpa [member, hij] using hj

theorem Registry.leave (h : Registry N w) (temp : Bool) :
    Registry (Function.update N i (note (N i) (.zrem temp) ()))
      { w with editors := w.editors.erase (member temp i) } := by
  cases temp with
  | true => exact h.keep rfl (fun j hj => mem_of_mem_erase hj) id
  | false =>
    refine h.update (fun j _ hj => mem_of_mem_erase hj) (fun hi => ?_) fun _ => .inl rfl
    exact absurd rfl (ne_of_mem_erase hi)

/-- An editor that leaves is the last one, or somebody else is still there. -/
theorem Registry.count (h : Registry N w) (hcond : (N i).phase = .leaving →
      ∀ j, .temp j ∈ w.editors → ∃ k, .conn k ∈ w.editors) :
    Registry (Function.update N i (note (N i) .zcard w.editors.card)) w := by
  by_cases hleaving : (N i).phase = .leaving
  · simp only [note, hleaving, ↓reduceIte]
    refine h.update (fun _ _ hj => hj) (fun hi => ?_) fun _ => ?_
    · have hphase := h.editing i hi
      simp [hleaving] at hphase
    by_cases hlast : w.editors.card = 0
    · exact .inl (by simp [hlast, Notes.isOpen])
    -- Someone else is registered, and an editor among them is still there.
    obtain ⟨k, hk⟩ : ∃ k, .conn k ∈ w.editors := by
      obtain ⟨m, hm⟩ := card_ne_zero.mp hlast
      cases m with
      | conn k => exact ⟨k, hm⟩
      | temp j => exact hcond hleaving j hm
    have hphase := h.editing k hk
    refine .inr ⟨k, ?_, by simp [Notes.isOpen, hphase]⟩
    rintro rfl
    simp [hleaving] at hphase
  · simp only [note, hleaving, ↓reduceIte]
    exact h.keep rfl (fun _ hj => hj) id

/-- The last editor evicts the document. -/
theorem Registry.evict (h : Registry N w) (hlast : (N i).phase = .last) :
    Registry (Function.update N i l) { w with entry := none } := by
  refine h.update (fun _ _ hj => hj) (fun hi => ?_) nofun
  have hphase := h.editing i hi
  simp [hlast] at hphase

end Registry

theorem Registry.step (h : Registry N w) (hok : Ok (N i) o) (hcond : undisturbed i () N o w)
    (hact : act S i o w = (r, w')) : Registry (Function.update N i (note (N i) o r)) w' := by
  cases o with
  | readCrdtState | listObjects | updateCrdtState state =>
    cases hact
    exact h.keep rfl (fun _ hj => hj) id
  | zadd temp =>
    cases hact
    exact h.enter temp
  | zrem temp =>
    cases hact
    exact h.leave temp
  | zcard =>
    cases hact
    exact h.count hcond
  | load =>
    cases hact
    refine h.update (fun _ _ hj => hj) (fun _ => hok.1) fun _ => .inl ?_
    simp [Notes.isOpen, note, hok.1]
  | snapshot closing =>
    cases hdue : dueState w with
    | some =>
      simp only [act, hdue, Prod.mk.injEq] at hact
      obtain ⟨rfl, rfl⟩ := hact
      exact h.keep rfl (fun _ hj => hj) id
    | none =>
      simp only [act, hdue, Prod.mk.injEq] at hact
      obtain ⟨rfl, rfl⟩ := hact
      cases closing with
      | false => exact h.keep rfl (fun _ hj => hj) id
      | true => exact h.evict hok.1
  | markFlushed closing =>
    cases hact
    cases closing with
    | false =>
      refine h.keep rfl (fun _ hj => hj) fun hsome => ?_
      simpa using hsome
    | true => exact h.evict hok.1
  | applyUpdate u =>
    obtain rfl := congrArg Prod.snd hact
    obtain hsame | ⟨e, u', he, hjoined⟩ := applyUpdate_cases S u w
    · simp only [act, hsame]
      exact h.keep rfl (fun _ hj => hj) id
    · simp only [act, hjoined]
      refine h.keep rfl (fun _ hj => hj) fun _ => ?_
      simp [he]

omit [SemilatticeSup D] [OrderBot D] in
theorem dueState_eq_some {state : D} (h : dueState w = some state) :
    ∃ e, w.entry = some e ∧ e.dirty = true ∧ e.doc = state := by
  unfold dueState at h
  split at h
  · rename_i e he
    split at h
    · rename_i hdirty
      exact ⟨e, he, hdirty, Option.some.inj h⟩
    · cases h
  · cases h

omit [OrderBot D] in
/-- Where nothing is due, the row has everything. -/
theorem Contents.persists_of_dueState_eq_none (h : Contents N w) (hdue : dueState w = none) :
    ∀ u ∈ w.accepted, w.persists u := by
  unfold dueState at hdue
  split at hdue
  · rename_i e he
    split at hdue
    · cases hdue
    · rename_i hclean
      exact h.clean e he (Bool.eq_false_iff.mpr hclean)
  · rename_i hnone
    exact h.gone hnone

/-- A document that is loaded from the row as it is. -/
theorem Contents.load {crdtState : Option D} (h : Contents N w)
    (hcond : w.entry = none → crdtState = w.crdtState) (legacyObjects : Option D) :
    Contents N { w with entry := some (getOrLoad crdtState legacyObjects w.entry) } := by
  cases hentry : w.entry with
  | some =>
    refine h.congr ?_ rfl rfl
    rw [hentry]
    rfl
  | none =>
    obtain rfl := hcond hentry
    have hgone := h.gone hentry
    refine ⟨?_, fun _ _ _ => hgone, nofun, h.taken, h.written⟩
    rintro e ⟨⟩ u hu
    obtain ⟨state, hstate, hle⟩ := hgone u hu
    simp only [getOrLoad, loaded, hstate]
    exact le_sup_of_le_right hle

section Contents

omit [OrderBot D]

/-- The snapshot of a flush has what the document has. -/
theorem Contents.snapshot {state : D} (h : Contents N w) (hdue : dueState w = some state)
    (hl : l.taken = some state) (hwritten : l.written = false) :
    Contents (Function.update N i l) w := by
  obtain ⟨e, he, -, rfl⟩ := dueState_eq_some hdue
  refine h.update (fun state hstate => ?_) fun h => ?_
  · cases hl.symm.trans hstate
    exact h.inMemory e he
  · simp [hwritten] at h

/-- A snapshot that is written has every accepted update, so the row has them. -/
theorem Contents.write {state : D} (h : Contents N w) (htaken : (N i).taken = some state) :
    Contents (Function.update N i { N i with written := true })
      { w with crdtState := some state } := by
  have hpersists : ∀ u ∈ w.accepted, World.persists { w with crdtState := some state } u :=
    fun u hu => ⟨state, rfl, h.taken i state htaken u hu⟩
  refine update ?_ ?_ ?_
  · exact h.of_persists rfl (fun e he => ⟨e, he, rfl⟩) hpersists
  · exact fun state' hstate' => h.taken i state' hstate'
  · exact fun _ => ⟨by simp [htaken], hpersists⟩

/-- An update that comes in while nobody flushes is in memory. -/
theorem Contents.join {e : CanvasDoc D} {u : D} (h : Contents N w) (he : w.entry = some e)
    (hquiet : ∀ j, (N j).taken = none) :
    Contents N { w with entry := some ⟨e.doc ⊔ u, true⟩, accepted := w.accepted ++ [u] } := by
  constructor
  · rintro e' ⟨⟩ v hv
    rcases mem_append.mp hv with hv | hv
    · exact le_sup_of_le_left (h.inMemory e he v hv)
    · obtain rfl := List.mem_singleton.mp hv
      exact le_sup_right
  · rintro e' ⟨⟩ hclean
    cases hclean
  · simp
  · intro j state hj
    simp [hquiet j] at hj
  · intro j hj
    have htaken := (h.written j hj).1
    simp [hquiet j] at htaken

end Contents

theorem Contents.step (h : Contents N w) (hok : Ok (N i) o) (hcond : undisturbed i () N o w)
    (hact : act S i o w = (r, w')) : Contents (Function.update N i (note (N i) o r)) w' := by
  cases o with
  | readCrdtState | listObjects =>
    cases hact
    exact h.keep rfl rfl
  | zadd temp | zrem temp =>
    cases hact
    refine keep ?_ (by cases temp <;> rfl) (by cases temp <;> rfl)
    exact h.congr rfl rfl rfl
  | zcard =>
    cases hact
    simp only [note]
    split <;> exact h.keep rfl rfl
  | load crdtState legacyObjects =>
    cases hact
    have hloaded := h.load hcond legacyObjects
    refine hloaded.update (fun state hstate => ?_) fun hwritten => ?_
    · split at hstate
      · cases hstate
        exact hloaded.inMemory _ rfl
      · cases hstate
    · simp [note, hok.2.2] at hwritten
  | snapshot closing =>
    cases hdue : dueState w with
    | some state =>
      simp only [act, hdue, Prod.mk.injEq] at hact
      obtain ⟨rfl, rfl⟩ := hact
      exact h.snapshot hdue rfl hok.2.2
    | none =>
      simp only [act, hdue, Prod.mk.injEq] at hact
      obtain ⟨rfl, rfl⟩ := hact
      have hpersists := h.persists_of_dueState_eq_none hdue
      refine keep ?_ (by cases closing <;> rfl) (by cases closing <;> rfl)
      cases closing with
      | false => exact h
      | true => exact h.of_persists rfl (by simp) hpersists
  | updateCrdtState =>
    cases hact
    exact h.write hok.2
  | markFlushed closing =>
    cases hact
    have hpersists := (h.written i hok.2.2).2
    refine update ?_ (by simp [note]) (by simp [note])
    refine h.of_persists rfl ?_ hpersists
    cases closing with
    | true => simp
    | false =>
      intro e' he'
      obtain ⟨e, he, rfl⟩ := Option.map_eq_some_iff.mp he'
      exact ⟨e, he, rfl⟩
  | applyUpdate u =>
    obtain rfl := congrArg Prod.snd hact
    obtain hsame | ⟨e, u', he, hjoined⟩ := applyUpdate_cases S u w
    · simp only [act, hsame]
      exact h.keep rfl rfl
    · simp only [act, hjoined]
      exact keep (h.join he (hcond (by simp [he]))) rfl rfl

end Steps

/-! ## Runs -/

/-- What holds of the canvas in every state. -/
structure Kept (N : ℕ → Notes D) (w : World D) : Prop where
  registry : Registry N w
  contents : Contents N w

omit [OrderBot D] in
theorem kept_resting (hN : ∀ i, N i = {}) (crdtState : Option D) :
    Kept N (World.resting crdtState) where
  registry := ⟨nofun, nofun⟩
  contents := by
    refine ⟨nofun, nofun, nofun, fun i state hi => ?_, fun i hi => ?_⟩
    · simp [hN i] at hi
    · simp [hN i] at hi

omit [OrderBot D] in
theorem Kept.prune (h : Kept N w) (gone : Finset Member) :
    Kept N { w with editors := w.editors \ gone } where
  registry := ⟨fun i hi => h.registry.editing i (mem_sdiff.mp hi).1, h.registry.held⟩
  contents := h.contents.congr rfl rfl rfl

omit [OrderBot D] in
/-- While nobody is open, the document is gone and the row has everything. -/
theorem Kept.persists (h : Kept N w)
    (hclosed : ∀ i, (N i).isOpen = false) : ∀ u ∈ w.accepted, w.persists u := by
  cases hentry : w.entry with
  | none => exact h.contents.gone hentry
  | some =>
    obtain ⟨i, hi⟩ := h.registry.held (by rw [hentry]; rfl)
    simp [hclosed i] at hi

/-- **No accepted update is lost**: when every editor that was let in has closed, the row has
every update that has been accepted, if all steps are `undisturbed`. -/
theorem updates_persisted (S : Settings D) (crdtState : Option D) (vs : List (Visit D))
    (ms : List (Move Unit Prune)) (p : Visits D)
    (hall : AllSteps (machine S) (atRecords {} undisturbed fun _ _ _ => True) ms
      (start crdtState vs))
    (hrun : run (machine S) ms (start crdtState vs) = some p)
    (hclosed : ∀ t ∈ p.tasks, t.loc.isOpen = false) :
    ∀ u ∈ p.world.accepted, p.world.persists u := by
  have hinv := records_invariant (R := Kept) ?_ ?_ hall
    (obeyed_start crdtState vs) (kept_resting (locOf_launch _ _ _) crdtState) hrun
  · refine hinv.2.persists fun i => ?_
    cases ht : p.tasks[i]? with
    | none =>
      rw [Pool.locOf_of_length_le (getElem?_eq_none_iff.mp ht)]
      rfl
    | some t =>
      rw [Pool.locOf_of_getElem? ht]
      exact hclosed t (mem_of_getElem? ht)
  · intro N w i o input r w' hok hcond hR hact
    have hact' := Option.some.inj hact
    exact ⟨hR.registry.step hok hcond hact', hR.contents.step hok hcond hact'⟩
  · intro N w e w' new _ hR henv
    cases henv
    exact ⟨rfl, hR.prune e.gone⟩

/-! ## Two schedules -/

/-- A test for `undisturbed`, with the number of connections. -/
def undisturbedB [DecidableEq D] (i : ℕ) (_input : Unit) (n : ℕ) (N : ℕ → Notes D) (o : Op D)
    (w : World D) : Bool :=
  match o with
  | .applyUpdate _ => !w.entry.isSome || (List.range n).all fun j => (N j).taken.isNone
  | .load crdtState _ => w.entry.isSome || decide (crdtState = w.crdtState)
  | .zcard =>
    decide ((N i).phase ≠ .leaving) || decide (w.editors = ∅) ||
      (List.range n).any fun k => decide (.conn k ∈ w.editors)
  | _ => true

omit [SemilatticeSup D] [OrderBot D] in
theorem undisturbed_of_undisturbedB [DecidableEq D] (i : ℕ) (input : Unit) (n : ℕ)
    (N : ℕ → Notes D) (o : Op D) (w : World D) (hN : ∀ j, n ≤ j → N j = {})
    (h : undisturbedB i input n N o w = true) : undisturbed i input N o w := by
  cases o with
  | applyUpdate =>
    intro hentry j
    by_cases hj : j < n
    · simp only [undisturbedB, hentry, Bool.not_true, Bool.false_or, all_eq_true,
        List.mem_range, Option.isNone_iff_eq_none] at h
      exact h j hj
    · rw [hN j (Nat.not_lt.mp hj)]
  | load =>
    intro hnone
    simpa [undisturbedB, hnone] using h
  | zcard =>
    intro hleaving j hj
    have hne : w.editors ≠ ∅ := ne_empty_of_mem hj
    simp only [undisturbedB, hleaving, hne, ne_eq, not_true_eq_false, decide_false,
      Bool.false_or, any_eq_true, decide_eq_true_eq] at h
    obtain ⟨k, -, hk⟩ := h
    exact ⟨k, hk⟩
  | _ => trivial

/-- Documents that are sets of changes, of any size. -/
def unlimited : Settings (Finset ℕ) := ⟨none, fun _ => false⟩

/-- Two editors of an empty canvas; for the first of them a flush falls due. -/
def twoEditors : Visits (Finset ℕ) :=
  start none
    [⟨true, [⟨false, some (.delta {1})⟩, ⟨true, none⟩]⟩, ⟨true, [⟨false, some (.delta {2})⟩]⟩]

def turns (i n : ℕ) : List (Move Unit Prune) := replicate n (.step i ())

/-- The second editor's update comes in after the first one's flush. -/
def inTurn : List (Move Unit Prune) :=
  turns 0 9 ++ turns 1 9 ++ turns 0 6 ++ turns 1 2 ++ turns 0 2 ++ turns 1 5

theorem updates_in_turn_persisted :
    (run (machine unlimited) inTurn twoEditors).any
        (fun p => p.world.accepted == [{1}, {2}] && p.tasks.all fun t => !t.loc.isOpen) = true ∧
      ∀ p, run (machine unlimited) inTurn twoEditors = some p →
        (∀ t ∈ p.tasks, t.loc.isOpen = false) → ∀ u ∈ p.world.accepted, p.world.persists u := by
  have hcheck : checkSteps (machine unlimited) (checkRecords {} undisturbedB) inTurn
      twoEditors = true := by
    decide +kernel
  have hall := allSteps_of_checkSteps
    (atRecords_of_checkRecords undisturbed_of_undisturbedB) _ _ hcheck
  refine ⟨by decide +kernel, fun p hp hclosed => ?_⟩
  exact updates_persisted unlimited none _ _ p hall hp hclosed

/-- The second editor's update comes in while the first one's snapshot is being written. -/
def duringFlush : List (Move Unit Prune) :=
  turns 0 9 ++ turns 1 9 ++ turns 0 4 ++ turns 1 2 ++ turns 0 2 ++ turns 1 2 ++ turns 0 3

/-- **A lost update.**  The flush marks the document as flushed with the second editor's
update in it, and the last close finds nothing to write. -/
theorem update_during_flush_lost :
    ∃ p, run (machine unlimited) duringFlush twoEditors = some p ∧
      (∀ t ∈ p.tasks, t.loc.isOpen = false) ∧ p.world.crdtState = some {1} ∧
      {2} ∈ p.world.accepted ∧ ¬ p.world.persists {2} := by
  obtain ⟨p, hp, hclosed, hstate, haccepted⟩ :
      ∃ p ∈ run (machine unlimited) duringFlush twoEditors,
        (∀ t ∈ p.tasks, t.loc.isOpen = false) ∧ p.world.crdtState = some {1} ∧
        {2} ∈ p.world.accepted := by
    decide +kernel
  refine ⟨p, hp, hclosed, hstate, haccepted, ?_⟩
  rintro ⟨state, hstate', hle⟩
  rw [hstate] at hstate'
  cases hstate'
  exact absurd hle (by decide)

end Smap.Canvas
