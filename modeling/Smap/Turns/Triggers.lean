import Smap.Turns.Conduct

/-!
# No trigger is lost

A call that finds the lock taken marks its trigger, tries once more and, if the lock is taken
still, leaves the trigger to the holder.  What keeps it from being lost is that a trigger which
stands for such a mark is always in one place: it is parked, and a call will drain it or try for
the lock again; or a call has it in hand, and will serve it, enqueue it or park it again; or it
is in the claim of a re-check, whose turn commits or parks it again.  At the end of all calls
none of the places is left, so it has been answered.

A message that a re-check has shown is covered while the claim stands.  If the turn fails the
claim is released, and the trigger it was shown for is parked again.  It need not be a drain that
takes it then: a call which waits for its second try may get the lock before the drain, and
serves the trigger itself (`covered_without_follow_up`).
-/

namespace Smap.Turns

open Smap.Program List World

/-- The turn of call `t` has shown the message in a re-check, and has not taken it back. -/
def InForce (t : ℕ) (m : MessageId) (es : List Event) : Prop :=
  ∃ shown, .recorded t shown ∈ es ∧ m ∈ shown ∧ .forgot t ∉ es

/-- A call has started a turn, or a drain has enqueued a follow-up. -/
def Answered (es : List Event) : Prop :=
  (∃ i notice, .started i notice ∈ es) ∨ ∃ i job, .enqueued i job ∈ es

/-- The same, or a re-check has popped the trigger and its turn has committed. -/
def Served (es : List Event) : Prop :=
  Answered es ∨ ∃ i, .popped i ∈ es ∧ .committed i ∈ es

variable {es : List Event} {es' : List Event}

theorem Answered.mono (h : Answered es) (hsub : es ⊆ es') : Answered es' := by
  rcases h with ⟨i, notice, hi⟩ | ⟨i, job, hi⟩
  · exact .inl ⟨i, notice, hsub hi⟩
  · exact .inr ⟨i, job, hsub hi⟩

theorem Served.mono (h : Served es) (hsub : es ⊆ es') : Served es' := by
  rcases h with h | ⟨i, hpopped, hcommitted⟩
  · exact .inl (h.mono hsub)
  · exact .inr ⟨i, hsub hpopped, hsub hcommitted⟩

/-! ## Who has the lock -/

/-- What the notes of call `i` say of the lock. -/
structure LockedAt (w : World) (i : ℕ) (l : Notes) : Prop where
  holder : l.lock = true ↔ w.lock = some i
  owed : l.lock = true → l.drains = true
  runs : l.running = true → l.lock = true
  claims : l.claim.isSome → l.running = true ∧ l.rechecked = true
  hands : l.hand = true → l.running = true → l.rechecked = true

variable {call : Call} {i j : ℕ} {o : Op} {input : Input} {w : World}

section Lock

variable {calls : List Call} {l : Notes}

/-- A step of another neither takes a call's lock nor gives it one. -/
theorem lock_act_of_ne (hok : Ok call l o) (hi : LockedAt w i l) (hij : j ≠ i) :
    (act i o input w).2.lock = some j ↔ w.lock = some j := by
  by_cases hacquire : o = .acquire
  · subst hacquire
    simp only [act]
    split
    · rename_i hfree
      rw [Option.isNone_iff_eq_none.mp hfree]
      simp [Ne.symm hij]
    · exact Iff.rfl
  · by_cases hrelease : o = .release
    · subst hrelease
      simp only [act, hi.holder.mp hok.1]
      simp [Ne.symm hij]
    · rw [lock_act hacquire hrelease]

theorem LockedAt.step (hok : Ok call l o) (h : LockedAt w i l) :
    LockedAt (act i o input w).2 i (note l o (act i o input w).1) := by
  obtain ⟨holder, owed, runs, claims, hands⟩ := h
  cases o with
  | acquire =>
    obtain ⟨hlock, -, hhand, hclaim⟩ := hok
    have hrunning : l.running = false := by
      by_contra hrunning
      simp [runs (by simpa using hrunning)] at hlock
    simp only [act]
    split
    · exact ⟨by simp [note], fun _ => rfl, fun hr => by simp [note, hrunning] at hr,
        fun hc => by simp [note, hclaim] at hc, fun hh => by simp [note, hhand] at hh⟩
    · refine ⟨?_, by simp [note], fun hr => by simp [note, hrunning] at hr,
        fun hc => by simp [note, hclaim] at hc, fun hh => by simp [note, hhand] at hh⟩
      simpa [note, hlock] using holder
  | release =>
    obtain ⟨hlock, -, hclaim⟩ := hok
    refine ⟨?_, by simp [note], by simp [note], fun hc => by simp [note, hclaim] at hc,
      by simp [note]⟩
    simp [act, note, holder.mp hlock]
  | markTriggerQueued =>
    exact ⟨by simpa [act, note, log] using holder, owed, runs, claims, hands⟩
  | popQueuedTrigger site =>
    cases site with
    | retry =>
      refine ⟨by simpa [note] using holder, owed, runs, claims, fun _ hrunning => ?_⟩
      cases hok.2.1.symm.trans hrunning
    | recheck =>
      exact ⟨by simpa [note] using holder, owed, runs, fun _ => ⟨hok.2.1, rfl⟩, fun _ _ => rfl⟩
    | drain =>
      refine ⟨by simpa [note] using holder, fun hlock => ?_, runs, claims,
        fun _ hrunning => ?_⟩
      · cases hok.1.symm.trans hlock
      · cases hok.1.symm.trans (runs hrunning)
  | recordCovered =>
    exact ⟨holder, owed, runs, fun _ => claims (by rw [hok]; rfl), hands⟩
  | forgetCovered =>
    obtain ⟨s, hs, -⟩ := hok
    exact ⟨holder, owed, runs, by simp [note], fun _ _ => (claims (by rw [hs]; rfl)).2⟩
  | reparkQueuedTrigger =>
    exact ⟨by simpa [act, note] using holder, owed, runs, claims, by simp [note]⟩
  | enqueue => exact ⟨holder, owed, runs, claims, by simp [note]⟩
  | start => exact ⟨holder, owed, fun _ => hok, fun hc => ⟨rfl, (claims hc).2⟩, by simp [note]⟩
  | commit =>
    cases hc : input.committed with
    | false =>
      simp only [act, note, hc, Bool.false_eq_true, ↓reduceIte]
      exact ⟨holder, owed, runs, claims, hands⟩
    | true =>
      simp only [act, note, hc, ↓reduceIte]
      exact ⟨holder, owed, runs, by simp, fun _ _ => rfl⟩
  | _ => exact ⟨holder, owed, runs, claims, hands⟩

/-- A step keeps what the notes say of the lock, for every call. -/
theorem lockedAt_update {N : ℕ → Notes} (hok : Ok call (N i) o) (h : ∀ j, LockedAt w j (N j))
    (j : ℕ) : LockedAt (act i o input w).2 j (noted N i o input w j) := by
  refine noted_elim ((h i).step hok) fun j hij => ?_
  obtain ⟨holder, owed, runs, claims, hands⟩ := h j
  exact ⟨holder.trans (lock_act_of_ne hok (h i) hij).symm, owed, runs, claims, hands⟩

end Lock

/-! ## Which messages are covered -/

variable {t : ℕ}

section InForce

variable {m : MessageId} {e : Event}

theorem InForce.cons (h : InForce t m es) (he : e ≠ .forgot t) : InForce t m (e :: es) := by
  obtain ⟨shown, hshown, hm, hforgot⟩ := h
  exact ⟨shown, mem_cons_of_mem e hshown, hm, by simp [hforgot, Ne.symm he]⟩

theorem InForce.of_cons (h : InForce t m (e :: es)) :
    InForce t m es ∨ ∃ shown, e = .recorded t shown ∧ m ∈ shown := by
  obtain ⟨shown, hshown, hm, hforgot⟩ := h
  rcases mem_cons.mp hshown with rfl | hshown
  · exact .inr ⟨shown, rfl, hm⟩
  · exact .inl ⟨shown, hshown, hm, fun hf => hforgot (mem_cons_of_mem e hf)⟩

/-- Only a record and its undoing change which claims are in force. -/
theorem inForce_logged
    (hrecord : ∀ s, o ≠ .recordCovered s) (hforget : ∀ s, o ≠ .forgetCovered s) :
    InForce t m (logged i o input w ++ es) ↔ InForce t m es := by
  have hone {e : Event} (hr : ∀ s, e ≠ .recorded t s) (hf : e ≠ .forgot t) :
      InForce t m ([e] ++ es) ↔ InForce t m es := by
    refine ⟨fun h => h.of_cons.resolve_right ?_, fun h => h.cons hf⟩
    rintro ⟨s, hs, -⟩
    exact hr s hs
  cases o with
  | recordCovered s => exact absurd rfl (hrecord s)
  | forgetCovered s => exact absurd rfl (hforget s)
  | popQueuedTrigger site =>
    cases site with
    | recheck =>
      simp only [logged]
      split
      · exact hone (by simp) (by simp)
      · exact Iff.rfl
    | retry | drain => exact Iff.rfl
  | commit =>
    simp only [logged]
    split
    · exact hone (by simp) (by simp)
    · exact Iff.rfl
  | parkNotice | markTriggerQueued | enqueue | start | returns => exact hone (by simp) (by simp)
  | _ => exact Iff.rfl

end InForce

/-- A covered message is in force, and a claim in force is committed or still open. -/
structure Covering (w₀ : World) (N : ℕ → Notes) (w : World) : Prop where
  covered : ∀ m ∈ w.covered, m ∈ w₀.covered ∨ ∃ t, InForce t m w.journal
  inForce : ∀ t m, InForce t m w.journal →
    .committed t ∈ w.journal ∨ ∃ s, (N t).claim = some s ∧ m ∈ s
  -- a turn re-checks once, so its claim is not taken up again
  closed : ∀ t, .forgot t ∈ w.journal ∨ .committed t ∈ w.journal →
    (N t).rechecked = true ∧ (N t).claim = none

variable {w₀ : World} {N : ℕ → Notes}

section Covering

variable {shown : List MessageId}

variable (h : Covering w₀ N w)

include h

theorem Covering.record (hok : Ok call (N i) (.recordCovered shown)) :
    Covering w₀ (noted N i (.recordCovered shown) input w)
      (act i (.recordCovered shown) input w).2 := by
  have hopen : .forgot i ∉ w.journal ∧ .committed i ∉ w.journal := by
    refine ⟨fun hf => ?_, fun hc => ?_⟩
    · cases hok.symm.trans (h.closed i (.inl hf)).2
    · cases hok.symm.trans (h.closed i (.inr hc)).2
  refine ⟨fun m hm => ?_, fun t m hm => ?_, fun t ht => ?_⟩
  · rcases Finset.mem_union.mp hm with hm | hm
    · exact (h.covered m hm).imp_right fun ⟨t, ht⟩ => ⟨t, ht.cons nofun⟩
    · refine .inr ⟨i, shown, mem_cons_self, mem_toFinset.mp hm, ?_⟩
      simpa [act, log] using hopen.1
  · rcases hm.of_cons with hbefore | ⟨s, hs, hms⟩
    · by_cases hti : t = i
      · -- the claim was empty, so nothing was in force for it
        subst hti
        rcases h.inForce t m hbefore with hc | ⟨s, hs, hms⟩
        · exact absurd hc hopen.2
        · cases hs.symm.trans hok
          cases hms
      · rw [noted_of_ne hti]
        exact (h.inForce t m hbefore).imp_left (mem_cons_of_mem _)
    · cases hs
      exact .inr ⟨shown, by simp [note], hms⟩
  · have ht' : .forgot t ∈ w.journal ∨ .committed t ∈ w.journal := by
      simpa [act, log] using ht
    have hti : t ≠ i := by
      rintro rfl
      exact ht'.elim hopen.1 hopen.2
    rw [noted_of_ne hti]
    exact h.closed t ht'

theorem Covering.forget (hlocked : LockedAt w i (N i))
    (hok : Ok call (N i) (.forgetCovered shown)) :
    Covering w₀ (noted N i (.forgetCovered shown) input w)
      (act i (.forgetCovered shown) input w).2 := by
  obtain ⟨s, hs, hsub⟩ := hok
  refine ⟨fun m hm => ?_, fun t m hm => ?_, fun t => noted_elim (fun _ => ?_) fun t hti ht => ?_⟩
  · obtain ⟨hm, hshown⟩ := Finset.mem_sdiff.mp hm
    refine (h.covered m hm).imp_right fun ⟨t, ht⟩ => ⟨t, ht.cons ?_⟩
    intro hti
    cases hti
    rcases h.inForce i m ht with hc | ⟨s', hs', hms⟩
    · cases hs.symm.trans (h.closed i (.inr hc)).2
    · cases hs.symm.trans hs'
      exact hshown (mem_toFinset.mpr (hsub hms))
  · have hti : t ≠ i := by
      rintro rfl
      obtain ⟨-, -, -, hforgot⟩ := hm
      exact hforgot mem_cons_self
    rw [noted_of_ne hti]
    refine (h.inForce t m (hm.of_cons.resolve_right ?_)).imp_left (mem_cons_of_mem _)
    rintro ⟨_, hcons, -⟩
    cases hcons
  · exact ⟨(hlocked.claims (by rw [hs]; rfl)).2, rfl⟩
  · refine h.closed t ?_
    simpa [act, log, hti] using ht

theorem Covering.step (hlocked : LockedAt w i (N i)) (hok : Ok call (N i) o) :
    Covering w₀ (noted N i o input w) (act i o input w).2 := by
  by_cases hrecord : ∃ s, o = .recordCovered s
  · obtain ⟨shown, rfl⟩ := hrecord
    exact h.record hok
  by_cases hforget : ∃ s, o = .forgetCovered s
  · obtain ⟨shown, rfl⟩ := hforget
    exact h.forget hlocked hok
  rw [not_exists] at hrecord hforget
  -- the claims in force are the same, and so are the covered messages
  have hsame (t : ℕ) (m : MessageId) :
      InForce t m (act i o input w).2.journal ↔ InForce t m w.journal := by
    rw [journal_act, inForce_logged hrecord hforget]
  have hgrow {e : Event} (he : e ∈ w.journal) : e ∈ (act i o input w).2.journal := by
    rw [journal_act]
    exact mem_append_right _ he
  refine ⟨fun m hm => ?_, fun t m hm => ?_, fun t ht => ?_⟩
  · rw [covered_act hrecord hforget] at hm
    exact (h.covered m hm).imp_right fun ⟨t, ht⟩ => ⟨t, (hsame t m).mpr ht⟩
  · rcases h.inForce t m ((hsame t m).mp hm) with hc | ⟨s, hs, hms⟩
    · exact .inl (hgrow hc)
    by_cases hti : t = i
    · subst hti
      rw [noted_self]
      by_cases hpop : o = .popQueuedTrigger .recheck
      · subst hpop
        cases hs.symm.trans hok.2.2.2.1
      by_cases hcommit : o = .commit
      · subst hcommit
        cases hc : input.committed with
        | true => exact .inl (by simp [act, log, hc])
        | false => exact .inr ⟨s, by simpa [act, note, hc] using hs, hms⟩
      exact .inr ⟨s, by rwa [claim_note _ _ hpop hrecord hforget hcommit], hms⟩
    · rw [noted_of_ne hti]
      exact .inr ⟨s, hs, hms⟩
  · rw [journal_act, mem_append, mem_append] at ht
    by_cases hcommit : o = .commit ∧ input.committed = true ∧ t = i
    · obtain ⟨rfl, hc, rfl⟩ := hcommit
      simp [act, note, hc]
    have hbefore : .forgot t ∈ w.journal ∨ .committed t ∈ w.journal := by
      refine ht.imp (Or.resolve_left · fun hf => ?_) (Or.resolve_left · fun hc => ?_)
      · obtain ⟨s, hs⟩ := mem_logged_forgot hf
        exact hforget s hs
      · obtain ⟨hti, ho, hc⟩ := mem_logged_committed hc
        exact hcommit ⟨ho, hc, hti⟩
    by_cases hti : t = i
    · subst hti
      obtain ⟨hrechecked, hclaim⟩ := h.closed t hbefore
      rw [noted_self]
      refine ⟨rechecked_note _ hrechecked, ?_⟩
      by_cases hpop : o = .popQueuedTrigger .recheck
      · subst hpop
        cases hrechecked.symm.trans hok.2.2.2.2
      by_cases ho : o = .commit
      · subst ho
        cases hc : input.committed <;> simp [act, note, hc, hclaim]
      rwa [claim_note _ _ hpop hrecord hforget ho]
    · rw [noted_of_ne hti]
      exact h.closed t hbefore

end Covering

/-! ## Where the trigger of a mark is -/

variable {later : List Event}

section Places

/-- The trigger of a mark is in a hand, in the claim of a re-check, or parked for a call that
will drain it or try for the lock. -/
def Promised (N : ℕ → Notes) (w : World) (later : List Event) : Prop :=
  (∃ j, (N j).hand = true) ∨ (∃ j, (N j).claim.isSome ∧ .popped j ∈ later) ∨
    w.trigger.isSome ∧ ∃ j, (N j).drains = true ∨ (N j).retries = true

theorem answered_start (run : Run) : Answered (logged i (.start run) input w ++ later) :=
  .inl ⟨i, run.platformNotice, mem_cons_self⟩

theorem answered_enqueue (job : FollowUp) : Answered (logged i (.enqueue job) input w ++ later) :=
  .inr ⟨i, job, mem_cons_self⟩

/-- A hand serves its trigger, enqueues it or parks it again. -/
theorem hand_step (input : Input) (w : World) (later : List Event) (hok : Ok call (N i) o)
    (hhand : (N j).hand = true) :
    Answered (logged i o input w ++ later) ∨ (noted N i o input w j).hand = true ∨
      j = i ∧ (N i).running = true ∧ (act i o input w).2.trigger.isSome ∧
        ∃ q, o = .reparkQueuedTrigger q := by
  by_cases hji : j = i
  swap
  · exact .inr (.inl (by rwa [noted_of_ne hji]))
  subst hji
  rw [noted_self]
  cases o with
  | acquire => cases hhand.symm.trans hok.2.2.1
  | release => cases hhand.symm.trans hok.2.1
  | popQueuedTrigger site =>
    cases site with
    | retry | recheck | drain => cases hhand.symm.trans hok.2.2.1
  | enqueue job => exact .inl (answered_enqueue job)
  | start run => exact .inl (answered_start run)
  | reparkQueuedTrigger q => exact .inr (.inr ⟨rfl, hok.2, isSome_trigger_repark w q, q, rfl⟩)
  | forgetCovered => exact .inr (.inl rfl)
  | commit =>
    refine .inr (.inl ?_)
    cases hc : input.committed <;> simpa [act, note, hc] using hhand
  | _ => exact .inr (.inl hhand)

/-- An open claim is committed, or released into the hand of its turn. -/
theorem claim_step (input : Input) (w : World) (hok : Ok call (N i) o)
    (hclaim : (N j).claim.isSome) :
    .committed j ∈ logged i o input w ∨ (noted N i o input w j).hand = true ∨
      (noted N i o input w j).claim.isSome := by
  by_cases hji : j = i
  swap
  · exact .inr (.inr (by rwa [noted_of_ne hji]))
  subst hji
  rw [noted_self]
  have hne : (N j).claim ≠ none := Option.isSome_iff_ne_none.mp hclaim
  cases o with
  | acquire => exact absurd hok.2.2.2 hne
  | release => exact absurd hok.2.2 hne
  | popQueuedTrigger site =>
    cases site with
    | retry | drain => exact absurd hok.2.2.2 hne
    | recheck => exact absurd hok.2.2.2.1 hne
  | recordCovered => exact .inr (.inr rfl)
  | forgetCovered => exact .inr (.inl rfl)
  | commit =>
    cases hc : input.committed with
    | true => exact .inl (by simp [logged, hc])
    | false => exact .inr (.inr (by simpa [act, note, hc] using hclaim))
  | _ => exact .inr (.inr hclaim)

variable (hlocked : ∀ j, LockedAt w j (N j))

include hlocked

/-- A call that will drain or try again does so still, or another that has the lock will drain. -/
theorem owed_step (hok : Ok call (N i) o) (hdrain : o ≠ .popQueuedTrigger .drain)
    (hj : (N j).drains = true ∨ (N j).retries = true) :
    ∃ k, (noted N i o input w k).drains = true ∨
      (noted N i o input w k).retries = true := by
  by_cases hji : j = i
  · subst hji
    by_cases hacquire : o = .acquire
    · subst hacquire
      cases hlock : w.lock with
      | none => exact ⟨j, .inl (by simp [act, note, hlock])⟩
      | some k =>
        have hheld : (N k).lock = true := (hlocked k).holder.mpr hlock
        have hkj : k ≠ j := by
          rintro rfl
          cases hheld.symm.trans hok.1
        exact ⟨k, .inl (by rw [noted_of_ne hkj]; exact (hlocked k).owed hheld)⟩
    refine ⟨j, ?_⟩
    rw [noted_self, drains_note _ _ hacquire hdrain]
    by_cases hmark : ∃ a t m, o = .markTriggerQueued a t m
    · obtain ⟨a, t, m, rfl⟩ := hmark
      refine .inl (hj.resolve_right fun hretries => ?_)
      cases hretries.symm.trans hok.2.1
    · push Not at hmark
      rwa [retries_note _ _ hacquire hmark]
  · exact ⟨j, by rwa [noted_of_ne hji]⟩

theorem Promised.step (hok : Ok call (N i) o) (h : Promised N w later) :
    Served (logged i o input w ++ later) ∨
      Promised (noted N i o input w) (act i o input w).2 (logged i o input w ++ later) := by
  rcases h with ⟨j, hj⟩ | ⟨j, hj, hpopped⟩ | ⟨htrigger, j, hj⟩
  · rcases hand_step input w later hok hj with h | h | ⟨rfl, hrunning, htrigger, q, rfl⟩
    · exact .inl (.inl h)
    · exact .inr (.inl ⟨j, h⟩)
    · refine .inr (.inr (.inr ⟨htrigger, j, .inl ?_⟩))
      rw [noted_self]
      exact (hlocked j).owed ((hlocked j).runs hrunning)
  · have hpopped' := mem_append_right (logged i o input w) hpopped
    rcases claim_step input w hok hj with h | h | h
    · exact .inl (.inr ⟨j, hpopped', mem_append_left _ h⟩)
    · exact .inr (.inl ⟨j, h⟩)
    · exact .inr (.inr (.inl ⟨j, h, hpopped'⟩))
  · by_cases hpop : ∃ site, o = .popQueuedTrigger site
    · obtain ⟨site, rfl⟩ := hpop
      refine .inr ?_
      cases site with
      | retry | drain => exact .inl ⟨i, by simpa [note, pop, act] using htrigger⟩
      | recheck =>
        refine .inr (.inl ⟨i, ?_, ?_⟩)
        · simpa [note, pop, act] using htrigger
        · simp [logged, htrigger]
    · rw [not_exists] at hpop
      refine .inr (.inr (.inr ⟨isSome_trigger_act hpop htrigger, ?_⟩))
      exact owed_step hlocked hok (hpop .drain) hj

/-- While the turn of `t` is the only one, the trigger for which it has covered a message is in
its claim, in a hand, or parked for its drain. -/
structure Kept (N : ℕ → Notes) (w : World) (t : ℕ) : Prop where
  alone : ∀ j, (N j).running = true → j = t
  place : (N t).claim.isSome ∨ (∃ j, (N j).hand = true) ∨
    w.trigger.isSome ∧ (N t).drains = true ∧ (N t).rechecked = true

/-- The turn of an open claim has the lock, so no other is running. -/
theorem Kept.of_open (hopen : (N t).claim.isSome) : Kept N w t := by
  have hheld := (hlocked t).holder.mp ((hlocked t).runs ((hlocked t).claims hopen).1)
  refine ⟨fun j hj => ?_, .inl hopen⟩
  exact Option.some.inj (((hlocked j).holder.mp ((hlocked j).runs hj)).symm.trans hheld)

omit hlocked in
theorem running_note (l : Notes) (r : Answer o) (hstart : ∀ run, o ≠ .start run)
    (h : (note l o r).running = true) : l.running = true := by
  cases o with
  | start run => exact absurd rfl (hstart run)
  | release => cases h
  | popQueuedTrigger site => cases site <;> exact h
  | commit => cases r <;> exact h
  | _ => exact h

theorem Kept.step (hok : Ok call (N i) o) (h : Kept N w t) :
    .committed t ∈ logged i o input w ∨ Answered (logged i o input w ++ later) ∨
      Kept (noted N i o input w) (act i o input w).2 t := by
  by_cases hstart : ∃ run, o = .start run
  · obtain ⟨run, rfl⟩ := hstart
    exact .inr (.inl (answered_start run))
  rw [not_exists] at hstart
  have halone (j : ℕ) : (noted N i o input w j).running = true → j = t :=
    noted_elim (fun hi => h.alone i (running_note _ _ hstart hi)) fun j _ => h.alone j
  rcases h.place with hclaim | ⟨j, hj⟩ | ⟨htrigger, hdrains, hrechecked⟩
  · rcases claim_step input w hok hclaim with hc | hhand | hclaim
    · exact .inl hc
    · exact .inr (.inr ⟨halone, .inr (.inl ⟨t, hhand⟩)⟩)
    · exact .inr (.inr ⟨halone, .inl hclaim⟩)
  · rcases hand_step input w later hok hj with ha | hhand | ⟨rfl, hrunning, htrigger, q, rfl⟩
    · exact .inr (.inl ha)
    · exact .inr (.inr ⟨halone, .inr (.inl ⟨j, hhand⟩)⟩)
    · -- only the turn itself parks a trigger again
      obtain rfl := h.alone j hrunning
      refine .inr (.inr ⟨halone, .inr (.inr ⟨htrigger, ?_⟩)⟩)
      rw [noted_self]
      exact ⟨(hlocked j).owed ((hlocked j).runs hrunning), (hlocked j).hands hj hrunning⟩
  · refine .inr (.inr ⟨halone, .inr ?_⟩)
    by_cases hpop : ∃ site, o = .popQueuedTrigger site
    · obtain ⟨site, rfl⟩ := hpop
      cases site with
      | retry | drain => exact .inl ⟨i, by simpa [note, pop, act] using htrigger⟩
      | recheck =>
        obtain rfl := h.alone i hok.2.1
        cases hrechecked.symm.trans hok.2.2.2.2
    · rw [not_exists] at hpop
      refine .inr ⟨isSome_trigger_act hpop htrigger, ?_⟩
      refine noted_keeps ⟨hdrains, hrechecked⟩ fun hi => ?_
      obtain ⟨hdrains, hrechecked⟩ := hi
      have hacquire : o ≠ .acquire := by
        rintro rfl
        cases hdrains.symm.trans hok.2.1
      rw [drains_note _ _ hacquire (hpop .drain)]
      exact ⟨hdrains, rechecked_note _ hrechecked⟩

end Places

/-! ## The invariant -/

/-- A mark that is not covered is served or will be. -/
def MarkServed (N : ℕ → Notes) (w : World) : Prop :=
  ∀ later i messageId earlier,
    w.journal = later ++ .marked i 0 messageId false :: earlier →
    Served later ∨ Promised N w later

/-- A covered mark is of a message that some turn has covered, and each such turn commits or its
trigger is answered or will be. -/
def MarkCovered (w₀ : World) (N : ℕ → Notes) (w : World) : Prop :=
  ∀ later i attempt messageId earlier,
    w.journal = later ++ .marked i attempt messageId true :: earlier →
    ∃ m, messageId = some m ∧ (m ∈ w₀.covered ∨ ∃ t, InForce t m earlier) ∧
      ∀ t, InForce t m earlier → .committed t ∈ w.journal ∨ Answered later ∨ Kept N w t

/-- A call that has marked, or says that it found the lock taken, has made a first mark. -/
def FirstMark (N : ℕ → Notes) (w : World) : Prop :=
  ∀ i, (N i).marked = true ∨ .returned i .locked ∈ w.journal →
    ∃ messageId covered, .marked i 0 messageId covered ∈ w.journal

structure Wakeful (w₀ : World) (N : ℕ → Notes) (w : World) : Prop where
  locked : ∀ i, LockedAt w i (N i)
  covering : Covering w₀ N w
  marks : FirstMark N w
  served : MarkServed N w
  kept : MarkCovered w₀ N w

theorem mem_logged_marked {attempt : ℕ} {messageId : Option MessageId} {covered : Bool}
    (h : .marked j attempt messageId covered ∈ logged i o input w) :
    ∃ t, o = .markTriggerQueued attempt t messageId ∧ covered = (w.mark t messageId).1 := by
  cases o with
  | markTriggerQueued a t =>
    simp only [logged, mem_singleton, Event.marked.injEq] at h
    obtain ⟨-, rfl, rfl, rfl⟩ := h
    exact ⟨t, rfl, rfl⟩
  | popQueuedTrigger site => cases site <;> simp [logged] at h
  | _ => simp [logged] at h

theorem MarkServed.step (hlocked : ∀ j, LockedAt w j (N j)) (hok : Ok call (N i) o)
    (h : MarkServed N w) :
    MarkServed (noted N i o input w) (act i o input w).2 := by
  intro later j messageId earlier hsplit
  rcases split_journal_act hsplit with ⟨later', rfl, hbefore⟩ | ⟨hlogged, rfl, rfl⟩
  · rcases h later' j messageId earlier hbefore with hs | hp
    · exact .inl (hs.mono (subset_append_right _ _))
    · exact hp.step hlocked hok
  · -- the call has just marked, and will try for the lock again
    obtain ⟨t, rfl, hcovered⟩ := mem_logged_marked (hlogged ▸ mem_singleton_self _)
    refine .inr (.inr (.inr ⟨isSome_trigger_mark hcovered.symm, i, .inr ?_⟩))
    simp [note]

theorem MarkCovered.step (hlocked : ∀ j, LockedAt w j (N j)) (hcovering : Covering w₀ N w)
    (hok : Ok call (N i) o) (h : MarkCovered w₀ N w) :
    MarkCovered w₀ (noted N i o input w) (act i o input w).2 := by
  intro later j attempt messageId earlier hsplit
  rcases split_journal_act hsplit with ⟨later', rfl, hbefore⟩ | ⟨hlogged, rfl, rfl⟩
  · obtain ⟨m, hm, hreported, hturns⟩ := h later' j attempt messageId earlier hbefore
    refine ⟨m, hm, hreported, fun t ht => ?_⟩
    rw [journal_act, mem_append]
    rcases hturns t ht with hc | ha | hk
    · exact .inl (.inr hc)
    · exact .inr (.inl (ha.mono (subset_append_right _ _)))
    · exact (hk.step hlocked hok).imp_left .inl
  · obtain ⟨t', rfl, hcovered⟩ := mem_logged_marked (hlogged ▸ mem_singleton_self _)
    obtain ⟨m, rfl, hm⟩ := covered_of_mark hcovered.symm
    refine ⟨m, rfl, hcovering.covered m hm, fun t ht => ?_⟩
    rw [journal_act, mem_append]
    rcases hcovering.inForce t m ht with hc | ⟨s, hs, -⟩
    · exact .inl (.inr hc)
    · refine .inr (.inr (Kept.of_open (lockedAt_update hok hlocked) ?_))
      exact noted_keeps (by rw [hs]; rfl) id

theorem mem_logged_locked (h : .returned j .locked ∈ logged i o input w) :
    j = i ∧ o = .returns .locked := by
  cases o with
  | returns =>
    simp only [logged, mem_singleton, Event.returned.injEq] at h
    obtain ⟨rfl, rfl⟩ := h
    exact ⟨rfl, rfl⟩
  | popQueuedTrigger site => cases site <;> simp [logged] at h
  | _ => simp [logged] at h

theorem marked_note (l : Notes) (r : Answer o) (hmark : ∀ a t m, o ≠ .markTriggerQueued a t m) :
    (note l o r).marked = l.marked := by
  cases o with
  | markTriggerQueued a t m => exact absurd rfl (hmark a t m)
  | popQueuedTrigger site => cases site <;> rfl
  | commit => cases r <;> rfl
  | _ => rfl

theorem FirstMark.step (hok : Ok call (N i) o) (h : FirstMark N w) :
    FirstMark (noted N i o input w) (act i o input w).2 := by
  intro j hj
  rw [journal_act, mem_append] at hj
  simp only [journal_act, mem_append]
  -- a call whose notes said so before has its mark in the journal
  have hbefore (hj : (N j).marked = true ∨ .returned j .locked ∈ w.journal) :
      ∃ messageId covered, .marked j 0 messageId covered ∈ logged i o input w ∨
        .marked j 0 messageId covered ∈ w.journal := by
    obtain ⟨messageId, covered, hm⟩ := h j hj
    exact ⟨messageId, covered, .inr hm⟩
  rcases hj with hmarked | hreturned | hreturned
  · by_cases hji : j = i
    · subst hji
      rw [noted_self] at hmarked
      by_cases hmark : ∃ a t m, o = .markTriggerQueued a t m
      · obtain ⟨a, t, m, rfl⟩ := hmark
        rcases hok.2.2 with rfl | hmarked
        · exact ⟨m, _, .inl mem_cons_self⟩
        · exact hbefore (.inl hmarked)
      · push Not at hmark
        rw [marked_note _ _ hmark] at hmarked
        exact hbefore (.inl hmarked)
    · rw [noted_of_ne hji] at hmarked
      exact hbefore (.inl hmarked)
  · obtain ⟨rfl, rfl⟩ := mem_logged_locked hreturned
    exact hbefore (.inl (hok rfl))
  · exact hbefore (.inr hreturned)

theorem Wakeful.step (hok : Ok call (N i) o) (h : Wakeful w₀ N w) :
    Wakeful w₀ (noted N i o input w) (act i o input w).2 where
  locked := lockedAt_update hok h.locked
  covering := h.covering.step (h.locked i) hok
  marks := h.marks.step hok
  served := h.served.step h.locked hok
  kept := h.kept.step h.locked h.covering hok

theorem wakeful_start (hfree : w₀.lock = none) (hfresh : w₀.journal = []) :
    Wakeful w₀ (fun _ => {}) w₀ where
  locked i := ⟨by simp [hfree], nofun, nofun, nofun, nofun⟩
  covering := by
    refine ⟨fun m hm => .inl hm, fun t m ⟨shown, hshown, _⟩ => ?_, fun t ht => ?_⟩
    · simp [hfresh] at hshown
    · rw [hfresh] at ht
      rcases ht with ht | ht <;> cases ht
  marks i hi := by
    rw [hfresh] at hi
    rcases hi with hi | hi <;> cases hi
  served later i messageId earlier h := by
    rw [hfresh] at h
    cases later <;> cases h
  kept later i attempt messageId earlier h := by
    rw [hfresh] at h
    cases later <;> cases h

/-- A trigger is in some place at every moment. -/
theorem wakeful_of_run {calls : List Call} {ms : List (Move Input Empty)}
    {p : Pool Op Answer Notes World} (hfree : w₀.lock = none) (hfresh : w₀.journal = [])
    (hrun : run machine ms (start w₀ calls) = some p) :
    Obeyed machine {} (oks calls) posts p ∧ Wakeful w₀ (p.locOf {}) p.world := by
  refine invariant_of_run (C := fun _ _ _ _ _ => True) ?_ ?_ (wakeful_start hfree hfresh) hrun
  · rintro N w i o input ⟨call, -, hok⟩ - h
    exact h.step hok
  · refine (allSteps_true machine ms _).mono fun m q _ => ?_
    cases m with
    | env e => cases e
    | step => exact fun _ _ _ _ _ => trivial

/-! ## When all calls are over -/

theorem not_promised (h : ∀ i, Idle (N i)) : ¬Promised N w later := by
  rintro (⟨j, hj⟩ | ⟨j, hj, -⟩ | ⟨-, j, hj | hj⟩)
  · cases (h j).hand.symm.trans hj
  · simp [(h j).claim] at hj
  · cases (h j).drains.symm.trans hj
  · cases (h j).retries.symm.trans hj

theorem not_kept (h : ∀ i, Idle (N i)) : ¬Kept N w t := by
  rintro ⟨-, hclaim | ⟨j, hj⟩ | ⟨-, hdrains, -⟩⟩
  · simp [(h t).claim] at hclaim
  · cases (h j).hand.symm.trans hj
  · cases (h t).drains.symm.trans hdrains

/-- **No trigger is lost.**  A call that returns `locked` has marked.  After its first mark, if
that parked the trigger, a call starts a turn, a re-check pops the trigger and its turn commits,
or a drain enqueues a follow-up.  If a mark found the message covered, some turn had covered it
(or it was covered from the start), and each turn that had commits, or else a call starts a turn
or a drain enqueues a follow-up. -/
theorem no_trigger_lost {w₀ : World} {calls : List Call} {ms : List (Move Input Empty)}
    {p : Pool Op Answer Notes World} {i : ℕ} (hfree : w₀.lock = none) (hfresh : w₀.journal = [])
    (hrun : run machine ms (start w₀ calls) = some p) (hdone : p.tasks.all Task.finished = true)
    (hlocked : .returned i .locked ∈ p.world.journal) :
    (∃ messageId covered, .marked i 0 messageId covered ∈ p.world.journal) ∧
    (∀ later messageId earlier,
      p.world.journal = later ++ .marked i 0 messageId false :: earlier → Served later) ∧
    ∀ later attempt messageId earlier,
      p.world.journal = later ++ .marked i attempt messageId true :: earlier →
      ∃ m, messageId = some m ∧ (m ∈ w₀.covered ∨ ∃ t, InForce t m earlier) ∧
        ∀ t, InForce t m earlier → .committed t ∈ p.world.journal ∨ Answered later := by
  obtain ⟨hobeyed, h⟩ := wakeful_of_run hfree hfresh hrun
  have hidle := idle_of_finished hobeyed hdone
  refine ⟨h.marks i (.inr hlocked), fun later messageId earlier hsplit => ?_,
    fun later attempt messageId earlier hsplit => ?_⟩
  · exact (h.served later i messageId earlier hsplit).resolve_right (not_promised hidle)
  · obtain ⟨m, hm, hreported, hturns⟩ := h.kept later i attempt messageId earlier hsplit
    refine ⟨m, hm, hreported, fun t ht => (hturns t ht).imp_right fun hrest => ?_⟩
    exact hrest.resolve_right (not_kept hidle)

/-- A turn, and two calls for messages of the room. -/
def turnAndTwo : Pool Op Answer Notes World :=
  start {} [⟨.everyNMessages, none, none⟩, ⟨.mention, some 7, none⟩, ⟨.mention, some 8, none⟩]

/-- The turn re-checks for the first message and shows both; the second call finds its message
covered; the turn fails, and the first call has the lock before the turn drains. -/
def failedRecheck : List (Move Input Empty) :=
  replicate 2 (.step 0 {}) ++ [.step 0 { prepared := .drafted [] true }] ++
  replicate 3 (.step 1 {}) ++ [.step 2 {}] ++
  replicate 2 (.step 0 {}) ++ [.step 0 { rows := .ok [⟨7, false⟩, ⟨8, false⟩] }] ++
  replicate 2 (.step 0 {}) ++ replicate 5 (.step 2 {}) ++
  [.step 0 { streamed := .error false }] ++ replicate 3 (.step 0 {}) ++
  replicate 3 (.step 1 {}) ++ replicate 3 (.step 0 {}) ++
  [.step 1 {}, .step 1 { prepared := .ended .failed }] ++ replicate 4 (.step 1 {})

theorem no_trigger_lost_failedRecheck :
    ∃ p, run machine failedRecheck turnAndTwo = some p ∧ p.tasks.all Task.finished = true ∧
      .returned 2 .locked ∈ p.world.journal ∧
      (∃ messageId covered, .marked 2 0 messageId covered ∈ p.world.journal) ∧
      (∀ later messageId earlier,
        p.world.journal = later ++ .marked 2 0 messageId false :: earlier → Served later) ∧
      ∀ later attempt messageId earlier,
        p.world.journal = later ++ .marked 2 attempt messageId true :: earlier →
        ∃ m, messageId = some m ∧ (m ∈ (∅ : Finset MessageId) ∨ ∃ t, InForce t m earlier) ∧
          ∀ t, InForce t m earlier → .committed t ∈ p.world.journal ∨ Answered later := by
  obtain ⟨p, hrun, hdone, hlocked⟩ : ∃ p ∈ run machine failedRecheck turnAndTwo,
      p.tasks.all Task.finished = true ∧ .returned 2 .locked ∈ p.world.journal := by
    decide +kernel
  exact ⟨p, hrun, hdone, hlocked, no_trigger_lost rfl rfl hrun hdone hlocked⟩

/-- A covered message for which no turn commits and no drain enqueues a follow-up: the trigger
that the failed turn parks again is taken by a call at its second try. -/
theorem covered_without_follow_up :
    ∃ p, run machine failedRecheck turnAndTwo = some p ∧ p.tasks.all Task.finished = true ∧
      .returned 2 .locked ∈ p.world.journal ∧
      (∃ later earlier, p.world.journal = later ++ .marked 2 0 (some 8) true :: earlier ∧
        InForce 0 8 earlier) ∧
      (∀ t, .committed t ∉ p.world.journal) ∧ ∀ j job, .enqueued j job ∉ p.world.journal := by
  obtain ⟨p, hrun, hdone, hjournal⟩ : ∃ p ∈ run machine failedRecheck turnAndTwo,
      p.tasks.all Task.finished = true ∧ p.world.journal =
        [.returned 1 (.ran .failed), .started 1 none, .returned 0 (.ran .failed), .forgot 0,
          .returned 2 .locked, .marked 2 1 (some 8) true] ++
        .marked 2 0 (some 8) true :: [.recorded 0 [7, 8], .popped 0, .marked 1 0 (some 7) false,
          .started 0 none] := by
    decide +kernel
  refine ⟨p, hrun, hdone, ?_, ⟨_, _, hjournal, [7, 8], by simp, by simp, by simp⟩, ?_, ?_⟩
  · simp [hjournal]
  · simp [hjournal]
  · simp [hjournal]

end Smap.Turns
