import Smap.Inbox.Consumer
import Smap.Lib.Holders

/-!
# At most one success for each entry

The lease keeps two handlers from running at the same time, and the marker is there before
the lease is released.  What neither does is to look for the marker again once the lease has
been won: a consumer that looked before the marker was set, and takes the lease after it was
released, runs the handler a second time.
-/

namespace Smap.Inbox

open Smap.Program Smap.Expiring Smap.Holders Function List World

/-- At most one success, and no start after it. -/
structure Settled (log : List HandlerEvent) : Prop where
  once : log.countP HandlerEvent.isCompleted ≤ 1
  noRestart : log.Pairwise fun e e' => e.isCompleted = true → e'.isStarted = false

/-- The marker has not been set when the lease is taken. -/
def takesUnmarked (_i : ℕ) (_l : Notes) (o : Op) (w : World) : Bool :=
  match o with
  | .setInflightNx => w.leased || (w.redis .processed).isNone
  | _ => true

/-- No lease expires while a consumer has it. -/
def leaseKept (e : Event) (N : ℕ → Notes) (w : World) : Prop :=
  match e with
  | .tick d => ∀ i, (N i).phase.holds = true →
      (live w.redis (w.clock + d) .inflight).isSome = true
  | .refresh _ => True

/-- The handler has not succeeded. -/
def Early (log : List HandlerEvent) : Prop := ∀ e ∈ log, e.isCompleted = false

/-- What the marker and the log are while a consumer is in a phase. -/
def Phase.Stage (w : World) : Phase → Prop
  | .leased | .running | .failed => w.redis .processed = none ∧ Early w.log
  | .handled => w.redis .processed = none
  | .marked => w.redis .processed ≠ none
  | .idle | .checked | .released => True

/-- One holder of the lease, and no success that neither the holder nor the marker shows. -/
structure Processed (N : ℕ → Notes) (w : World) : Prop where
  lease : ∀ i, (N i).phase.holds = true → w.leased = true
  sole : ∀ i j, (N i).phase.holds = true → (N j).phase.holds = true → i = j
  renews : ∀ i ∈ w.refreshing, (N i).refreshing = true
  renewing : ∀ i, (N i).refreshing = true → (N i).phase.holds = true
  stage : ∀ i, (N i).phase.Stage w
  idle : (∀ i, (N i).phase.holds = false) → w.redis .processed = none → Early w.log
  settled : Settled w.log

variable {log : List HandlerEvent} {phase : Phase}

/-- Anything may follow where there has been no success. -/
theorem Early.settled_append (h : Early log) (e : HandlerEvent) : Settled (log ++ [e]) := by
  have hnone : log.countP HandlerEvent.isCompleted = 0 := by
    rw [countP_eq_zero]
    intro e he
    simp [h e he]
  constructor
  · rw [countP_append, hnone, Nat.zero_add]
    exact countP_le_length
  rw [pairwise_append]
  refine ⟨?_, pairwise_singleton _ _, ?_⟩
  · refine pairwise_of_forall_mem_list ?_
    intro a ha b _ hcompleted
    simp [h a ha] at hcompleted
  · intro a ha b _ hcompleted
    simp [h a ha] at hcompleted

theorem Early.append (h : Early log) {e : HandlerEvent} (he : e.isCompleted = false) :
    Early (log ++ [e]) := by
  intro a ha
  rcases mem_append.mp ha with ha | ha
  · exact h a ha
  · rw [mem_singleton.mp ha]
    exact he

theorem Phase.stage_of_not_holds (h : phase.holds = false) (w : World) : phase.Stage w := by
  cases phase with
  | idle | checked | released => trivial
  | _ => cases h

theorem Phase.Stage.congr {w w' : World} (h : phase.Stage w)
    (hprocessed : w'.redis .processed = w.redis .processed) (hlog : w'.log = w.log) :
    phase.Stage w' := by
  unfold Phase.Stage
  rw [hprocessed, hlog]
  exact h

namespace Processed

variable {N : ℕ → Notes} {w w' : World} {i : ℕ} {l : Notes}

theorem initial (hN : ∀ i, N i = {}) (clock : Time) (retry : Option (Entry Value)) :
    Processed N (.initial clock retry) where
  lease i h := by simp [hN, Phase.holds] at h
  sole i _ h := by simp [hN, Phase.holds] at h
  renews := by simp [World.initial]
  renewing i h := by simp [hN] at h
  stage i := by simp [hN, Phase.Stage]
  idle _ _ := by simp [Early, World.initial]
  settled := ⟨by simp [World.initial], by simp [World.initial]⟩

/-- The invariant from its three parts: the holder, the renewals and the log. -/
theorem of_holder
    (h : OneHolder (fun l : Notes => l.phase.holds) (fun l w => w.leased = true ∧ l.phase.Stage w)
      (fun w => w.redis .processed = none → Early w.log) N w)
    (hrenews : ∀ i ∈ w.refreshing, (N i).refreshing = true)
    (hrenewing : ∀ i, (N i).refreshing = true → (N i).phase.holds = true)
    (hsettled : Settled w.log) : Processed N w where
  lease i hi := (h.stage i hi).1
  sole := h.sole
  renews := hrenews
  renewing := hrenewing
  stage i := by
    cases hi : (N i).phase.holds with
    | true => exact (h.stage i hi).2
    | false => exact Phase.stage_of_not_holds hi w
  idle := h.idle
  settled := hsettled

variable (h : Processed N w)

include h

/-- The invariant depends on the lease, the marker, the renewals and the log. -/
theorem congr (hleased : w'.leased = w.leased)
    (hprocessed : w'.redis .processed = w.redis .processed)
    (hrefreshing : w'.refreshing = w.refreshing) (hlog : w'.log = w.log) : Processed N w' where
  lease i hi := hleased ▸ h.lease i hi
  sole := h.sole
  renews i hi := h.renews i (hrefreshing ▸ hi)
  renewing := h.renewing
  stage i := (h.stage i).congr hprocessed hlog
  idle hfree hnone := hlog ▸ h.idle hfree (hprocessed ▸ hnone)
  settled := hlog ▸ h.settled

/-- A consumer that learns nothing. -/
theorem stay (hl : l = N i) : Processed (update N i l) w := by
  rw [hl, update_eq_self]
  exact h

/-- The lease has one holder, and its phase says what the marker and the log are. -/
theorem holder :
    OneHolder (fun l : Notes => l.phase.holds) (fun l w => w.leased = true ∧ l.phase.Stage w)
      (fun w => w.redis .processed = none → Early w.log) N w where
  sole := h.sole
  stage i hi := ⟨h.lease i hi, h.stage i⟩
  idle := h.idle

/-- Whose renewal task runs, after a consumer has noted something. -/
theorem renews_update
    (hrenews : ∀ j ∈ w'.refreshing, if j = i then l.refreshing = true else j ∈ w.refreshing) :
    ∀ j ∈ w'.refreshing, (update N i l j).refreshing = true := by
  refine fun j => update_elim (fun hi => ?_) fun j hij hj => h.renews j ?_
  · simpa using hrenews i hi
  · simpa [hij] using hrenews j hj

theorem renewing_update (hl : l.refreshing = true → l.phase.holds = true) :
    ∀ j, (update N i l j).refreshing = true → (update N i l j).phase.holds = true :=
  fun _ => update_elim hl fun j _ => h.renewing j

theorem keeps_renewing (hl : l.refreshing = (N i).refreshing) :
    ∀ j ∈ w.refreshing, if j = i then l.refreshing = true else j ∈ w.refreshing := by
  intro j hj
  by_cases hij : j = i
  · subst hij
    simpa [hl] using h.renews j hj
  · simpa [hij] using hj

/-- The holder goes on and keeps the lease. -/
theorem advance (hi : (N i).phase.holds = true) (hl : l.phase.holds = true)
    (hleased : w'.leased = w.leased)
    (hrenews : ∀ j ∈ w'.refreshing, if j = i then l.refreshing = true else j ∈ w.refreshing)
    (hstage : l.phase.Stage w') (hsettled : Settled w'.log) :
    Processed (update N i l) w' := by
  have hkept : w'.leased = true := hleased.trans (h.lease i hi)
  exact of_holder (h.holder.advance hi hl ⟨hkept, hstage⟩) (h.renews_update hrenews)
    (h.renewing_update fun _ => hl) hsettled

/-- A consumer without the lease goes on without it. -/
theorem wait (hi : (N i).phase.holds = false) (hl : l.phase.holds = false)
    (hrefresh : l.refreshing = (N i).refreshing) : Processed (update N i l) w := by
  refine of_holder (h.holder.wait hi hl) (h.renews_update (h.keeps_renewing hrefresh))
    (h.renewing_update fun hl' => ?_) h.settled
  have hholds := h.renewing i (hrefresh ▸ hl')
  simp [hi] at hholds

/-- The lease is free, no marker has been set, and a consumer takes it. -/
theorem take (hfree : w.leased = false) (hnone : w.redis .processed = none) (hl : l.phase = .leased)
    (hrefresh : l.refreshing = (N i).refreshing) (hleased : w'.leased = true)
    (hprocessed : w'.redis .processed = w.redis .processed)
    (hrefreshing : w'.refreshing = w.refreshing) (hlog : w'.log = w.log) :
    Processed (update N i l) w' := by
  have hnobody : ∀ j, (N j).phase.holds = false := by
    intro j
    cases hj : (N j).phase.holds with
    | false => rfl
    | true => exact absurd (h.lease j hj) (by simp [hfree])
  have hholds : l.phase.holds = true := by
    rw [hl]
    rfl
  have hstage : l.phase.Stage w' := by
    rw [hl]
    exact ⟨hprocessed ▸ hnone, hlog ▸ h.idle hnobody hnone⟩
  refine of_holder (OneHolder.take (fun j _ => hnobody j) hholds ⟨hleased, hstage⟩)
    (h.renews_update ?_) (h.renewing_update fun _ => hholds) (hlog ▸ h.settled)
  rw [hrefreshing]
  exact h.keeps_renewing hrefresh

/-- The holder gives the lease up, and has not left a success without a marker. -/
theorem release (hi : (N i).phase.holds = true)
    (hphase : (N i).phase = .leased ∨ (N i).phase = .failed ∨ (N i).phase = .marked)
    (hrefresh : (N i).refreshing = false) (hl : l.phase = .released)
    (hlrefresh : l.refreshing = false) (hprocessed : w'.redis .processed = w.redis .processed)
    (hrefreshing : w'.refreshing = w.refreshing) (hlog : w'.log = w.log) :
    Processed (update N i l) w' := by
  have hgone : l.phase.holds = false := by
    rw [hl]
    rfl
  have hearly : w'.redis .processed = none → Early w'.log := by
    intro hnone
    rw [hprocessed] at hnone
    have hstage := h.stage i
    rw [hlog]
    rcases hphase with hp | hp | hp
    · rw [hp] at hstage
      exact hstage.2
    · rw [hp] at hstage
      exact hstage.2
    · rw [hp] at hstage
      exact absurd hnone hstage
  refine of_holder (h.holder.release hi hgone hearly) (h.renews_update ?_)
    (h.renewing_update fun hl' => ?_) (hlog ▸ h.settled)
  · rw [hrefreshing]
    exact h.keeps_renewing (hlrefresh.trans hrefresh.symm)
  · simp [hlrefresh] at hl'

/-- **One step of a consumer.** -/
theorem step {o : Op} {input : Input} {r : Res o} (hok : Ok (N i) o)
    (hcond : takesUnmarked i (N i) o w = true) (hact : act i o input w = (r, w')) :
    Processed (update N i (note (N i) o r)) w' := by
  cases o with
  | existsProcessed =>
    cases hact
    by_cases hfound : (live w.redis w.clock .processed).isSome = true
    · exact h.stay (if_pos hfound)
    · rw [note, if_neg hfound]
      exact h.wait (by rw [hok.1]; rfl) rfl rfl
  | setInflightNx =>
    by_cases hleased : w.leased = true
    · simp only [act, hleased, ↓reduceIte, Prod.mk.injEq] at hact
      obtain ⟨rfl, rfl⟩ := hact
      exact h.stay rfl
    · simp only [act, hleased, Bool.false_eq_true, ↓reduceIte, Prod.mk.injEq] at hact
      obtain ⟨rfl, rfl⟩ := hact
      have hfree : w.leased = false := Bool.eq_false_iff.mpr hleased
      have hnone : w.redis .processed = none := by
        simpa [takesUnmarked, hfree] using hcond
      exact h.take hfree hnone rfl rfl (by simp [leased, live]) rfl rfl rfl
  | createRefresh =>
    cases hact
    have hi : (N i).phase.holds = true := by rw [hok]; rfl
    refine h.advance hi hi rfl ?_ (h.stage i) h.settled
    intro j hj
    by_cases hij : j = i
    · simp [hij, note]
    · simpa [hij] using hj
  | cancelRefresh =>
    cases hact
    refine h.advance hok hok rfl ?_ (h.stage i) h.settled
    intro j hj
    obtain ⟨hj, hij⟩ := mem_filter.mp hj
    simpa [of_decide_eq_true hij] using hj
  | handlerStart =>
    cases hact
    have hstage := h.stage i
    rw [hok] at hstage
    have hi : (N i).phase.holds = true := by rw [hok]; rfl
    exact h.advance hi rfl rfl (h.keeps_renewing rfl) ⟨hstage.1, hstage.2.append rfl⟩
      (hstage.2.settled_append _)
  | handlerEnd =>
    cases hact
    have hstage := h.stage i
    rw [hok] at hstage
    have hi : (N i).phase.holds = true := by rw [hok]; rfl
    by_cases hdone : input.outcome = .ok
    · rw [note, if_pos hdone]
      exact h.advance hi rfl rfl (h.keeps_renewing rfl) hstage.1 (hstage.2.settled_append _)
    rw [note, if_neg hdone]
    have hfailed : (input.outcome.event i).isCompleted = false := by
      cases houtcome : input.outcome with
      | ok => exact absurd houtcome hdone
      | _ => rfl
    exact h.advance hi rfl rfl (h.keeps_renewing rfl) ⟨hstage.1, hstage.2.append hfailed⟩
      (hstage.2.settled_append _)
  | setProcessed =>
    cases hact
    have hi : (N i).phase.holds = true := by rw [hok]; rfl
    refine h.advance hi rfl ?_ (h.keeps_renewing rfl) ?_ h.settled
    · simp [leased, live, put_of_ne]
    · simp [note, Phase.Stage]
  | deleteInflight =>
    cases hact
    refine h.release ?_ hok.1 hok.2 rfl hok.2 rfl rfl rfl
    rcases hok.1 with hp | hp | hp <;> rw [hp] <;> rfl
  | setRetry =>
    cases hact
    refine stay ?_ rfl
    exact h.congr rfl rfl rfl rfl
  | expireRetry =>
    cases hact
    refine stay ?_ rfl
    refine h.congr ?_ (expire_of_ne (by simp)) rfl rfl
    exact congrArg Option.isSome (live_congr (expire_of_ne (by simp)))
  | _ =>
    cases hact
    refine stay ?_ rfl
    exact h.congr rfl rfl rfl rfl

/-- **One move from outside**, that lets no lease expire. -/
theorem outside {e : Event} {new : List (Notes × Prog Unit)} (hkept : leaseKept e N w)
    (henv : Inbox.outside e w = some (w', new)) : new = [] ∧ Processed N w' := by
  cases e with
  | tick =>
    cases henv
    exact ⟨rfl, hkept, h.sole, h.renews, h.renewing, h.stage, h.idle, h.settled⟩
  | refresh i =>
    by_cases hi : i ∈ w.refreshing
    · simp only [Inbox.outside, hi, ↓reduceIte, Option.some.injEq, Prod.mk.injEq] at henv
      obtain ⟨rfl, rfl⟩ := henv
      refine ⟨rfl, h.congr ?_ rfl rfl rfl⟩
      rw [h.lease i (h.renewing i (h.renews i hi))]
      simp [leased, live]
    · simp [Inbox.outside, hi] at henv

end Processed

/-- **An entry is processed once.**  Whatever consumers hold it and however their steps
interleave, the handler succeeds at most once and is not started after that, if no lease
expires in its holder's hands and no lease is taken once the marker has been set. -/
theorem entry_processed_once (clock : Time) (retry : Option (Entry Value)) (calls : List Call)
    {ms : List (Move Input Event)} {p : Consumers}
    (hall : AllSteps machine (atMoves {} (fun i l o w => takesUnmarked i l o w = true) leaseKept) ms
      (start clock retry calls))
    (hrun : run machine ms (start clock retry calls) = some p) : Settled p.world.log := by
  have hinv := moves_invariant (R := Processed) ?_ ?_ hall
    (obeyed_start clock retry calls) (Processed.initial (locOf_launch _ _ _) clock retry) hrun
  · exact hinv.2.settled
  · intro N w i o input r w' hok hcond h hact
    exact h.step hok hcond (Option.some.inj hact)
  · intro N w e w' new hkept h henv
    exact h.outside hkept henv

/-! ## Two consumers -/

/-- A consumer to which the entry was delivered. -/
def fresh : Call := ⟨false, .ok ()⟩

/-- One consumer performs some steps. -/
def turns (i n : ℕ) : List (Move Input Event) := List.replicate n (.step i {})

/-- The second consumer looks for the marker when the first is done. -/
def inTurn : List (Move Input Event) := turns 0 10 ++ turns 1 3

/-- The second consumer looks for the marker before the first begins, and takes the lease
when the first is done. -/
def lookedEarly : List (Move Input Event) := turns 1 1 ++ turns 0 10 ++ turns 1 4

/-- A test for the conditions of a schedule without moves from outside. -/
def checkMoves (m : Move Input Event) (p : Consumers) : Bool :=
  match m with
  | .env _ => false
  | .step i input => checkTasks takesUnmarked (.step i input : Move Input Event) p

theorem atMoves_of_checkMoves (m : Move Input Event) (p : Consumers)
    (h : checkMoves m p = true) :
    atMoves {} (fun i l o w => takesUnmarked i l o w = true) leaseKept m p := by
  cases m with
  | env => cases h
  | step i input =>
    exact atTasks_of_checkTasks (fun _ _ _ _ hc => hc) (.step i input : Move Input Event) p h

/-- Two consumers, the second of which finds the marker. -/
theorem second_consumer_finds_marker :
    AllSteps machine (atMoves {} (fun i l o w => takesUnmarked i l o w = true) leaseKept) inTurn
        (start 0 none [fresh, fresh]) ∧
      ∃ p, run machine inTurn (start 0 none [fresh, fresh]) = some p ∧
        p.world.log = [.started 0, .completed 0] ∧ Settled p.world.log := by
  have hcheck : checkSteps machine checkMoves inTurn (start 0 none [fresh, fresh]) = true := by
    decide +kernel
  have hall := allSteps_of_checkSteps atMoves_of_checkMoves _ _ hcheck
  obtain ⟨p, hp, hlog⟩ : ∃ p ∈ run machine inTurn (start 0 none [fresh, fresh]),
      p.world.log = [.started 0, .completed 0] := by
    decide +kernel
  exact ⟨hall, p, hp, hlog, entry_processed_once 0 none [fresh, fresh] hall hp⟩

/-- Two consumers, the second of which looked for the marker too early: the handler succeeds
twice.  No time goes by, so no lease expires and the marker of the first success is there
when the handler starts again. -/
theorem entry_processed_twice :
    ∃ p, run machine lookedEarly (start 0 none [fresh, fresh]) = some p ∧
      (∀ m ∈ lookedEarly, ∃ i input, m = .step i input) ∧
      p.world.log = [.started 0, .completed 0, .started 1, .completed 1] ∧
      (live p.world.redis p.world.clock .processed).isSome = true := by
  obtain ⟨p, hp, hlog, hmarker⟩ : ∃ p ∈ run machine lookedEarly (start 0 none [fresh, fresh]),
      p.world.log = [.started 0, .completed 0, .started 1, .completed 1] ∧
        (live p.world.redis p.world.clock .processed).isSome = true := by
    decide +kernel
  refine ⟨p, hp, ?_, hlog, hmarker⟩
  intro m hm
  simp only [lookedEarly, turns, mem_append, mem_replicate] at hm
  rcases hm with (⟨-, rfl⟩ | ⟨-, rfl⟩) | ⟨-, rfl⟩
  all_goals exact ⟨_, _, rfl⟩

end Smap.Inbox
