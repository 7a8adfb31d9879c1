import Mathlib.Data.Finset.Basic
import Smap.Lib.Roles

/-!
# The keys of a turn

What `contexts/agents/application/runtime/turn_engine.py` keeps in Redis for one agent in one
room: the turn lock, the parked trigger with its message id, the parked notice, and the set of
messages that a re-check has shown.  Each script is one atomic step, as it is in Redis.

A step of the database, of the provider or of the turn's own preparation is an operation too;
its answer is chosen by the schedule.  Redis does not fail, keys do not expire, and no process
is killed, so `_pop_queued_trigger` never answers `UNKNOWN` and `_mark_trigger_queued` never
answers `False`.

The journal is auxiliary, and so are the notes of a call: no call reads them.
-/

namespace Smap.Turns

open Smap.Program

abbrev MessageId := ℕ

inductive Trigger where
  | everyNMessages
  | creatorMessage
  | silenceMinutes
  | onJoin
  | mention
  | release
  | classStart
  | activityDeadline
  | allSubmitted
  deriving DecidableEq

/-- `EXPLICIT_TRIGGERS`. -/
def Trigger.explicit : Trigger → Bool
  | .mention | .release => true
  | _ => false

/-- A coalesced trigger that has been popped; there is none if its state is `ABSENT`. -/
structure QueuedTrigger where
  trigger : Trigger
  messageId : Option MessageId
  deriving DecidableEq

/-- The text of a platform notice.  Which call came with it is auxiliary too: the code hands the
text on as it is, and no step reads the origin. -/
structure Notice where
  text : String
  origin : Option ℕ := none
  deriving DecidableEq

structure ParkedNotice where
  trigger : Trigger
  text : Notice
  deriving DecidableEq

/-- The arguments of an enqueued `wakeup_agent`. -/
structure FollowUp where
  trigger : Trigger
  messageId : Option MessageId
  platformNotice : Option Notice
  deriving DecidableEq

/-- How `_run_locked` has ended. -/
inductive Outcome where
  | completed
  | skipped
  | failed
  deriving DecidableEq

inductive TurnResult where
  | ran (o : Outcome)
  /-- Skipped as `already_covered`. -/
  | alreadyCovered
  /-- Skipped as `locked`. -/
  | locked
  deriving DecidableEq

inductive Event where
  /-- A notice has been parked, in the place of another or not. -/
  | parked (i : ℕ) (notice : ParkedNotice) (old : Option ParkedNotice)
  /-- The message was covered, or else the trigger has been parked. -/
  | marked (i attempt : ℕ) (messageId : Option MessageId) (covered : Bool)
  /-- `_run_locked` has started. -/
  | started (i : ℕ) (platformNotice : Option Notice)
  /-- A re-check has popped a trigger. -/
  | popped (i : ℕ)
  | recorded (i : ℕ) (shown : List MessageId)
  | forgot (i : ℕ)
  /-- The turn has committed its outcome. -/
  | committed (i : ℕ)
  | enqueued (i : ℕ) (job : FollowUp)
  | returned (i : ℕ) (r : TurnResult)
  deriving DecidableEq

structure World where
  lock : Option ℕ := none
  trigger : Option Trigger := none
  messageId : Option MessageId := none
  notice : Option ParkedNotice := none
  covered : Finset MessageId := ∅
  /-- The newest event first. -/
  journal : List Event := []

namespace World

/-- `_MARK_QUEUED_LUA`; it answers whether the message is covered. -/
def mark (w : World) (t : Trigger) (messageId : Option MessageId) : Bool × World :=
  if messageId.any fun m => decide (m ∈ w.covered) then (true, w)
  else
    let explicit := w.trigger.any Trigger.explicit
    (false, { w with
      trigger := if w.trigger.isNone || t.explicit && !explicit then some t else w.trigger
      messageId := if messageId.isSome && !(explicit && !t.explicit) then messageId
        else w.messageId })

/-- `_POP_QUEUED_LUA`. -/
def pop (w : World) : Option QueuedTrigger × World :=
  (w.trigger.map fun t => ⟨t, w.messageId⟩, { w with trigger := none, messageId := none })

/-- `_REPARK_QUEUED_LUA`. -/
def repark (w : World) (q : QueuedTrigger) : World :=
  match w.trigger with
  | none => { w with trigger := some q.trigger, messageId := q.messageId.or w.messageId }
  | some cur =>
    if q.trigger.explicit && !cur.explicit then
      { w with trigger := some q.trigger, messageId := w.messageId.or q.messageId }
    else w

def log (w : World) (e : Event) : World := { w with journal := e :: w.journal }

end World

open World

/-! ## Steps -/

/-- Who pops the trigger: a call that has the lock at its second try, a re-check, or a drain. -/
inductive PopSite where
  | retry
  | recheck
  | drain
  deriving DecidableEq

/-- What `_run_locked` is called with. -/
structure Run where
  trigger : Trigger
  triggerMessageId : Option MessageId
  platformNotice : Option Notice

/-- How far a turn has come before a re-check. -/
inductive Prepared where
  /-- It is over, with this outcome. -/
  | ended (o : Outcome)
  /-- It has raised before its own handlers. -/
  | raised
  /-- It has a draft; the messages it has seen, and whether the draft is for a re-check. -/
  | drafted (seen : List MessageId) (recheckable : Bool)

/-- A row of the reloaded history. -/
structure Row where
  id : MessageId
  /-- The agent has sent it. -/
  own : Bool

/-- What the tool loop of a re-check returns. -/
structure ToolLoopOutcome where
  synthesisFailed : Bool
  /-- The turn has called no tool but read-only ones. -/
  readOnly : Bool

inductive Op where
  | isCovered (m : MessageId)
  /-- `SET NX` on the lock. -/
  | acquire
  | release
  | parkNotice (n : ParkedNotice)
  | markTriggerQueued (attempt : ℕ) (t : Trigger) (messageId : Option MessageId)
  | popQueuedTrigger (site : PopSite)
  | popNotice
  | queuedTriggerState
  | recordCovered (shown : List MessageId)
  | forgetCovered (shown : List MessageId)
  | reparkQueuedTrigger (q : QueuedTrigger)
  | enqueue (job : FollowUp)
  /-- `_run_locked` starts. -/
  | start (run : Run)
  /-- All of `_run_locked` up to its draft. -/
  | prepare
  | loadModelHistory
  | participantLabels
  | streamWithTools
  /-- The outcome is stored and committed. -/
  | commit
  | returns (r : TurnResult)

/-- An operation that raises says whether the re-check falls back to the draft. -/
@[reducible] def Answer : Op → Type
  | .isCovered _ | .acquire | .queuedTriggerState | .commit => Bool
  | .markTriggerQueued .. => Bool
  | .popQueuedTrigger _ => Option QueuedTrigger
  | .popNotice => Option ParkedNotice
  | .prepare => Prepared
  | .loadModelHistory => Except Bool (List Row)
  | .participantLabels => Except Bool Unit
  | .streamWithTools => Except Bool ToolLoopOutcome
  | .release | .parkNotice _ | .recordCovered _ | .forgetCovered _ | .reparkQueuedTrigger _
  | .enqueue _ | .start _ | .returns _ => Unit

/-- What the schedule chooses at a step. -/
structure Input where
  prepared : Prepared := .ended .completed
  rows : Except Bool (List Row) := .ok []
  labels : Except Bool Unit := .ok ()
  streamed : Except Bool ToolLoopOutcome := .ok ⟨false, true⟩
  committed : Bool := true

/-- What is noted of a call. -/
structure Notes where
  /-- It has the lock. -/
  lock : Bool := false
  /-- It has had the lock and has not drained the trigger. -/
  drains : Bool := false
  /-- It has a trigger that it will serve, enqueue or park again. -/
  hand : Bool := false
  /-- The messages of the claim of its re-check. -/
  claim : Option (List MessageId) := none
  /-- It has re-checked or committed, and will not re-check. -/
  rechecked : Bool := false
  /-- `_run_locked` is running. -/
  running : Bool := false
  /-- It has marked. -/
  marked : Bool := false
  /-- It will try the lock again. -/
  retries : Bool := false

def note (l : Notes) : (o : Op) → Answer o → Notes
  | .acquire, got => { l with lock := got, drains := got, retries := false }
  | .release, _ => { l with lock := false, running := false }
  | .markTriggerQueued attempt .., _ =>
    { l with marked := true, retries := decide (attempt = 0) }
  | .popQueuedTrigger .retry, q => { l with hand := q.isSome }
  | .popQueuedTrigger .recheck, q =>
    { l with rechecked := true, claim := q.map fun _ => [] }
  | .popQueuedTrigger .drain, q => { l with drains := false, hand := q.isSome }
  | .recordCovered shown, _ => { l with claim := some shown }
  | .forgetCovered _, _ => { l with claim := none, hand := true }
  | .reparkQueuedTrigger _, _ => { l with hand := false }
  | .enqueue _, _ => { l with hand := false }
  | .start _, _ => { l with hand := false, running := true }
  | .commit, true => { l with claim := none, rechecked := true }
  | _, _ => l

/-- A step of call `i`. -/
def act (i : ℕ) : (o : Op) → Input → World → Answer o × World
  | .isCovered m, _, w => (decide (m ∈ w.covered), w)
  | .acquire, _, w =>
    if w.lock.isNone then (true, { w with lock := some i }) else (false, w)
  | .release, _, w => ((), { w with lock := if w.lock = some i then none else w.lock })
  | .parkNotice n, _, w => ((), { w with notice := some n }.log (.parked i n w.notice))
  | .markTriggerQueued attempt t messageId, _, w =>
    let (covered, w') := w.mark t messageId
    (covered, w'.log (.marked i attempt messageId covered))
  | .popQueuedTrigger site, _, w =>
    let (q, w') := w.pop
    (q, if q.isSome && decide (site = .recheck) then w'.log (.popped i) else w')
  | .popNotice, _, w => (w.notice, { w with notice := none })
  | .queuedTriggerState, _, w => (w.trigger.isSome, w)
  | .recordCovered shown, _, w =>
    ((), { w with covered := w.covered ∪ shown.toFinset }.log (.recorded i shown))
  | .forgetCovered shown, _, w =>
    ((), { w with covered := w.covered \ shown.toFinset }.log (.forgot i))
  | .reparkQueuedTrigger q, _, w => ((), w.repark q)
  | .enqueue job, _, w => ((), w.log (.enqueued i job))
  | .start run, _, w => ((), w.log (.started i run.platformNotice))
  | .prepare, input, w => (input.prepared, w)
  | .loadModelHistory, input, w => (input.rows, w)
  | .participantLabels, input, w => (input.labels, w)
  | .streamWithTools, input, w => (input.streamed, w)
  | .commit, input, w =>
    (input.committed, if input.committed then w.log (.committed i) else w)
  | .returns r, _, w => ((), w.log (.returned i r))

/-- The calls are there from the start, so nothing comes from outside. -/
def machine : Machine Op Answer Notes World Unit Input Empty where
  view _ _ := ()
  record l _ o r := note l o r
  act i o input _ w := some (act i o input w)
  env e := nomatch e

/-! ## What a step does -/

section Steps

variable {i : ℕ} {o : Op} {input : Input} {w : World}

/-- The notes of all calls after a step of call `i`. -/
abbrev noted (N : ℕ → Notes) (i : ℕ) (o : Op) (input : Input) (w : World) : ℕ → Notes :=
  Function.update N i (note (N i) o (act i o input w).1)

theorem noted_self {N : ℕ → Notes} :
    noted N i o input w i = note (N i) o (act i o input w).1 := Function.update_self ..

variable {N : ℕ → Notes} {j : ℕ}

theorem noted_of_ne (h : j ≠ i) : noted N i o input w j = N j := Function.update_of_ne h ..

@[elab_as_elim]
theorem noted_elim {motive : ℕ → Notes → Prop} (self : motive i (note (N i) o (act i o input w).1))
    (others : ∀ j, j ≠ i → motive j (N j)) : motive j (noted N i o input w j) :=
  update_elim (motive := motive) self others

@[elab_as_elim]
theorem noted_keeps {motive : Notes → Prop} (h : motive (N j))
    (self : motive (N i) → motive (note (N i) o (act i o input w).1)) :
    motive (noted N i o input w j) :=
  update_keeps (motive := motive) h self

/-- What a step adds to the journal. -/
def logged (i : ℕ) : Op → Input → World → List Event
  | .parkNotice n, _, w => [.parked i n w.notice]
  | .markTriggerQueued attempt t messageId, _, w =>
    [.marked i attempt messageId (w.mark t messageId).1]
  | .popQueuedTrigger .recheck, _, w => if w.trigger.isSome then [.popped i] else []
  | .recordCovered shown, _, _ => [.recorded i shown]
  | .forgetCovered _, _, _ => [.forgot i]
  | .enqueue job, _, _ => [.enqueued i job]
  | .start run, _, _ => [.started i run.platformNotice]
  | .commit, input, _ => if input.committed then [.committed i] else []
  | .returns r, _, _ => [.returned i r]
  | _, _, _ => []

@[simp] theorem mark_keeps (w : World) (t : Trigger) (m : Option MessageId) :
    (w.mark t m).2.lock = w.lock ∧ (w.mark t m).2.covered = w.covered ∧
      (w.mark t m).2.journal = w.journal ∧ (w.mark t m).2.notice = w.notice := by
  unfold mark
  split <;> simp

variable {t : Trigger} {m : Option MessageId}

/-- A mark that does not find the message covered leaves a trigger parked. -/
theorem isSome_trigger_mark (h : (w.mark t m).1 = false) : (w.mark t m).2.trigger.isSome := by
  unfold mark at h ⊢
  split at h
  · cases h
  · rename_i hcovered
    rw [if_neg hcovered]
    cases w.trigger <;> simp
    split <;> rfl

/-- A mark takes no trigger away. -/
theorem isSome_mark (h : w.trigger.isSome) : (w.mark t m).2.trigger.isSome := by
  cases hcovered : (w.mark t m).1 with
  | false => exact isSome_trigger_mark hcovered
  | true =>
    unfold mark at hcovered ⊢
    split at hcovered
    · rename_i hm
      rw [if_pos hm]
      exact h
    · cases hcovered

theorem covered_of_mark (h : (w.mark t m).1 = true) : ∃ id, m = some id ∧ id ∈ w.covered := by
  unfold mark at h
  split at h
  · rename_i hm
    simpa [Option.any_eq_true] using hm
  · cases h

@[simp] theorem repark_keeps (w : World) (q : QueuedTrigger) :
    (w.repark q).lock = w.lock ∧ (w.repark q).covered = w.covered ∧
      (w.repark q).journal = w.journal ∧ (w.repark q).notice = w.notice := by
  unfold repark
  split
  · simp
  · split <;> simp

theorem isSome_trigger_repark (w : World) (q : QueuedTrigger) : (w.repark q).trigger.isSome := by
  unfold repark
  split
  · rfl
  · rename_i cur hcur
    split
    · rfl
    · simp [hcur]

theorem journal_act : (act i o input w).2.journal = logged i o input w ++ w.journal := by
  cases o with
  | acquire =>
    simp only [act]
    split <;> rfl
  | markTriggerQueued => simp [act, logged, log]
  | popQueuedTrigger site =>
    cases site
    all_goals cases ht : w.trigger <;> simp [act, logged, pop, log, ht]
  | reparkQueuedTrigger => simp [act, logged]
  | commit =>
    simp only [act, logged]
    split <;> rfl
  | _ => rfl

theorem length_logged_le : (logged i o input w).length ≤ 1 := by
  cases o with
  | popQueuedTrigger site =>
    cases site with
    | recheck =>
      simp only [logged]
      split <;> simp
    | retry | drain => exact Nat.zero_le 1
  | commit =>
    simp only [logged]
    split <;> simp
  | _ => simp [logged]

/-- An entry of the journal was there before the step, or the step has logged it. -/
theorem split_journal_act {later earlier : List Event} {e : Event}
    (h : (act i o input w).2.journal = later ++ e :: earlier) :
    (∃ later', later = logged i o input w ++ later' ∧ w.journal = later' ++ e :: earlier) ∨
      logged i o input w = [e] ∧ later = [] ∧ earlier = w.journal := by
  rw [journal_act] at h
  rcases List.append_eq_append_iff.mp h with ⟨later', rfl, hj⟩ | ⟨gap, hlogged, hj⟩
  · exact .inl ⟨later', rfl, hj⟩
  cases gap with
  | nil => exact .inl ⟨[], by simpa using hlogged.symm, by simpa using hj.symm⟩
  | cons e' gap =>
    obtain ⟨rfl, rfl⟩ := List.cons.inj hj
    have hlength : (logged i o input w).length ≤ 1 := length_logged_le
    rw [hlogged, List.length_append, List.length_cons] at hlength
    obtain rfl : later = [] := List.eq_nil_of_length_eq_zero (by omega)
    obtain rfl : gap = [] := List.eq_nil_of_length_eq_zero (by omega)
    exact .inr ⟨hlogged, rfl, rfl⟩

@[simp] theorem lock_act_pop (site : PopSite) :
    (act i (.popQueuedTrigger site) input w).2.lock = w.lock := by
  cases site <;> cases ht : w.trigger <;> simp [act, pop, log, ht]

@[simp] theorem isSome_act_pop (site : PopSite) :
    (act i (.popQueuedTrigger site) input w).1.isSome = w.trigger.isSome := by
  simp [act, pop]

theorem lock_act (hacquire : o ≠ .acquire) (hrelease : o ≠ .release) :
    (act i o input w).2.lock = w.lock := by
  cases o with
  | acquire => exact absurd rfl hacquire
  | release => exact absurd rfl hrelease
  | popQueuedTrigger site => exact lock_act_pop site
  | markTriggerQueued => simp [act, log]
  | reparkQueuedTrigger => simp [act]
  | commit =>
    simp only [act]
    split <;> rfl
  | _ => rfl

theorem covered_act (hrecord : ∀ s, o ≠ .recordCovered s) (hforget : ∀ s, o ≠ .forgetCovered s) :
    (act i o input w).2.covered = w.covered := by
  cases o with
  | recordCovered s => exact absurd rfl (hrecord s)
  | forgetCovered s => exact absurd rfl (hforget s)
  | acquire | commit =>
    simp only [act]
    split <;> rfl
  | popQueuedTrigger site =>
    cases site <;> cases ht : w.trigger <;> simp [act, pop, log, ht]
  | markTriggerQueued => simp [act, log]
  | reparkQueuedTrigger => simp [act]
  | _ => rfl

/-- Only a pop takes a trigger away. -/
theorem isSome_trigger_act (hpop : ∀ site, o ≠ .popQueuedTrigger site) (h : w.trigger.isSome) :
    (act i o input w).2.trigger.isSome := by
  cases o with
  | popQueuedTrigger site => exact absurd rfl (hpop site)
  | markTriggerQueued => exact isSome_mark h
  | reparkQueuedTrigger q => exact isSome_trigger_repark w q
  | acquire | commit =>
    simp only [act]
    split <;> exact h
  | _ => exact h

/-- Steps that leave the claim of a re-check. -/
theorem claim_note (l : Notes) (r : Answer o) (hpop : o ≠ .popQueuedTrigger .recheck)
    (hrecord : ∀ s, o ≠ .recordCovered s) (hforget : ∀ s, o ≠ .forgetCovered s)
    (hcommit : o ≠ .commit) : (note l o r).claim = l.claim := by
  cases o with
  | popQueuedTrigger site =>
    cases site with
    | recheck => exact absurd rfl hpop
    | retry | drain => rfl
  | recordCovered s => exact absurd rfl (hrecord s)
  | forgetCovered s => exact absurd rfl (hforget s)
  | commit => exact absurd rfl hcommit
  | _ => rfl

theorem drains_note (l : Notes) (r : Answer o) (hacquire : o ≠ .acquire)
    (hdrain : o ≠ .popQueuedTrigger .drain) : (note l o r).drains = l.drains := by
  cases o with
  | acquire => exact absurd rfl hacquire
  | popQueuedTrigger site =>
    cases site with
    | drain => exact absurd rfl hdrain
    | retry | recheck => rfl
  | commit => cases r <;> rfl
  | _ => rfl

theorem retries_note (l : Notes) (r : Answer o) (hacquire : o ≠ .acquire)
    (hmark : ∀ a t m, o ≠ .markTriggerQueued a t m) : (note l o r).retries = l.retries := by
  cases o with
  | acquire => exact absurd rfl hacquire
  | markTriggerQueued a t m => exact absurd rfl (hmark a t m)
  | popQueuedTrigger site => cases site <;> rfl
  | commit => cases r <;> rfl
  | _ => rfl

theorem rechecked_note {l : Notes} (r : Answer o) (h : l.rechecked = true) :
    (note l o r).rechecked = true := by
  cases o with
  | popQueuedTrigger site => cases site <;> first | exact h | rfl
  | commit => cases r <;> first | exact h | rfl
  | _ => exact h

theorem mem_logged_forgot {t : ℕ} (h : .forgot t ∈ logged i o input w) :
    ∃ s, o = .forgetCovered s := by
  cases o with
  | forgetCovered s => exact ⟨s, rfl⟩
  | popQueuedTrigger site => cases site <;> simp [logged] at h
  | _ => simp [logged] at h

theorem mem_logged_committed {t : ℕ} (h : .committed t ∈ logged i o input w) :
    t = i ∧ o = .commit ∧ input.committed = true := by
  cases o with
  | commit =>
    simp only [logged] at h
    split at h
    · rename_i hc
      exact ⟨by simpa using h, rfl, hc⟩
    · cases h
  | popQueuedTrigger site => cases site <;> simp [logged] at h
  | _ => simp [logged] at h

end Steps

end Smap.Turns
