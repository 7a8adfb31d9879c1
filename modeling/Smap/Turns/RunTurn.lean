import Smap.Turns.Coalescing

/-!
# A turn, and the calls that wait for it

`run_turn` of `contexts/agents/application/runtime/turn_engine.py` with `_recheck_reply`,
`_release_recheck_claim` and `drain_queued_trigger`.  Of `_run_locked` its re-check, its commit
and the release of a claim that was not committed are kept; all that comes before its draft is
one step.  The drain carries the binding of the turn to the follow-up, which is left out, and so
are audits, events for the room and metrics.
-/

namespace Smap.Turns

open Smap.Program

/-- A part of a call. -/
abbrev Script := Prog Op Answer

def perform (o : Op) : Script (Answer o) := Prog.perform o

/-- What a re-check took from the queue. -/
structure RecheckClaim where
  parked : QueuedTrigger
  shown : List MessageId

def releaseRecheckClaim (claim : RecheckClaim) : Script Unit := do
  perform (.forgetCovered claim.shown)
  perform (.reparkQueuedTrigger claim.parked)

/-- The re-check has raised: the draft is posted, or the error goes on. -/
def giveUp (claim : RecheckClaim) (recoverable : Bool) :
    Script (Except Unit (Option RecheckClaim)) := do
  releaseRecheckClaim claim
  return if recoverable then .ok none else .error ()

/-- The messages that the re-check shows: `_record_covered` and the tool loop. -/
def showFresh (seen : List MessageId) (claim : RecheckClaim) :
    Script (Except Unit (Option RecheckClaim)) := do
  match ← perform .participantLabels with
  | .error recoverable => giveUp claim recoverable
  | .ok () =>
    perform (.recordCovered claim.shown)
    match ← perform .streamWithTools with
    | .error recoverable => giveUp claim recoverable
    | .ok outcome =>
      if outcome.synthesisFailed && outcome.readOnly then
        releaseRecheckClaim claim
        return .ok none
      -- the mark stood for a message that neither the draft nor the re-check saw
      if claim.parked.messageId.any fun m =>
          decide (m ∉ claim.shown) && decide (m ∉ seen) then
        perform (.reparkQueuedTrigger claim.parked)
      return .ok (some claim)

/-- `_recheck_reply`; an error is one that the turn's own handler has to decide. -/
def recheckReply (seen : List MessageId) : Script (Except Unit (Option RecheckClaim)) := do
  match ← perform (.popQueuedTrigger .recheck) with
  | none => return .ok none
  | some parked =>
    match ← perform .loadModelHistory with
    | .error recoverable => giveUp ⟨parked, []⟩ recoverable
    | .ok rows =>
      let fresh := rows.filter fun h => decide (h.id ∉ seen) && !h.own
      if fresh.isEmpty then
        releaseRecheckClaim ⟨parked, []⟩
        return .ok none
      showFresh seen ⟨parked, fresh.map Row.id⟩

/-- The re-check, if the draft is for one and a trigger is parked. -/
def recheck (seen : List MessageId) (recheckable : Bool) :
    Script (Except Unit (Option RecheckClaim)) := do
  if !recheckable then return .ok none
  if ← perform .queuedTriggerState then recheckReply seen else return .ok none

/-- `_run_locked`; `none` if it raises. -/
def runLocked (run : Run) : Script (Option Outcome) := do
  perform (.start run)
  match ← perform .prepare with
  | .raised => return none
  | .ended o => return some o
  | .drafted seen recheckable =>
    match ← recheck seen recheckable with
    | .error () => return some .failed
    | .ok claim =>
      if ← perform .commit then return some .completed
      match claim with
      | some claim => releaseRecheckClaim claim
      | none => pure ()
      return some .failed

/-- The trigger a coalesced follow-up runs as. -/
def followUpTrigger (parked : Trigger) (notice : Option ParkedNotice) : Trigger :=
  match notice with
  | none => parked
  | some n => if parked.explicit then parked else n.trigger

def drainQueuedTrigger : Script Unit := do
  let notice ← perform .popNotice
  match ← perform (.popQueuedTrigger .drain) with
  | none => pure ()
  | some queued =>
    let trigger := followUpTrigger queued.trigger notice
    let messageId := if trigger = queued.trigger then queued.messageId else none
    perform (.enqueue ⟨trigger, messageId, notice.map ParkedNotice.text⟩)

/-- The arguments of `run_turn`. -/
structure Call where
  trigger : Trigger
  triggerMessageId : Option MessageId := none
  platformNotice : Option Notice := none
  deriving DecidableEq

/-- The turn with the lock, its release and the drain. -/
def serve (run : Run) : Script Unit := do
  let r ← runLocked run
  perform .release
  drainQueuedTrigger
  match r with
  | some o => perform (.returns (.ran o))
  | none => pure ()

/-- The lock is another's: the notice and the trigger are parked. -/
def park (attempt : ℕ) (call : Call) : Script Unit := do
  match call.platformNotice with
  | some notice => if notice.text ≠ "" then perform (.parkNotice ⟨call.trigger, notice⟩)
  | none => pure ()
  let _ ← perform (.markTriggerQueued attempt call.trigger call.triggerMessageId)

/-- What the second try serves, once it has popped a trigger. -/
def retried (call : Call) (parked : QueuedTrigger) (notice : Option ParkedNotice) : Run :=
  let keeps := call.trigger.explicit && !parked.trigger.explicit
  let trigger := if keeps then call.trigger else parked.trigger
  let messageId := if keeps then call.triggerMessageId
    else parked.messageId.or call.triggerMessageId
  match notice with
  | none => ⟨trigger, messageId, call.platformNotice⟩
  | some n => ⟨followUpTrigger trigger (some n), messageId, some n.text⟩

/-- The second try has the lock. -/
def retry (call : Call) : Script Unit := do
  match ← perform (.popQueuedTrigger .retry) with
  | none =>
    perform .release
    drainQueuedTrigger
    perform (.returns .locked)
  | some parked =>
    let notice ← perform .popNotice
    serve (retried call parked notice)

/-- The two tries of `run_turn` at the lock. -/
def tries (call : Call) : Script Unit := do
  if ← perform .acquire then
    serve ⟨call.trigger, call.triggerMessageId, call.platformNotice⟩
  else
    park 0 call
    if ← perform .acquire then retry call
    else
      park 1 call
      perform (.returns .locked)

def runTurn (call : Call) : Script Unit := do
  match call.triggerMessageId with
  | none => tries call
  | some m =>
    if ← perform (.isCovered m) then perform (.returns .alreadyCovered) else tries call

/-- The calls on a world, none of which has begun. -/
def start (w : World) (calls : List Call) : Pool Op Answer Notes World :=
  launch {} w (calls.map runTurn)

end Smap.Turns
