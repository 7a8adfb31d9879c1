import Mathlib.Algebra.Order.Group.Int

/-!
# Dispatch after the commit

`RunEngine.dispatch_enqueues` (`contexts/workflow/application/run_engine.py`).  The jobs that
were collected while nodes were executed are sent one by one, and those that went out are cut
off the list whatever ends the loop.  Every call on the way may fail; an `enqueue_job` that
fails has put nothing on the queue.  A call of `dispatch_enqueues` that fails is repeated by
`_dispatch_with_local_retry`, on the same list.
-/

namespace Smap.Workflow.Dispatch

/-- An entry of `_pending_enqueues`. -/
structure PendingEnqueue where
  taskName : String
  runId : String
  nodeId : String
  delayMs : ℤ
  fromEdge : Option String
  deriving DecidableEq

/-- What `enqueue_job` is called with. -/
structure Enqueued where
  function : String
  args : List String
  deferBy : Option ℤ
  deriving DecidableEq

def PendingEnqueue.enqueued (e : PendingEnqueue) : Enqueued where
  function := e.taskName
  args := e.runId :: e.nodeId :: e.fromEdge.toList
  deferBy := if 0 < e.delayMs then some e.delayMs else none

/-- The entry a job stands for: a job that is not deferred has no delay. -/
def Enqueued.entry (j : Enqueued) : PendingEnqueue :=
  ⟨j.function, j.args.getD 0 "", j.args.getD 1 "", j.deferBy.getD 0, j.args[2]?⟩

theorem PendingEnqueue.entry_enqueued (e : PendingEnqueue) :
    e.enqueued.entry = { e with delayMs := max e.delayMs 0 } := by
  obtain ⟨task, runId, nodeId, delayMs, fromEdge⟩ := e
  by_cases hdelay : 0 < delayMs
  · cases fromEdge <;> simp [enqueued, Enqueued.entry, hdelay, hdelay.le]
  · cases fromEdge <;> simp [enqueued, Enqueued.entry, hdelay, not_lt.mp hdelay]

structure Engine where
  pending : List PendingEnqueue
  /-- The runs whose live agent calls are to be cancelled. -/
  cancellations : List String
  /-- The jobs sent from `pending`. -/
  sent : List Enqueued
  /-- The runs for which `workflow_cancel_a2a_calls` has been sent. -/
  cancelsSent : List String

/-- What fails in one call. -/
structure Faults where
  cancelLiveAgentCalls : String → Bool
  /-- No pool is handed in, so that one is opened and closed. -/
  ownsPool : Bool
  createPool : Bool
  /-- The calls of `enqueue_job`, in the order they are made. -/
  enqueueJob : ℕ → Bool
  aclose : Bool

/-- Nothing fails in the call but the cancelling of live calls, which is left to a job. -/
def Faults.Faultless (f : Faults) : Prop :=
  (∀ n, f.enqueueJob n = false) ∧ (f.ownsPool = true → f.createPool = false ∧ f.aclose = false)

/-- Send one after the other until a call fails; the next call is the `n`-th. -/
def sendLoop {α : Type} (fails : ℕ → Bool) : ℕ → List α → List α × Bool
  | _, [] => ([], false)
  | n, x :: xs =>
    if fails n then ([], true)
    else
      let (sent, raised) := sendLoop fails (n + 1) xs
      (x :: sent, raised)

/-- What a call leaves, and whether it raises. -/
def dispatchEnqueues (f : Faults) (s : Engine) : Engine × Bool :=
  if s.pending = [] ∧ s.cancellations = [] then (s, false)
  else
    let failed := s.cancellations.filter f.cancelLiveAgentCalls
    let s := { s with cancellations := [] }
    if s.pending = [] ∧ failed = [] then (s, false)
    else if f.ownsPool && f.createPool then (s, true)
    else
      let (cancels, stopped) := sendLoop f.enqueueJob 0 failed
      let (sent, raised) :=
        if stopped then ([], true) else sendLoop f.enqueueJob failed.length s.pending
      ({ s with
          pending := s.pending.drop sent.length
          sent := s.sent ++ sent.map PendingEnqueue.enqueued
          cancelsSent := s.cancelsSent ++ cancels },
        raised || (f.ownsPool && f.aclose))

theorem sendLoop_spec {α : Type} (fails : ℕ → Bool) (n : ℕ) (xs : List α) :
    xs = (sendLoop fails n xs).1 ++ xs.drop (sendLoop fails n xs).1.length ∧
      ((sendLoop fails n xs).2 = false → xs.drop (sendLoop fails n xs).1.length = []) := by
  induction xs generalizing n with
  | nil => simp [sendLoop]
  | cons x xs ih =>
    rw [sendLoop]
    split
    · simp
    · exact ⟨congrArg (x :: ·) (ih (n + 1)).1, (ih (n + 1)).2⟩

theorem sendLoop_of_ok {α : Type} {fails : ℕ → Bool} (h : ∀ n, fails n = false) (n : ℕ)
    (xs : List α) : (sendLoop fails n xs).2 = false := by
  induction xs generalizing n with
  | nil => rfl
  | cons x xs ih => simpa [sendLoop, h] using ih (n + 1)

/-- What raises is a fault. -/
theorem not_raised_of_faultless {f : Faults} (h : f.Faultless) (s : Engine) :
    (dispatchEnqueues f s).2 = false := by
  have hpool : (f.ownsPool && f.createPool) = false ∧ (f.ownsPool && f.aclose) = false := by
    cases hp : f.ownsPool with
    | false => exact ⟨rfl, rfl⟩
    | true => exact h.2 hp
  unfold dispatchEnqueues
  split
  · rfl
  dsimp only
  split
  · rfl
  simp [hpool, sendLoop_of_ok h.1]

/-- A call sends entries off the front of the list, and all of them unless it raises. -/
theorem dispatchEnqueues_spec (f : Faults) (s : Engine) :
    ∃ done, s.pending = done ++ (dispatchEnqueues f s).1.pending ∧
      (dispatchEnqueues f s).1.sent = s.sent ++ done.map PendingEnqueue.enqueued ∧
      ((dispatchEnqueues f s).2 = false → (dispatchEnqueues f s).1.pending = []) := by
  unfold dispatchEnqueues
  split
  · rename_i hidle
    exact ⟨[], rfl, by simp, fun _ => hidle.1⟩
  dsimp only
  split
  · rename_i hempty
    exact ⟨[], rfl, by simp, fun _ => hempty.1⟩
  split
  · exact ⟨[], rfl, by simp, by simp⟩
  split
  · -- a cancellation could not be sent, so that the loop over the entries is not reached
    exact ⟨[], rfl, by simp, by simp⟩
  obtain ⟨hpending, hrest⟩ := sendLoop_spec f.enqueueJob
    (s.cancellations.filter f.cancelLiveAgentCalls).length s.pending
  refine ⟨_, hpending, rfl, fun hraised => ?_⟩
  exact hrest (Bool.or_eq_false_iff.mp hraised).1

/-- A sequence of calls, each with its own faults. -/
def runCalls (fs : List Faults) (s : Engine) : Engine :=
  fs.foldl (fun s f => (dispatchEnqueues f s).1) s

theorem runCalls_spec (fs : List Faults) (s : Engine) :
    ∃ done, s.pending = done ++ (runCalls fs s).pending ∧
      (runCalls fs s).sent = s.sent ++ done.map PendingEnqueue.enqueued := by
  induction fs generalizing s with
  | nil => exact ⟨[], rfl, by simp [runCalls]⟩
  | cons f fs ih =>
    obtain ⟨first, hpending, hsent, -⟩ := dispatchEnqueues_spec f s
    obtain ⟨later, hpending', hsent'⟩ := ih (dispatchEnqueues f s).1
    refine ⟨first ++ later, ?_, ?_⟩
    · rw [hpending, hpending', List.append_assoc]
      rfl
    · rw [List.map_append, ← List.append_assoc, ← hsent]
      exact hsent'

/-- **Dispatch neither loses nor repeats an entry.**  After any calls the jobs sent are the
entries off the front of the list, each with its delay and its edge, and the others are still in
it; after a call that does not raise there are no others, and a call without a fault does not. -/
theorem dispatch_keeps_entries (initial : List PendingEnqueue) (cancellations : List String)
    (fs : List Faults) :
    let s := runCalls fs ⟨initial, cancellations, [], []⟩
    (∃ done, initial = done ++ s.pending ∧
      s.sent.map Enqueued.entry = done.map fun e => { e with delayMs := max e.delayMs 0 }) ∧
    (∀ f, (dispatchEnqueues f s).2 = false → (dispatchEnqueues f s).1.pending = []) ∧
    ∀ f : Faults, f.Faultless → (dispatchEnqueues f s).2 = false := by
  intro s
  refine ⟨?_, fun f hf => ?_, fun f hf => not_raised_of_faultless hf s⟩
  · obtain ⟨done, hpending, hsent⟩ := runCalls_spec fs ⟨initial, cancellations, [], []⟩
    refine ⟨done, hpending, ?_⟩
    rw [hsent, List.nil_append, List.map_map]
    exact List.map_congr_left fun e _ => e.entry_enqueued
  · obtain ⟨-, -, -, hempty⟩ := dispatchEnqueues_spec f s
    exact hempty hf

/-- A call that fails at the second of two entries, and the call that is made again. -/
theorem dispatch_keeps_entries_retried :
    let step : PendingEnqueue := ⟨"run_workflow_step", "r", "a", 0, some "e1"⟩
    let retry : PendingEnqueue := ⟨"retry_workflow_node", "r", "b", 5000, none⟩
    let failing : Faults := ⟨fun _ => false, false, false, (· == 1), false⟩
    let quiet : Faults := ⟨fun _ => false, true, false, fun _ => false, false⟩
    let s := runCalls [failing] ⟨[step, retry], [], [], []⟩
    s.sent = [step.enqueued] ∧ s.pending = [retry] ∧
      (dispatchEnqueues quiet s).1.sent = [step.enqueued, retry.enqueued] ∧
      (dispatchEnqueues quiet s).2 = false ∧ (dispatchEnqueues quiet s).1.pending = [] := by
  intro step retry failing quiet s
  obtain ⟨-, hempty, hquiet⟩ := dispatch_keeps_entries [step, retry] [] [failing]
  have hraised := hquiet quiet ⟨fun _ => rfl, fun _ => ⟨rfl, rfl⟩⟩
  exact ⟨rfl, rfl, rfl, hraised, hempty quiet hraised⟩

end Smap.Workflow.Dispatch
