import Smap.Workflow.Link
import Smap.Workflow.RunEngine

/-!
# Jobs, and the system of one run

The worker tasks of `app/workers/tasks/` that drive a run, and the machine they run on.
Each job is a continuation with a transaction of its own: it calls the engine, commits
once, and sends the jobs the engine collected.  A resume job takes its claim with
`GETDEL` before it looks at the run, and puts it back when the run was not waiting.

A queued job may be taken at any time, and may stay queued after it was taken: the queue
delivers at least once, and delays are not bounded.  Producers of events (messages,
other agents, the re-check behind `workflow_variable_signal`) may enqueue a resume for
any node at any time, whether something waits there or not.
-/

namespace Smap.Workflow

open Program RowVersions List Local

/-- `CLAIM_RESUME_MAX_ATTEMPTS`. -/
def resumeRetryMaxAttempts : ℕ := 210

/-- `_run_is_terminal`: the run is gone or terminal. -/
def runIsTerminal : Engine Bool := do
  let run : Option RunRow ← perform (.run .get)
  return !runActive run

/-- `_restore_claim`, and the bounded retry of the job. -/
def restoreAndRetry (key : ClaimKey) (claim : Claim) (attempt : ℕ) (again : Job) :
    Engine Unit := do
  perform (.redis (.restoreClaim key claim))
  if attempt < resumeRetryMaxAttempts then perform (.queue (.enqueueJob again)) else return ()

section Jobs

variable (env : Services)

/-- Commit, then send the collected jobs. -/
def commitAndDispatch : Engine Unit := do
  perform .commit
  dispatchEnqueues

/-- A resume that did not happen: persist its side effects, then give the claim back
unless the run is over. -/
def giveBack (key : ClaimKey) (claim : Claim) (attempt : ℕ) (again : Job) : Engine Unit := do
  perform .commit
  let terminal ← runIsTerminal
  if terminal then return () else restoreAndRetry key claim attempt again

/-- Resume with the claim in hand. -/
def resumeClaimed (key : ClaimKey) (claim : Claim) (nodeId port reason : String)
    (attempt : ℕ) (again : Job) : Engine Unit := do
  let resumed ← resumeAtPort env nodeId port
  if resumed then do
    perform (.audit (.resumed nodeId reason))
    commitAndDispatch
  else giveBack key claim attempt again

/-- The audit row of a resume that happened. -/
def emitIfResumed (resumed : Bool) (nodeId reason : String) : Engine Unit :=
  if resumed then perform (.audit (.resumed nodeId reason)) else pure ()

/-- `workflow_event_timeout`.  It commits before it asks whether it resumed. -/
def workflowEventTimeout (nodeId : String) (attempt park : ℕ) : Engine Unit := do
  let claimed : Option Claim ← perform (.redis (.getdelClaim (.wait nodeId)))
  match claimed with
  | none => return ()
  | some claim => do
    let resumed ← resumeAtPort env nodeId "timeout"
    emitIfResumed resumed nodeId "timeout"
    perform .commit
    if resumed then dispatchEnqueues
    else do
      let terminal ← runIsTerminal
      if terminal then dispatchEnqueues
      else
        restoreAndRetry (.wait nodeId) claim attempt
          (.workflowEventTimeout nodeId (attempt + 1) park)

/-- `workflow_event_resume`. -/
def workflowEventResume (nodeId : String) (attempt : ℕ) : Engine Unit := do
  let claimed : Option Claim ← perform (.redis (.getdelClaim (.wait nodeId)))
  match claimed with
  | none => return ()
  | some claim =>
    resumeClaimed env (.wait nodeId) claim nodeId "default" "event" attempt
      (.workflowEventResume nodeId (attempt + 1))

/-- `_approval_port`: the leader's last vote breaks a timeout. -/
def approvalPort (state : ApprovalState) (leaderVotes : List Bool) : String :=
  match state with
  | .approved => "approved"
  | .rejected => "rejected"
  | .pending | .timeoutLeader =>
    match leaderVotes.getLast? with
    | some vote => if vote then "approved" else "rejected"
    | none => "timeout"

/-- `workflow_resume_approval`. -/
def workflowResumeApproval (id : String) (attempt : ℕ) : Engine Unit := do
  let present : Option Claim ← perform (.redis (.getClaim (.approval id)))
  if present.isNone then return ()
  else do
    let approval : Option ApprovalState ← perform (.service (.getApproval id))
    match approval with
    | none => perform (.redis (.deleteClaim (.approval id)))
    | some .pending =>
      if attempt < resumeRetryMaxAttempts then
        perform (.queue (.enqueueJob (.workflowResumeApproval id (attempt + 1))))
      else return ()
    | some state => do
      let votes : List Bool ← perform (.service (.getLeaderVotes id))
      let claimed : Option Claim ← perform (.redis (.getdelClaim (.approval id)))
      match claimed with
      | none => return ()
      | some claim =>
        resumeClaimed env (.approval id) claim claim.nodeId (approvalPort state votes)
          ("approval:" ++ approvalPort state votes) attempt
          (.workflowResumeApproval id (attempt + 1))

/-- `_store_instruct_output`: a copy of the variables with the instruction's id, written
back whole. -/
def storeInstructOutput (nodeId instructionId : String) : Engine Unit := do
  let run : Option RunRow ← perform (.run .get)
  match run with
  | none => return ()
  | some row => do
    let workflow : Option Definition ← perform (.service (.getWorkflow true))
    match workflow with
    | none => return ()
    | some d =>
      let node := d.nodes.find? fun n => n.id == nodeId
      match node.bind fun n => n.config.getName? "output_variable" with
      | none => return ()
      | some name => do
        snapshot d row
        perform (.ctx (.assign name (.str instructionId)))
        let ctx : RunContext ← perform (.ctx .get)
        let _ ← perform (.run (.updateVariables ctx.vars))
        return ()

/-- Only a completed instruction fills the node's output variable. -/
def storeOnSuccess (port nodeId instructionId : String) : Engine Unit :=
  if port = "success" then storeInstructOutput nodeId instructionId else pure ()

/-- The port an instruction settles at. -/
def instructionPort : InstructionState → Option String
  | .completed => some "success"
  | .timeout | .rejectedLoop => some "failure"
  | .issued | .delivered => none

/-- `workflow_resume_instruct`. -/
def workflowResumeInstruct (id : String) (attempt : ℕ) : Engine Unit := do
  let present : Option Claim ← perform (.redis (.getClaim (.instruct id)))
  if present.isNone then return ()
  else do
    let instruction : Option InstructionState ← perform (.service (.getInstruction id))
    match instruction with
    | none => perform (.redis (.deleteClaim (.instruct id)))
    | some state =>
      match instructionPort state with
      | none => return ()
      | some port => do
        let claimed : Option Claim ← perform (.redis (.getdelClaim (.instruct id)))
        match claimed with
        | none => return ()
        | some claim => do
          storeOnSuccess port claim.nodeId id
          resumeClaimed env (.instruct id) claim claim.nodeId port ("instruct:" ++ port)
            attempt (.workflowResumeInstruct id (attempt + 1))

/-- `workflow_instruct_timeout`: settle the instruction, then start the resume. -/
def workflowInstructTimeout (id : String) : Engine Unit := do
  let marked : Option Bool ← perform (.service (.markInstructTimeout id))
  match marked with
  | none => return ()
  | some _ => do
    perform .commit
    perform (.queue (.enqueueJob (.workflowResumeInstruct id 0)))

/-- The program of a queued job.  The re-check of `workflow_variable_signal` only
enqueues resumes, which `Outside.event` covers. -/
def jobProgram : Job → Engine Unit
  | .runWorkflowStep nodeId fromEdge => do
    runStep env nodeId fromEdge
    commitAndDispatch
  | .retryWorkflowNode nodeId => do
    retryNode env nodeId
    commitAndDispatch
  | .workflowVariableSignal _ => pure ()
  | .workflowEventTimeout nodeId attempt park => workflowEventTimeout env nodeId attempt park
  | .workflowEventResume nodeId attempt => workflowEventResume env nodeId attempt
  | .workflowResumeApproval id attempt => workflowResumeApproval env id attempt
  | .workflowResumeInstruct id attempt => workflowResumeInstruct env id attempt
  | .workflowInstructTimeout id => workflowInstructTimeout id

/-! ## The system of one run -/

/-- The moves from outside the continuations. -/
inductive Outside where
  /-- A worker takes the queued job at a place; the queue may keep it. -/
  | deliver (place : ℕ) (keep : Bool)
  /-- An event dispatcher found a wait of the node to match. -/
  | event (nodeId : String)
  | approvalResolved (id : String)
  | instructionSettled (id : String)
  | saveWorkflow (d : Definition)
  | deleteWorkflow
  | cancelRun
  | forceFail (reason : String)
  | markRunFailed

open Outside

/-- A continuation started by hand, not from the queue. -/
def byHand (program : Engine Unit) : Local × Engine Unit :=
  (blank, do program; commitAndDispatch)

def Outside.act (w : World) : Outside → Option (World × List (Local × Engine Unit))
  | .deliver place keep =>
    match w.queue[place]? with
    | none => none
    | some job =>
      some ({ w with queue := if keep then w.queue else w.queue.eraseIdx place },
        [(ofJob job, jobProgram env job)])
  | .event nodeId => some ({ w with queue := w.queue ++ [.workflowEventResume nodeId 0] }, [])
  | .approvalResolved id =>
    some ({ w with queue := w.queue ++ [.workflowResumeApproval id 0] }, [])
  | .instructionSettled id =>
    some ({ w with queue := w.queue ++ [.workflowResumeInstruct id 0] }, [])
  | .saveWorkflow d => some ({ w with workflow := d }, [])
  | .deleteWorkflow => some ({ w with workflowDeleted := true }, [])
  | .cancelRun => some (w, [byHand Workflow.cancelRun])
  | .forceFail reason => some (w, [byHand (Workflow.forceFail reason)])
  | .markRunFailed => some (w, [(blank, markRunFailedIsolated)])

/-- The continuations of one run, on their shared state. -/
def machine : Machine Op Op.Res Local World (Option RunRow) Input Outside where
  view i w := w.run.seenBy i
  record := Op.record
  act := Op.act env.runId
  env e w := e.act env w

/-- The shared state before a run of the definition. -/
def World.initial (d : Definition) : World where
  workflow := d
  workflowDeleted := false
  run := Versioned.absent
  steps := []
  claims := fun _ => none
  retries := fun _ => 0
  joinKeys := Redis.empty
  queue := []
  audit := []
  parks := 0
  resumedParks := []
  lastClaim := fun _ => none

/-- How a run is started. -/
structure Start where
  definition : Definition
  triggerType : String
  triggerPayload : JsonObject
  isDryRun : Bool

abbrev RunPool := Pool Op Op.Res Local World

abbrev RunMove := Move Input Outside

/-- The start of a run: its first continuation, with nothing done yet. -/
def initialPool (start : Start) : RunPool where
  world := World.initial start.definition
  tasks := [⟨starting, do
    startRun env start.definition start.triggerType start.triggerPayload start.isDryRun
    commitAndDispatch⟩]

/-! ## The discipline -/

variable {env}

variable {e : Outside} {w w' : World} {new : List (Local × Engine Unit)}

section Acts

variable (h : e.act env w = some (w', new))

include h

/-- Moves from outside work on the stored definition and the queue. -/
theorem Outside.act_frame : ∃ d deleted queue,
      w' = { w with workflow := d, workflowDeleted := deleted, queue := queue } := by
  cases e with
  | deliver =>
    simp only [act] at h
    split at h
    · cases h
    · cases h
      exact ⟨_, _, _, rfl⟩
  | _ =>
    cases h
    exact ⟨_, _, _, rfl⟩

/-- No move from outside touches the run row or the steps. -/
theorem Outside.act_rows : w'.run = w.run ∧ w'.steps = w.steps := by
  obtain ⟨d, deleted, queue, rfl⟩ := act_frame h
  exact ⟨rfl, rfl⟩

/-- A queued job stays in the queue, or starts a continuation. -/
theorem Outside.act_queue {job : Job} (hjob : job ∈ w.queue) :
    job ∈ w'.queue ∨ (ofJob job, jobProgram env job) ∈ new := by
  cases e with
  | deliver place =>
    simp only [act] at h
    split at h
    · cases h
    rename_i taken htaken
    cases h
    obtain ⟨j, hj⟩ := getElem?_of_mem hjob
    by_cases hplace : j = place
    · subst hplace
      obtain rfl : job = taken := Option.some.inj (hj.symm.trans htaken)
      exact .inr mem_cons_self
    · refine .inl ?_
      split
      · exact hjob
      · exact mem_eraseIdx_iff_getElem?.mpr ⟨j, hplace, hj⟩
  | _ =>
    cases h
    exact .inl (by simp [hjob])

/-- Tasks are started by the delivery of a job or by hand, and with blank notes. -/
theorem Outside.act_starts {t : Local × Engine Unit} (ht : t ∈ new) :
    (∃ job, t = (ofJob job, jobProgram env job) ∧ job ∈ w.queue) ∨
      t = byHand Workflow.cancelRun ∨ (∃ reason, t = byHand (Workflow.forceFail reason)) ∨
      t = (blank, markRunFailedIsolated) := by
  cases e with
  | deliver =>
    simp only [act] at h
    split at h
    · cases h
    · rename_i job hjob
      cases h
      exact .inl ⟨job, mem_singleton.mp ht, mem_of_getElem? hjob⟩
  | cancelRun =>
    cases h
    exact .inr (.inl (mem_singleton.mp ht))
  | forceFail reason =>
    cases h
    exact .inr (.inr (.inl ⟨reason, mem_singleton.mp ht⟩))
  | markRunFailed =>
    cases h
    exact .inr (.inr (.inr (mem_singleton.mp ht)))
  | _ =>
    cases h
    cases ht

end Acts

variable (env)

/-- The notes of the continuations are linked to the shared state, throughout. -/
def discipline : Discipline (machine env) where
  blank := blank
  coherent l v o r := Sees l v ∧ o.Coherent l v r
  link := Link
  answers _ _ _ _ _ _ _ hlink hact := ⟨hlink.sees, Link.coherent hact⟩
  own _ _ _ _ _ _ _ hlink hact := hlink.step hact
  others _ _ _ _ _ _ _ _ _ hji hlink hact := hlink.others hji hact
  outside _ _ _ _ _ _ hlink henv := hlink.congr (act_rows henv).1 rfl rfl rfl
  starts _ _ _ _ _ hlink henv t ht := by
    have hrun := (act_rows henv).1
    obtain ⟨job, rfl, -⟩ | rfl | ⟨reason, rfl⟩ | rfl := act_starts henv ht
    all_goals exact hlink.congr hrun rfl rfl rfl

end Jobs

end Smap.Workflow
