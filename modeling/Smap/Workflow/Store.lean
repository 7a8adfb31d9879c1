import Smap.Lib.RowVersions
import Smap.Workflow.Join

/-!
# The state a run lives in

Everything the continuations of one run share: the workflow row, the run row and its
steps in the database, the resume claims, retry counters and join keys in Redis, and the
job queue.  The database is read committed (`run_engine.py` asks for it), so the run row
and the step rows are `Versioned`; Redis commands take effect at once.

Beside it, what one continuation keeps to itself: its `RunContext`, the jobs it will
enqueue after its commit, and notes about what it has done.  The notes, and the park
numbers on claims and jobs, are auxiliary: no program reads them.
-/

namespace Smap.Workflow

open RowVersions

/-- `obj[key] = value`. -/
def JsonObject.set (o : JsonObject) (key : String) (value : Json) : JsonObject :=
  if (o.get? key).isSome then o.map fun kv => if kv.1 == key then (key, value) else kv
  else o ++ [(key, value)]

/-! ## Rows -/

structure RunRow where
  state : RunState
  vars : JsonObject
  triggerType : String
  triggerPayload : JsonObject

/-- `state in (RUNNING, WAITING)`. -/
def RunState.isActive (s : RunState) : Bool := !s.isTerminal

/-- `_VALID_TRANSITIONS`, read at a target state: may a run leave `source` for it? -/
def validTransition (source target : RunState) : Bool :=
  match source, target with
  | .running, .waiting | .running, .succeeded | .running, .failed | .running, .cancelled => true
  | .waiting, .running | .waiting, .failed | .waiting, .cancelled => true
  | _, _ => false

theorem isActive_of_validTransition {source target : RunState}
    (h : validTransition source target = true) : source.isActive = true := by
  cases source <;> cases target <;> simp_all [validTransition, RunState.isActive,
    RunState.isTerminal]

structure StepRow where
  nodeId : String
  state : StepState
  /-- `ended_at is not null`. -/
  ended : Bool
  input : JsonObject
  output : JsonObject
  error : Option String

/-- The step is parked, or still inside its executor: running, not ended. -/
def StepRow.isOpen (s : StepRow) : Bool := s.state == .running && !s.ended

/-- The run row.  Its terminal versions are final. -/
abbrev RunCell := Versioned RunRow fun r => r.state.isTerminal

/-- A step row.  No step version is final: the updates by id carry no state condition. -/
abbrev StepCell := Versioned StepRow fun _ => false

/-! ## Claims and jobs -/

/-- The single-shot resume tokens: `wf:wait:*`, `wf:approval:*` and `wf:instruct:*`. -/
inductive ClaimKey where
  | wait (nodeId : String)
  | approval (id : String)
  | instruct (id : String)
  deriving DecidableEq, Repr

/-- The payload of a claim.  `park` numbers the parks of the run; the stored payload has
no such field. -/
structure Claim where
  nodeId : String
  park : ℕ
  deriving DecidableEq, Repr

/-- The queued jobs of a run.  The `park` of a timeout job says which park armed it; the
real job carries only the run and the node. -/
inductive Job where
  | runWorkflowStep (nodeId : String) (fromEdge : Option String)
  | retryWorkflowNode (nodeId : String)
  | workflowVariableSignal (nodeId : String)
  | workflowEventTimeout (nodeId : String) (attempt park : ℕ)
  | workflowEventResume (nodeId : String) (attempt : ℕ)
  | workflowResumeApproval (approvalId : String) (attempt : ℕ)
  | workflowResumeInstruct (instructionId : String) (attempt : ℕ)
  | workflowInstructTimeout (instructionId : String)
  deriving DecidableEq, Repr

/-- The job runs a node of the run: a fan-out branch or a retry. -/
def Job.runsNode : Job → Bool
  | .runWorkflowStep _ _ | .retryWorkflowNode _ => true
  | _ => false

/-- An entry of `_pending_enqueues`, with the park that armed it. -/
structure Pending where
  task : TaskName
  nodeId : String
  delayMs : ℤ
  fromEdge : Option String
  park : ℕ
  deriving DecidableEq, Repr

/-- The job `dispatch_enqueues` makes of an entry. -/
def Pending.job (p : Pending) : Job :=
  match p.task with
  | .runWorkflowStep => .runWorkflowStep p.nodeId p.fromEdge
  | .retryWorkflowNode => .retryWorkflowNode p.nodeId
  | .workflowVariableSignal => .workflowVariableSignal p.nodeId
  | .workflowEventTimeout => .workflowEventTimeout p.nodeId 0 p.park
  | .workflowEventResume => .workflowEventResume p.nodeId 0

/-! ## Shared and private state -/

/-- The audit rows of a run that matter here. -/
inductive AuditEvent where
  | runStarted
  | runFinished (state : RunState) (reason : Option String)
  | resumed (nodeId reason : String)
  deriving DecidableEq, Repr

structure World where
  workflow : Definition
  /-- `workflows.deleted_at is not null`. -/
  workflowDeleted : Bool
  run : RunCell
  /-- The steps of the run; a step's id is its place in the list. -/
  steps : List StepCell
  claims : ClaimKey → Option Claim
  retries : String → ℕ
  joinKeys : Redis.Store String
  queue : List Job
  audit : List AuditEvent
  /-- Auxiliary: how many claims have been written. -/
  parks : ℕ
  /-- Auxiliary: the parks that have been resumed. -/
  resumedParks : List ℕ
  /-- Auxiliary: the park of the claim written last under the wait key of a node. -/
  lastClaim : String → Option ℕ

/-- `RunContext`, without the ids, which are the same in every context of a run. -/
structure RunContext where
  workflowDef : Definition
  vars : JsonObject
  triggerPayload : JsonObject
  isDryRun : Bool
  nodeVisitCounts : String → ℕ
  cancelled : Bool
  arrivedVia : Option String

/-- What one continuation keeps to itself: its context, its pending jobs, and its notes. -/
structure Local where
  ctx : RunContext
  pending : List Pending
  /-- The queued job it carries out, if it came from the queue. -/
  job : Option Job
  /-- It may be executing nodes: from its start, or from winning the run, to its commit. -/
  active : Bool
  /-- The state of the run row it has written and not committed. -/
  own : Option RunState
  /-- It has read the run row. -/
  seen : Bool
  /-- Its last look at the committed run row found it gone or terminal. -/
  sawDead : Bool
  /-- It has asked for a state other than `RUNNING`. -/
  settled : Bool
  /-- The run state it saw when it asked for `RUNNING`. -/
  claimSaw : Option RunState
  /-- The run state it saw when it asked for `SUCCEEDED`. -/
  endSaw : Option RunState
  /-- The versions of the run row it has read since its start, or since its last commit. -/
  looked : List RunRow
  /-- Its context was built since its last commit. -/
  current : Bool
  /-- The variables it has assigned since it took its snapshot. -/
  assigned : List String
  /-- The nodes whose open steps it has sealed, latest first. -/
  sealed : List String
  /-- It has written to steps and not committed. -/
  wrote : Bool
  /-- The nodes it has inserted a step for, latest first. -/
  entered : List String
  /-- The nodes it has called the executor of, latest first. -/
  executed : List String
  /-- The last wait it has registered, and the number of that park. -/
  lastPark : Option (String × ℕ)
  /-- The claim it has taken and neither used nor put back. -/
  held : Option (ClaimKey × Claim)

def emptyDefinition : Definition := { entryNodeId := "", nodes := [], edges := [] }

def RunContext.initial (d : Definition) (vars triggerPayload : JsonObject)
    (isDryRun : Bool) : RunContext where
  workflowDef := d
  vars := vars
  triggerPayload := triggerPayload
  isDryRun := isDryRun
  nodeVisitCounts := fun _ => 0
  cancelled := false
  arrivedVia := none

/-- A continuation that has done nothing yet. -/
def Local.blank : Local where
  ctx := .initial emptyDefinition [] [] false
  pending := []
  job := none
  active := false
  own := none
  seen := false
  sawDead := false
  settled := false
  claimSaw := none
  endSaw := none
  looked := []
  current := false
  assigned := []
  sealed := []
  wrote := false
  entered := []
  executed := []
  lastPark := none
  held := none

/-- The record of a continuation that starts a run. -/
def Local.starting : Local := { Local.blank with active := true }

/-- The record of a continuation that carries out a queued job. -/
def Local.ofJob (job : Job) : Local := { Local.blank with job := some job, active := job.runsNode }

end Smap.Workflow
