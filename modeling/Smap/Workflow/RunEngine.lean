import Smap.Workflow.Executors

/-!
# The run engine

`contexts/workflow/application/run_engine.py`, function by function.  `_execute_node`,
`_advance_from` and `_apply_on_error` call each other; here the first takes the recursive
call as a parameter (`executeNodeBody`) and `executeNode` closes the loop on a budget.
One engine call visits each node at most `max_visits_per_node` times, so `visitBudget`
is one more than the calls that can be nested.

The engine never commits: its callers do, once, and then send the jobs it has collected.
-/

namespace Smap.Workflow

open Program

/-! ## Finishing a run -/

/-- `_finalize_run`: terminal side effects only for the winning transition. -/
def finalizeRun (state : RunState) (reason : Option String) : Engine Bool := do
  let changed : Bool ← perform (.run (.updateState state))
  if changed then do
    perform (.step .cancelPendingForRun)
    perform (.audit (.runFinished state reason))
    return true
  else return false

/-- `_fail_run`. -/
def failRun (reason : String) : Engine Unit := do
  perform (.ctx .cancel)
  let _ ← finalizeRun .failed (some reason)
  return ()

/-! ## Edges and ports -/

/-- `_normal_completion_port`: the port a node leaves from when the engine completes it
itself.  A gate that the engine completes is rejected, never approved. -/
def normalCompletionPort (node : NodeSpec) : String :=
  match node.type with
  | .condition => (node.config.getStr? "default_port").getD "default"
  | .agentInvocation | .instruct | .subagentSpawn => "success"
  | .approvalGate => "rejected"
  | .trigger | .waitForEvent | .parallel | .join | .setVariable | .end => "default"

/-- `_DRY_RUN_SAFE_TYPES`. -/
def dryRunSafe : NodeType → Bool
  | .trigger | .condition | .setVariable | .parallel | .join | .end => true
  | .agentInvocation | .approvalGate | .instruct | .subagentSpawn | .waitForEvent => false

/-- `_has_outgoing`. -/
def hasOutgoing (d : Definition) (nodeId : String) : Bool :=
  d.edges.any fun e => e.fromNode == nodeId

/-- The edges to follow: those on the port, or all of them behind a parallel node. -/
def matchingEdges (d : Definition) (nodeId port : String) : List EdgeDef :=
  if (d.nodesById nodeId).any fun n => n.type == .parallel then d.outgoing nodeId
  else (d.outgoing nodeId).filter fun e => e.port == port

/-- One `run_workflow_step` for each branch. -/
def pendBranches : List EdgeDef → Engine Unit
  | [] => pure ()
  | edge :: rest => do
    perform (.ctx (.pend .runWorkflowStep edge.toNode 0 (some edge.id)))
    pendBranches rest

/-! ## Executing a node -/

section Body

variable (env : Services) (executeNext : String → Option String → Engine Unit)

/-- `_advance_from`: whether an edge matched.  A single edge is followed at once, several
become parallel branches. -/
def advanceFrom (nodeId port : String) : Engine Bool := do
  let ctx : RunContext ← perform (.ctx .get)
  match matchingEdges ctx.workflowDef nodeId port with
  | [] => return false
  | [edge] => do
    executeNext edge.toNode (some edge.id)
    return true
  | edges => do
    pendBranches edges
    return true

/-- `_apply_on_error`, on a failed outcome. -/
def applyOnError (node : NodeSpec) (outcome : StepOutcome) : Engine StepOutcome :=
  match node.onError.strategy with
  | .fail => return outcome
  | .continue =>
    return { state := .succeeded, output := outcome.output, port := normalCompletionPort node }
  | .retry => do
    let count : ℕ ← perform (.redis (.incrRetry node.id))
    if (count : ℤ) ≤ node.onError.retryMax then do
      perform (.ctx (.pend .retryWorkflowNode node.id
        (min (node.onError.retryBackoffMs * count) 60000) none))
      return { state := .running, output := [("__retry_count", .int count)], park := true }
    else return outcome
  | .fallback =>
    match node.onError.fallbackNodeId.filter fun id => id != "" with
    | some fallbackId => do
      executeNext fallbackId none
      return { state := .succeeded
               output := [("fallback_node", .str fallbackId)]
               skipEdges := true }
    | none => return outcome

/-- Run the executor; a dry run mocks the node types with outside effects. -/
def runExecutor (isDryRun : Bool) (node : NodeSpec) : Engine StepOutcome :=
  if isDryRun && !dryRunSafe node.type then
    return { state := .succeeded
             output := [("_dry_run", .bool true), ("node_type", .str node.type.value)]
             port := normalCompletionPort node }
  else execute env node

/-- Park the branch: the run waits, and the deadline of the wait is scheduled. -/
def parkNode (nodeId : String) (outcome : StepOutcome) : Engine Unit := do
  let _ ← perform (.run (.updateState .waiting))
  match outcome.timeoutTask with
  | some task =>
    if 0 < outcome.timeoutMs then
      perform (.ctx (.pend task nodeId outcome.timeoutMs none))
    else return ()
  | none => return ()

/-- Follow the outgoing edges.  A node continued after an error that has edges, but none
on the port it left from, fails the run. -/
def followEdges (nodeId : String) (outcome : StepOutcome) (continuedOnError : Bool)
    (originalError : Option String) : Engine Unit := do
  let advanced ← advanceFrom executeNext nodeId outcome.port
  let ctx : RunContext ← perform (.ctx .get)
  if continuedOnError && !advanced && hasOutgoing ctx.workflowDef nodeId then
    failRun (s!"Node '{nodeId}' has on_error.strategy='continue' but no outgoing edge " ++
      s!"on port '{outcome.port}', so the run cannot proceed past it. " ++
      "Original error: " ++ (originalError.filter fun e => e != "").getD "unknown")
  else return ()

/-- An assignment can satisfy a sibling's wait on a variable: signal it after commit. -/
def signalAssignment (nodeId : String) (node : NodeSpec) (outcome : StepOutcome) : Engine Unit :=
  if node.type = .setVariable ∧ outcome.state = .succeeded then
    perform (.ctx (.pend .workflowVariableSignal nodeId 0 none))
  else pure ()

/-- The tail of `_execute_node`, once the variables are written back. -/
def settleNode (nodeId : String) (node : NodeSpec) (outcome : StepOutcome)
    (continuedOnError : Bool) (originalError : Option String) : Engine Unit := do
  signalAssignment nodeId node outcome
  if outcome.park then parkNode nodeId outcome
  else if outcome.skipEdges then return ()
  else if node.type = .end then do
    let _ ← finalizeRun (if endStatus node = "success" then .succeeded else .failed) none
    return ()
  else if outcome.state = .failed then
    failRun ((outcome.error.filter fun e => e != "").getD "Step failed")
  else followEdges executeNext nodeId outcome continuedOnError originalError

/-- The on-error strategy, applied to a failed outcome only. -/
def recover (node : NodeSpec) (outcome : StepOutcome) : Engine StepOutcome :=
  if outcome.state = .failed then applyOnError executeNext node outcome else pure outcome

/-- The middle of `_execute_node`: run the claimed step and record its outcome. -/
def runClaimed (isDryRun : Bool) (nodeId : String) (node : NodeSpec) (stepId : ℕ) :
    Engine Unit := do
  let outcome ← runExecutor env isDryRun node
  let settled ← recover executeNext node outcome
  perform (.step (.update stepId settled))
  let ctx : RunContext ← perform (.ctx .get)
  let updated : Bool ← perform (.run (.updateVariables ctx.vars))
  if updated then
    settleNode executeNext nodeId node settled
      (outcome.state == .failed && node.onError.strategy == .continue) outcome.error
  else return ()

/-- Claim a step for the node while the run is live, and run it. -/
def claimNode (isDryRun : Bool) (nodeId : String) (node : NodeSpec) : Engine Unit := do
  let stepId : Option ℕ ← perform (.step (.insertIfRunActive nodeId node.config))
  match stepId with
  | none => perform (.ctx .cancel)
  | some stepId => runClaimed env executeNext isDryRun nodeId node stepId

/-- `_execute_node`, with the recursive call as a parameter. -/
def executeNodeBody (nodeId : String) (fromEdge : Option String) : Engine Unit := do
  let ctx : RunContext ← perform (.ctx .get)
  if ctx.cancelled then return ()
  else do
    let run : Option RunRow ← perform (.run .get)
    if runActive run then do
      perform (.ctx (.arrive fromEdge))
      let count : ℕ ← perform (.ctx (.visit nodeId))
      if ctx.workflowDef.maxVisitsPerNode < count then
        failRun s!"Loop guard: node '{nodeId}' visited {count} times"
      else match ctx.workflowDef.nodesById nodeId with
      | none => failRun s!"Node '{nodeId}' not found in definition"
      | some raw => claimNode env executeNext ctx.isDryRun nodeId (parseNode raw)
    else perform (.ctx .cancel)

end Body

/-- `_execute_node`, on a budget of nested calls. -/
def executeNode (env : Services) : ℕ → String → Option String → Engine Unit
  | 0, _, _ => perform .diverge
  | budget + 1, nodeId, fromEdge => executeNodeBody env (executeNode env budget) nodeId fromEdge

/-- More than the calls of `_execute_node` that one engine call can nest. -/
def Definition.visitBudget (d : Definition) : ℕ := d.nodes.length * d.maxVisitsPerNode + 1

/-! ## Entry points -/

variable (env : Services)

/-- Execute a node in the context at hand. -/
def enterNode (nodeId : String) (fromEdge : Option String) : Engine Unit := do
  let ctx : RunContext ← perform (.ctx .get)
  executeNode env ctx.workflowDef.visitBudget nodeId fromEdge

/-- The variables of a new run: every declared variable at its default. -/
def Definition.defaults (d : Definition) : JsonObject :=
  d.vars.map fun (name, var) => (name, (var.get? "default").getD .null)

/-- `start_run`. -/
def startRun (d : Definition) (triggerType : String) (triggerPayload : JsonObject)
    (isDryRun : Bool) : Engine Unit := do
  perform (.run (.insert { state := .running, vars := d.defaults, triggerType, triggerPayload }))
  perform (.audit .runStarted)
  perform (.ctx (.create d d.defaults triggerPayload isDryRun))
  enterNode env d.entryNodeId none

/-- The context of a continuation: a snapshot of the run. -/
def snapshot (d : Definition) (row : RunRow) : Engine Unit :=
  perform (.ctx (.create d row.vars row.triggerPayload (row.triggerType == "dry_run")))

/-- `run_step`, with `_prepare_continuation`. -/
def runStep (nodeId : String) (fromEdge : Option String) : Engine Unit := do
  let run : Option RunRow ← perform (.run .get)
  match run.filter fun r => r.state.isActive with
  | none => return ()
  | some row => do
    let workflow : Option Definition ← perform (.service (.getWorkflow false))
    match workflow with
    | none => do
      let _ ← finalizeRun .failed (some "workflow deleted")
      return ()
    | some d => do
      snapshot d row
      enterNode env nodeId fromEdge

/-- `retry_node`: win the run back from `WAITING`, cancel the placeholder step, and
execute the node again, on the variables read before the transition. -/
def retryNode (nodeId : String) : Engine Unit := do
  let run : Option RunRow ← perform (.run .get)
  match run.filter fun r => r.state.isActive with
  | none => return ()
  | some row => do
    let workflow : Option Definition ← perform (.service (.getWorkflow false))
    match workflow with
    | none => return ()
    | some d => do
      let claimed : Bool ← perform (.run (.updateState .running))
      if claimed then do
        perform (.step (.sealOpen nodeId .cancelled none))
        snapshot d row
        enterNode env nodeId none
      else return ()

/-- The state a parked step is sealed with. -/
def sealedState (port : String) : StepState :=
  if port = "timeout" ∨ port = "failure" then .failed else .succeeded

/-- Seal the parked step and follow the port it was resumed at. -/
def followResumed (nodeId port : String) : Engine Unit := do
  perform (.step (.sealOpen nodeId (sealedState port) (some port)))
  let ctx : RunContext ← perform (.ctx .get)
  let advanced ← advanceFrom (executeNode env ctx.workflowDef.visitBudget) nodeId port
  if !advanced && hasOutgoing ctx.workflowDef nodeId then
    failRun (s!"Node '{nodeId}' resumed at port '{port}' but has no outgoing edge on " ++
      "it, so the run cannot proceed past it")
  else return ()

/-- `resume_at_port`: whether the run was resumed. -/
def resumeAtPort (nodeId port : String) : Engine Bool := do
  let run : Option RunRow ← perform (.run .get)
  match run.filter fun r => r.state == .waiting with
  | none => return false
  | some row => do
    let workflow : Option Definition ← perform (.service (.getWorkflow false))
    match workflow with
    | none => do
      let _ ← finalizeRun .failed (some "workflow deleted")
      return false
    | some d => do
      snapshot d row
      let claimed : Bool ← perform (.run (.updateState .running))
      if claimed then do
        followResumed env nodeId port
        return true
      else return false

/-- Finalize a live run from outside the execution loop. -/
def finalizeLive (state : RunState) (reason : Option String) : Engine Unit := do
  let run : Option RunRow ← perform (.run .get)
  if runActive run then do
    let _ ← finalizeRun state reason
    return ()
  else return ()

/-- `force_fail`. -/
def forceFail (reason : String) : Engine Unit := finalizeLive .failed (some reason)

/-- `cancel_run`. -/
def cancelRun : Engine Unit := finalizeLive .cancelled none

/-- `_mark_run_failed_isolated`: the failure marker, in a transaction of its own. -/
def markRunFailedIsolated : Engine Unit := do
  let changed : Bool ← perform (.run (.updateState .failed))
  if changed then do
    perform (.step .cancelPendingForRun)
    perform .commit
  else perform .commit

/-- Send so many of the collected jobs. -/
def dispatchLoop : ℕ → Engine Unit
  | 0 => pure ()
  | n + 1 => do
    perform (.queue .dispatchNext)
    dispatchLoop n

/-- `dispatch_enqueues`. -/
def dispatchEnqueues : Engine Unit := do
  let count : ℕ ← perform (.ctx .pendingCount)
  dispatchLoop count

end Smap.Workflow
