import Smap.Workflow.Operations

/-!
# The node executors

`contexts/workflow/application/executors/`: one program per node type.  An executor
reads the context of the run, may call a service, assign variables or register a resume
claim, and returns the outcome the engine goes on with.  An exception the engine would
catch is a failed outcome with its text.

The expression language, the template renderer, the cron parser and the identifier
checks are parameters (`Services`).  Left out are the depth and path counters threaded
into agent calls, time-to-live arithmetic, the by-event index, and log lines.
-/

namespace Smap.Workflow

open Program

/-- A program of the engine. -/
abbrev Engine (α : Type) := Prog Op Op.Res α

/-- One operation of the engine. -/
abbrev perform (o : Op) : Engine o.Res := Prog.perform o

/-- What the engine calls and this model leaves open. -/
structure Services where
  runId : String
  workflowId : String
  /-- `sel.evaluator.evaluate`. -/
  evaluate : String → JsonObject → Except String Json
  /-- `sel.template.interpolate`. -/
  interpolate : String → JsonObject → String
  /-- `croniter.is_valid`. -/
  cronValid : String → Bool
  /-- `repr` of a string. -/
  reprStr : String → String
  /-- The error of parsing the leader and the approvers of a gate as ids. -/
  approverIdsError : JsonObject → Option String
  /-- The error of building the `ApprovalGateConfig`. -/
  gateConfigError : JsonObject → Option String

/-- `config.get(key)` used as a name: empty and missing are the same. -/
def JsonObject.getName? (o : JsonObject) (key : String) : Option String :=
  (o.getStr? key).filter fun s => s != ""

/-- A failed outcome with the port of a handled error. -/
def failureOutcome (error : String) : StepOutcome :=
  { state := .failed, port := "failure", error := some error }

section Executors

variable (env : Services)

/-- `{**ctx.variables, "__trigger__": …, "__ctx__": …}`. -/
def selVariables (ctx : RunContext) (ctxVars : JsonObject) : JsonObject :=
  (ctx.vars.set "__trigger__" (.obj ctx.triggerPayload)).set "__ctx__" (.obj ctxVars)

/-- The ids under `__ctx__`. -/
def idVars : JsonObject :=
  [("run_id", .str env.runId), ("workflow_id", .str env.workflowId)]

/-- The ids and the time under `__ctx__`. -/
def timedVars (now : ℚ) : JsonObject := idVars env ++ [("now_unix", .float now)]

/-- The trigger executor: a cron trigger needs a valid expression. -/
def executeTrigger (node : NodeSpec) : Engine StepOutcome :=
  let triggerType := (node.config.getStr? "trigger_type").getD "manual"
  let cronExpr := (node.config.getStr? "cron_expression").getD ""
  if triggerType = "cron" ∧ cronExpr = "" then
    pure { state := .failed, error := some "cron trigger requires a non-empty cron_expression" }
  else if triggerType = "cron" ∧ env.cronValid cronExpr = false then
    pure { state := .failed, error := some s!"invalid cron_expression: {env.reprStr cronExpr}" }
  else
    pure { state := .succeeded, output := [("trigger_type", .str triggerType)] }

/-- The first branch whose expression holds; one that fails to evaluate is passed over. -/
def matchingBranch (vars : JsonObject) : List JsonObject → Option (String × String)
  | [] => none
  | branch :: rest =>
    let expr := (branch.getStr? "when").getD ""
    let port := (branch.getStr? "port").getD "default"
    match env.evaluate expr vars with
    | .ok value => if value.truthy then some (port, expr) else matchingBranch vars rest
    | .error _ => matchingBranch vars rest

def executeCondition (node : NodeSpec) : Engine StepOutcome := do
  let ctx : RunContext ← perform (.ctx .get)
  let now : ℚ ← perform (.service .now)
  let defaultPort := (node.config.getStr? "default_port").getD "default"
  let (port, expr) := (matchingBranch env (selVariables ctx (timedVars env now))
    (node.config.getObjects "branches")).getD (defaultPort, "(default)")
  return { state := .succeeded
           output := [("matched_port", .str port), ("expression", .str expr)]
           port }

/-- The assignments of a `set_variable` node, each visible to the next.  What was
assigned before a failing expression stays assigned. -/
def assignLoop : List JsonObject → (selVars results : JsonObject) → Engine StepOutcome
  | [], _, results => pure { state := .succeeded, output := results }
  | assignment :: rest, selVars, results =>
    let varName := (assignment.getStr? "variable").getD ""
    let expression := (assignment.getStr? "expression").getD ""
    match env.evaluate expression selVars with
    | .ok value => do
      perform (.ctx (.assign varName value))
      assignLoop rest (selVars.set varName value) (results.set varName value)
    | .error exc =>
      pure { state := .failed
             output := results
             error := some s!"Failed to evaluate '{expression}' for '{varName}': {exc}" }

def executeSetVariable (node : NodeSpec) : Engine StepOutcome := do
  let ctx : RunContext ← perform (.ctx .get)
  let now : ℚ ← perform (.service .now)
  assignLoop env (node.config.getObjects "assignments") (selVariables ctx (timedVars env now)) []

/-- `if output_variable: ctx.variables[output_variable] = value`. -/
def assignOutput (node : NodeSpec) (value : Json) : Engine Unit :=
  match node.config.getName? "output_variable" with
  | some name => perform (.ctx (.assign name value))
  | none => pure ()

/-- `result.get("reply", result.get("output", ""))`. -/
def replyOf (result : JsonObject) : Json :=
  (result.get? "reply").getD ((result.get? "output").getD (.str ""))

def executeAgentInvocation (node : NodeSpec) : Engine StepOutcome := do
  let ctx : RunContext ← perform (.ctx .get)
  let now : ℚ ← perform (.service .now)
  let input := env.interpolate ((node.config.getStr? "input_template").getD "")
    (selVariables ctx (timedVars env now))
  let reply : CallReply ←
    perform (.service (.a2aCall ((node.config.getStr? "agent_id").getD "") input))
  match reply with
  | .ok result => do
    assignOutput node (replyOf result)
    return { state := .succeeded, output := [("reply", replyOf result)], port := "success" }
  | .cancelled => return { state := .cancelled, port := "cancelled", skipEdges := true }
  | .raised error => return failureOutcome error

/-- The chat room a gate is bound to: the configured one, or else the trigger's. -/
def gateRoom (config triggerPayload : JsonObject) : Option Json :=
  (config.get? "chatroom_id").or (triggerPayload.get? "chatroom_id")

/-- Why the gate may not use its room, if it may not. -/
def roomRejection (room : Option Json) : Engine (Option String) :=
  match room with
  | some raw => perform (.service (.lockChatroomScope raw))
  | none => pure none

/-- Create the gate, register its resume claim, and park. -/
def openGate (node : NodeSpec) (question : String) : Engine StepOutcome := do
  let created : Except String String ← perform (.service (.createApprovalGate node.id question))
  match created with
  | .error error => return failureOutcome error
  | .ok approvalId => do
    let _ ← perform (.redis (.setClaim (.approval approvalId) node.id))
    return { state := .running
             output := [("approval_id", .str approvalId), ("question", .str question)]
             park := true }

def executeApprovalGate (node : NodeSpec) : Engine StepOutcome := do
  let ctx : RunContext ← perform (.ctx .get)
  let question := env.interpolate ((node.config.getStr? "question_template").getD "")
    (selVariables ctx (idVars env))
  if (node.config.getName? "leader_agent_id").isNone then
    return failureOutcome "approval_gate requires leader_agent_id in config"
  else match env.approverIdsError node.config with
  | some error => return failureOutcome error
  | none =>
    if (node.config.getName? "mode").isNone then
      return failureOutcome "approval_gate requires mode in config"
    else match env.gateConfigError node.config with
    | some error => return failureOutcome error
    | none => do
      let rejection : Option String ← roomRejection (gateRoom node.config ctx.triggerPayload)
      match rejection with
      | some reason => return failureOutcome reason
      | none => openGate node question

/-- Register the resume claim of an instruction and arm its deadline. -/
def awaitInstruction (node : NodeSpec) (instructionId : String) : Engine StepOutcome := do
  let _ ← perform (.redis (.setClaim (.instruct instructionId) node.id))
  perform (.queue (.enqueueJob (.workflowInstructTimeout instructionId)))
  assignOutput node (.str instructionId)
  return { state := .running
           output := [("instruction_id", .str instructionId)]
           port := "success"
           park := true }

def executeInstruct (node : NodeSpec) : Engine StepOutcome := do
  let ctx : RunContext ← perform (.ctx .get)
  let rendered := env.interpolate ((node.config.getStr? "instruction_template").getD "")
    (selVariables ctx (idVars env))
  let issued : Except String String ← perform (.service (.issueInstruct
    ((node.config.getStr? "issuer_agent_id").getD "")
    ((node.config.getStr? "target_agent_id").getD "") rendered))
  match issued with
  | .error error => return failureOutcome error
  | .ok instructionId =>
    if node.config.getBool "wait_for_completion" true then
      awaitInstruction node instructionId
    else do
      assignOutput node (.str instructionId)
      return { state := .succeeded
               output := [("instruction_id", .str instructionId)]
               port := "success" }

/-- Sub-agents are not implemented: the node fails at once on its `failure` port. -/
def executeSubagentSpawn : Engine StepOutcome :=
  pure (failureOutcome
    ("subagent_spawn is not implemented. Sub-agent execution ([R15.18]-[R15.23]) has no " ++
     "runtime: spawning would create an agent instance whose task never runs, then park " ++
     "this run until the idle watchdog killed it. The node fails immediately on its " ++
     "'failure' port instead. With on_error.strategy='continue' the run proceeds past " ++
     "this node on its 'success' port and output_variable is left unset. This capability " ++
     "is deferred to a feature dossier, not cancelled — see " ++
     "docs/tasks/2026-07-22-subagent-spawn-fail-fast/spec.md."))

/-- Register the wait under its claim key and park.  A timer is its own event, so its
deadline resumes the node; every other wait times out. -/
def executeWaitForEvent (node : NodeSpec) : Engine StepOutcome := do
  let eventType := (node.config.getStr? "event_type").getD "timer"
  let timeoutSeconds := node.config.getInt "timeout_seconds" 600
  let delaySeconds := node.config.getInt "delay_seconds" 60
  let isTimer := eventType == "timer"
  let parkSeconds := if isTimer then delaySeconds else timeoutSeconds
  let _ ← perform (.redis (.setClaim (.wait node.id) node.id))
  return { state := .running
           output := [("event_type", .str eventType), ("timeout_seconds", .int timeoutSeconds)] ++
             (if isTimer then [("delay_seconds", .int delaySeconds)] else [])
           port := "default"
           park := true
           timeoutMs := parkSeconds * 1000
           timeoutTask := some (if isTimer then .workflowEventResume else .workflowEventTimeout) }

/-- The parallel executor only marks the fan-out; the engine follows the edges. -/
def executeParallel : Engine StepOutcome := pure { state := .succeeded }

def executeJoin (node : NodeSpec) : Engine StepOutcome := do
  let ctx : RunContext ← perform (.ctx .get)
  let arrived : Except String StepOutcome ←
    perform (.redis (.joinArrive ctx.workflowDef.edges ctx.arrivedVia node))
  match arrived with
  | .ok outcome => return outcome
  | .error exc => return { state := .failed, error := some exc }

/-- `config.get("status", "success")` of an end node. -/
def endStatus (node : NodeSpec) : String := (node.config.getStr? "status").getD "success"

def executeEnd (node : NodeSpec) : Engine StepOutcome := do
  let ctx : RunContext ← perform (.ctx .get)
  let returned := (node.config.getStrings "return_variables").map fun name =>
    (name, (ctx.vars.get? name).getD .null)
  return { state := if endStatus node = "success" then .succeeded else .failed
           output := [("status", .str (endStatus node)), ("return_variables", .obj returned)]
           port := "" }

/-- `get_executor(node.type)`. -/
def getExecutor (node : NodeSpec) : Engine StepOutcome :=
  match node.type with
  | .trigger => executeTrigger env node
  | .agentInvocation => executeAgentInvocation env node
  | .approvalGate => executeApprovalGate env node
  | .condition => executeCondition env node
  | .instruct => executeInstruct env node
  | .subagentSpawn => executeSubagentSpawn
  | .waitForEvent => executeWaitForEvent node
  | .parallel => executeParallel
  | .join => executeJoin node
  | .setVariable => executeSetVariable env node
  | .end => executeEnd node

/-- `executor.execute(ctx, node)`. -/
def execute (node : NodeSpec) : Engine StepOutcome := do
  perform (.ctx (.invoke node.id node.type))
  getExecutor env node

end Executors

end Smap.Workflow
