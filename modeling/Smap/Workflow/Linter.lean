import Mathlib.Data.List.Sort
import Smap.Lib.Search
import Smap.Workflow.Schema

/-!
# The semantic linter

`contexts/workflow/application/linter.py`: seventeen blocking rules and the advisory
warnings, run over a definition the schema has accepted.  Each rule is a function
under the source's name.  Where Python raises on a value the schema lets through (an
edge to a missing node, an unhashable agent id in an open config), the rule returns
`Except.error` with the exception.

A `for` loop over a Python set visits its elements in no fixed order; the model uses
document order.
-/

namespace Smap.Workflow

open List Except

inductive LintLevel where
  | error
  | warning
  deriving DecidableEq, Repr

structure LintIssue where
  rule : ℕ
  level : LintLevel
  message : String
  nodeId : Option String := none
  edgeId : Option String := none
  deriving DecidableEq, Repr

structure ValidationResult where
  valid : Bool
  errors : List LintIssue
  warnings : List LintIssue
  deriving DecidableEq, Repr

/-- The exceptions the rules can raise on a schema-valid document. -/
inductive PyError where
  | keyError (key : String)
  | typeError
  | attributeError
  | overflowError
  deriving DecidableEq, Repr

/-- What the rules take from outside the definition: the look-ups the service makes
for them, the expression language, and Python's text of a value. -/
structure LintEnv where
  validAgentIds : Finset String := ∅
  validChatroomIds : Finset String := ∅
  subagentParentIds : Finset String := ∅
  canInstructAgentIds : Finset String := ∅
  canApproveAgentIds : Finset String := ∅
  canCreateSubagentAgentIds : Finset String := ∅
  /-- `validate_sel`: the text of the SEL error it raises, if it raises one.  Any other
  exception passes through. -/
  validateSel : String → Except PyError (Option String)
  /-- `_extract_var_refs`: the base names of the template references in a text. -/
  extractVarRefs : String → List String
  /-- `repr` of a text, and `str` of a float or a container. -/
  reprStr : String → String
  strOf : Json → String

namespace Linter

/-! ## Helpers -/

abbrev Issues := Except PyError (List LintIssue)

def issue (rule : ℕ) (message : String) (nodeId edgeId : Option String := none) : LintIssue :=
  { rule, level := .error, message, nodeId, edgeId }

def warning (rule : ℕ) (message : String) (nodeId : Option String := none) : LintIssue :=
  { rule, level := .warning, message, nodeId }

/-- The keys of `_nodes_by_id`, in insertion order. -/
def nodeIds (d : Definition) : List String := (d.nodes.map NodeDef.id).eraseDups

/-- The successors the traversals follow. -/
def successors (d : Definition) (id : String) : List String :=
  (d.outgoing id).map EdgeDef.toNode

/-- `value in frozenset_of_strings`, which raises on an unhashable value. -/
def memStrings (v : Json) (names : Finset String) : Except PyError Bool :=
  match v with
  | .str s => .ok (s ∈ names)
  | .arr _ | .obj _ => .error .typeError
  | _ => .ok false

/-- `str(value)`. -/
def pyStr (env : LintEnv) : Json → String
  | .null => "None"
  | .bool b => if b then "True" else "False"
  | .int n => toString n
  | .str s => s
  | v => env.strOf v

/-- `for x in value`. -/
def iterate : Json → Except PyError (List Json)
  | .arr items => .ok items
  | .str s => .ok (s.toList.map fun c => .str c.toString)
  | .obj fields => .ok (fields.map fun kv => .str kv.1)
  | _ => .error .typeError

/-- `value > bound` for a number. -/
def exceeds (v : Json) (bound : ℤ) : Except PyError Bool :=
  match v with
  | .int n => .ok (bound < n)
  | .float q => .ok ((bound : ℚ) < q)
  | .bool b => .ok (bound < if b then 1 else 0)
  | _ => .error .typeError

mutual

/-- `_collect_all_text_fields`: every string that could hold a reference. -/
def collectAllTextFields : List (String × Json) → List String
  | [] => []
  | (_, v) :: rest => textsOfField v ++ collectAllTextFields rest

def textsOfField : Json → List String
  | .str s => [s]
  | .arr items => textsOfItems items
  | .obj fields => collectAllTextFields fields
  | _ => []

/-- A list contributes its strings and its objects, but not its nested lists. -/
def textsOfItems : List Json → List String
  | [] => []
  | .str s :: rest => s :: textsOfItems rest
  | .obj fields :: rest => collectAllTextFields fields ++ textsOfItems rest
  | _ :: rest => textsOfItems rest

end

/-- `_collect_agent_ids`: the agent references of one node. -/
def collectAgentIds (n : NodeDef) : Except PyError (List Json) := do
  let single := ["agent_id", "target_agent_id", "issuer_agent_id", "leader_agent_id",
    "parent_agent_id"].filterMap n.config.get?
  match n.config.get? "approvers" with
  | none => return single
  | some approvers => return single ++ (← iterate approvers)

/-- `_ALLOWED_PORTS`, with the ports a condition declares. -/
def allowedPorts (n : NodeDef) : List String :=
  match n.type with
  | .trigger | .parallel | .setVariable => ["default"]
  | .agentInvocation | .instruct | .subagentSpawn => ["success", "failure"]
  | .approvalGate => ["approved", "rejected", "timeout"]
  | .waitForEvent | .join => ["default", "timeout"]
  | .condition => (n.config.getObjects "branches").filterMap (fun b => b.getStr? "port") ++
      [(n.config.getStr? "default_port").getD "default"]
  | .end => []

/-- `_MULTI_PORT_NODES`: the ports that must all be connected. -/
def multiPortNodes : NodeType → List String
  | .agentInvocation | .instruct | .subagentSpawn => ["success", "failure"]
  | .approvalGate => ["approved", "rejected", "timeout"]
  | _ => []

/-! ## Structure of the graph -/

/-- Rule 1: exactly one trigger, and it is the entry. -/
def rule01SingleTrigger (d : Definition) : List LintIssue :=
  let triggers := d.nodes.filter fun n => n.type == .trigger
  match triggers with
  | [] => [issue 1 "Workflow must have exactly one trigger node"]
  | t :: rest =>
    rest.map (fun t' => issue 1 "Multiple trigger nodes found" t'.id) ++
    if d.entryNodeId = t.id then []
    else [issue 1 s!"entry_node_id '{d.entryNodeId}' does not match trigger node '{t.id}'"]

/-- One report per element whose key has been seen before. -/
def duplicates {α : Type} (key : α → String) (report : String → LintIssue) :
    List String → List α → List LintIssue
  | _, [] => []
  | seen, x :: rest =>
    if key x ∈ seen then report (key x) :: duplicates key report seen rest
    else duplicates key report (key x :: seen) rest

/-- Rule 2: node ids and edge ids are unique. -/
def rule02UniqueIds (d : Definition) : List LintIssue :=
  duplicates NodeDef.id (fun id => issue 2 s!"Duplicate node id: {id}" id) [] d.nodes ++
  duplicates EdgeDef.id (fun id => issue 2 s!"Duplicate edge id: {id}" none id) [] d.edges

/-- Rule 3 on the endpoints and the port of one edge. -/
def edgeIssues (d : Definition) (e : EdgeDef) : List LintIssue :=
  (match d.nodesById e.fromNode with
    | none => [issue 3 s!"Edge references unknown from node '{e.fromNode}'" none e.id]
    | some _ => []) ++
  (match d.nodesById e.toNode with
    | none => [issue 3 s!"Edge references unknown to node '{e.toNode}'" none e.id]
    | some _ => []) ++
  match d.nodesById e.fromNode with
  | none => []
  | some n =>
    if n.type = .end then
      [issue 3 s!"end node '{e.fromNode}' cannot have outgoing edges" none e.id]
    else if e.port ∈ allowedPorts n then []
    else [issue 3 s!"Port '{e.port}' not valid for {n.type.value} node '{e.fromNode}'" none e.id]

def rule03Loop (d : Definition) : List (String × String × String) → List EdgeDef → List LintIssue
  | _, [] => []
  | seen, e :: rest =>
    let triple := (e.fromNode, e.port, e.toNode)
    edgeIssues d e ++
    (if triple ∈ seen then
      [issue 3 s!"Duplicate edge triple ({e.fromNode}, {e.port}, {e.toNode})" none e.id]
    else []) ++
    rule03Loop d (triple :: seen) rest

/-- Rule 3: edges join known nodes, leave through known ports and are not doubled. -/
def rule03EdgesValid (d : Definition) : List LintIssue := rule03Loop d [] d.edges

/-- The traversal of rules 4 and 5.  A vertex is expanded once, so the stack never
sees more than one entry per edge besides the root. -/
def reachable (d : Definition) : List String :=
  Search.visitLoop (successors d) (d.edges.length + 2) [d.entryNodeId] []

/-- Rule 4: every node is reachable from the trigger. -/
def rule04Reachability (d : Definition) : List LintIssue :=
  if (d.nodesById d.entryNodeId).isNone then []
  else ((nodeIds d).filter fun id => id != d.entryNodeId && !(reachable d).contains id).map
    fun id => issue 4 s!"Node '{id}' is unreachable from the trigger" (some id)

def endNodes (d : Definition) : List String :=
  (nodeIds d).filter fun id => (d.nodesById id).any fun n => n.type == .end

/-- One pass of the `while changed` loop of rule 5. -/
def canReachPass (d : Definition) : List String → List String → List String
  | [], acc => acc
  | id :: rest, acc =>
    if acc.contains id then canReachPass d rest acc
    else if (successors d id).any fun x => acc.contains x then canReachPass d rest (id :: acc)
    else canReachPass d rest acc

/-- The loop stops at the first pass that adds nothing. -/
def canReachLoop (d : Definition) : ℕ → List String → List String
  | 0, acc => acc
  | fuel + 1, acc =>
    let acc' := canReachPass d (nodeIds d) acc
    if acc'.length = acc.length then acc else canReachLoop d fuel acc'

def canReachEnd (d : Definition) : List String :=
  canReachLoop d (d.nodes.length + 1) (endNodes d)

/-- Rule 5's report on one reachable id; the look-up of an id without a node raises. -/
def terminationIssue (d : Definition) (id : String) : Issues :=
  if (endNodes d).contains id || (canReachEnd d).contains id then .ok []
  else match d.nodesById id with
    | none => .error (.keyError id)
    | some n =>
      if n.type = .waitForEvent ∧ (d.outgoing id).isEmpty then
        .ok [warning 5 s!"wait_for_event node '{id}' has no path to end (permanent listener?)" id]
      else .ok [issue 5 s!"Node '{id}' has no path to any end node" id]

/-- Rule 5: every reachable node can reach an end. -/
def rule05Termination (d : Definition) : Issues :=
  if (endNodes d).isEmpty then .ok [issue 5 "Workflow has no end node"]
  else return (← (reachable d).mapM (terminationIssue d)).flatten

/-! ## References -/

/-- Rule 6: the agents a node names belong to the workflow's project. -/
def rule06AgentsExist (env : LintEnv) (d : Definition) : Issues := do
  let reports ← d.nodes.mapM fun n => do
    let ids ← collectAgentIds n
    let found ← ids.mapM fun id => do
      if ← memStrings id env.validAgentIds then return []
      return [issue 6
        s!"Referenced agent '{pyStr env id}' does not exist in the workflow's project" n.id]
    return found.flatten
  return reports.flatten

/-- Rule 7 is enforced by rule 6: the valid ids are already scoped to the project. -/
def rule07AgentScope (_env : LintEnv) (_d : Definition) : List LintIssue := []

/-- Rule 8: the chatrooms a node names are in scope. -/
def rule08ChatroomScope (env : LintEnv) (d : Definition) : Issues := do
  let reports ← d.nodes.mapM fun n => do
    let found ← ["chatroom_id", "target_chatroom_id"].mapM fun key => do
      match n.config.get? key with
      | none => return []
      | some cid =>
        if !cid.truthy then return []
        if ← memStrings cid env.validChatroomIds then return []
        return [issue 8 s!"Chatroom '{pyStr env cid}' not in workspace's project scope" n.id]
    return found.flatten
  return reports.flatten

/-- Rule 9: a sub-agent does not spawn sub-agents. -/
def rule09SubagentDepth (env : LintEnv) (d : Definition) : List LintIssue :=
  d.nodes.filterMap fun n =>
    if n.type = .subagentSpawn then
      match n.config.getStr? "parent_agent_id" with
      | some parent =>
        if parent ≠ "" ∧ parent ∈ env.subagentParentIds then
          some (issue 9
            s!"parent_agent_id '{parent}' is itself a sub-agent (depth > 1 forbidden)" n.id)
        else none
      | none => none
    else none

/-- The instruction graph of rule 10: issuer to target, both non-empty. -/
def instructEdges (d : Definition) : List (String × String) :=
  d.nodes.filterMap fun n =>
    if n.type = .instruct then
      let issuer := (n.config.getStr? "issuer_agent_id").getD ""
      let target := (n.config.getStr? "target_agent_id").getD ""
      if issuer ≠ "" ∧ target ≠ "" then some (issuer, target) else none
    else none

def instructTargets (d : Definition) (agent : String) : List String :=
  (((instructEdges d).filter fun e => e.1 == agent).map Prod.snd).eraseDups

mutual

/-- `_dfs`: whether a grey agent is met, and the agents blackened on the way.  The
grey agents are the ones on the recursion stack. -/
def dfs (next : String → List String) : ℕ → List String → List String → String →
    Bool × List String
  | 0, _, black, _ => (false, black)
  | fuel + 1, gray, black, agent =>
    match dfsNeighbors next fuel (agent :: gray) black (next agent) with
    | (true, black') => (true, black')
    | (false, black') => (false, agent :: black')

def dfsNeighbors (next : String → List String) : ℕ → List String → List String → List String →
    Bool × List String
  | _, _, black, [] => (false, black)
  | 0, _, black, _ :: _ => (false, black)
  | fuel + 1, gray, black, neighbor :: rest =>
    if gray.contains neighbor then (true, black)
    else if black.contains neighbor then dfsNeighbors next fuel gray black rest
    else
      match dfs next fuel gray black neighbor with
      | (true, black') => (true, black')
      | (false, black') => dfsNeighbors next fuel gray black' rest

end

/-- The outer loop of rule 10, over the agents that are still white. -/
def dfsStarts (next : String → List String) (fuel : ℕ) : List String → List String → Bool
  | _, [] => false
  | black, start :: rest =>
    if black.contains start then dfsStarts next fuel black rest
    else
      match dfs next fuel [] black start with
      | (true, _) => true
      | (false, black') => dfsStarts next fuel black' rest

/-- Rule 10: the instruct nodes form no cycle of agents.  A chain of calls holds
each agent once and each call scans at most one entry per edge. -/
def rule10InstructCycle (d : Definition) : List LintIssue :=
  let edges := instructEdges d
  let agents := (edges.map Prod.fst ++ edges.map Prod.snd).eraseDups
  let fuel := (agents.length + 1) * (edges.length + 2)
  if dfsStarts (instructTargets d) fuel [] agents then
    [issue 10 "Instruct edges form a cycle in the agent-instruction graph"]
  else []

/-! ## Conditions, variables, ports -/

def rule11Branches (nodeId defaultPort : String) : List String → List String → List LintIssue
  | _, [] => []
  | seen, port :: rest =>
    (if port ∈ seen then [issue 11 s!"Duplicate branch port '{port}'" nodeId] else []) ++
    (if port = defaultPort then
      [issue 11 s!"Branch port '{port}' conflicts with default_port" nodeId] else []) ++
    rule11Branches nodeId defaultPort (port :: seen) rest

/-- Rule 11: a condition's branch ports differ from each other and the default. -/
def rule11ConditionBranches (d : Definition) : List LintIssue :=
  d.nodes.flatMap fun n =>
    if n.type = .condition then
      rule11Branches n.id ((n.config.getStr? "default_port").getD "default") []
        ((n.config.getObjects "branches").map fun b => (b.getStr? "port").getD "")
    else []

/-- Rule 12: template references name declared variables. -/
def rule12VariableReferences (env : LintEnv) (d : Definition) : List LintIssue :=
  d.nodes.flatMap fun n =>
    (collectAllTextFields n.config).flatMap fun text =>
      (env.extractVarRefs text).filterMap fun ref =>
        if ref = "trigger" ∨ ref = "ctx" ∨ ref ∈ d.vars.map Prod.fst then none
        else if n.type = .condition then
          some (issue 12 s!"Variable reference '{ref}' is not declared" n.id)
        else some (warning 12 s!"Variable reference '{ref}' is not declared" n.id)

/-- Rule 13: the ports of the failable nodes are connected, unless errors continue. -/
def rule13PortCoverage (d : Definition) : List LintIssue :=
  (nodeIds d).flatMap fun id =>
    match d.nodesById id with
    | none => []
    | some n =>
      let strategy := (n.onErrorRaw.getStr? "strategy").getD "fail"
      let connected := (d.outgoing id).map EdgeDef.port
      (multiPortNodes n.type).filterMap fun port =>
        if port ∉ connected ∧ strategy ≠ "continue" then
          some (issue 13 (s!"Port '{port}' of {n.type.value} node '{id}' is not connected " ++
            "and on_error.strategy is not 'continue'") id)
        else none

/-- Rule 14's walk from one incoming edge of a join back over single-input nodes to a
condition. -/
def conditionBehind (d : Definition) : ℕ → List String → String → Option NodeDef
  | 0, _, _ => none
  | fuel + 1, visited, cursor =>
    if cursor = "" ∨ cursor ∈ visited then none
    else match d.nodesById cursor with
      | none => none
      | some pred =>
        if pred.type = .condition then some pred
        else match d.incoming cursor with
          | [e] => conditionBehind d fuel (cursor :: visited) e.fromNode
          | _ => none

/-- Rule 14: parallel nodes fan out, joins fan in, and no `all` join waits for the
branches of a condition. -/
def rule14ParallelJoin (d : Definition) : List LintIssue :=
  d.nodes.flatMap fun n =>
    if n.type = .parallel then
      let outCount := (d.outgoing n.id).length
      if outCount < 2 then
        [issue 14 s!"parallel node '{n.id}' needs ≥ 2 outgoing edges, has {outCount}" n.id]
      else []
    else if n.type = .join then
      let inCount := (d.incoming n.id).length
      (if inCount < 2 then
        [issue 14 s!"join node '{n.id}' needs ≥ 2 incoming edges, has {inCount}" n.id]
      else []) ++
      if (n.config.getStr? "mode").getD "all" = "all" then
        (d.incoming n.id).filterMap fun e =>
          (conditionBehind d (d.nodes.length + 1) [] e.fromNode).map fun pred =>
            issue 14 (s!"join node '{n.id}' (mode=all) is fed by " ++
              s!"condition node '{pred.id}' — condition " ++
              "routes to only one branch, so the join " ++ "will deadlock") n.id
      else []
    else []

/-- The expressions rule 15 parses: branch predicates and assignments. -/
def selExpressions (n : NodeDef) : List String :=
  match n.type with
  | .condition => (n.config.getObjects "branches").filterMap fun b => b.getStr? "when"
  | .setVariable => (n.config.getObjects "assignments").filterMap fun a => a.getStr? "expression"
  | _ => []

/-- Rule 15: every non-blank expression parses. -/
def rule15SelExpressions (env : LintEnv) (d : Definition) : Issues := do
  let reports ← d.nodes.mapM fun n => do
    let found ← (selExpressions n).mapM fun expr => do
      if expr.toList.all Schema.isSpace then return []
      match ← env.validateSel expr with
      | none => return []
      | some exc => return [issue 15 s!"Invalid SEL expression {env.reprStr expr}: {exc}" n.id]
    return found.flatten
  return reports.flatten

/-- Rule 16 on one node's `on_error` object. -/
def fallbackIssue (env : LintEnv) (d : Definition) (n : NodeDef) (onError : JsonObject) :
    Issues :=
  if onError.getStr? "strategy" ≠ some "fallback" then .ok []
  else
    let fid := (onError.get? "fallback_node_id").getD .null
    if !fid.truthy then
      .ok [issue 16 s!"Node '{n.id}' has on_error.strategy=fallback but no fallback_node_id" n.id]
    else if onError.getStr? "fallback_node_id" = some n.id then
      .ok [issue 16 (s!"Node '{n.id}' has fallback_node_id pointing to itself " ++
        "(causes recursive retry storm until loop guard fires)") n.id]
    else do
      if ← memStrings fid (d.nodes.map NodeDef.id).toFinset then return []
      return [issue 16 (s!"Node '{n.id}' references fallback_node_id " ++
        s!"'{pyStr env fid}' which does not exist") n.id]

/-- Rule 16: a fallback names another node of the definition. -/
def rule16FallbackNodeExists (env : LintEnv) (d : Definition) : Issues := do
  let reports ← d.nodes.mapM fun n =>
    match n.config.get? "on_error" with
    | some (.obj onError) => fallbackIssue env d n onError
    | some v => if v.truthy then .error .attributeError else .ok []
    | none => .ok []
  return reports.flatten

/-- `_A2A_EMIT`: the key of the target agent and the type of message a node emits. -/
def a2aEmit : NodeType → Option (String × String)
  | .agentInvocation => some ("agent_id", "call")
  | .instruct => some ("target_agent_id", "instruct")
  | _ => none

/-- Rule 17: the run's own messages do not fire its trigger. -/
def rule17A2aTriggerSelfCycle (d : Definition) : List LintIssue :=
  let triggers := d.nodes.filter fun n =>
    n.type == .trigger && n.config.getStr? "trigger_type" == some "a2a_event"
  triggers.flatMap fun trig =>
    let triggerAgent := (trig.config.getStr? "agent_id").getD ""
    let eventTypes := trig.config.getStrings "event_types"
    if triggerAgent = "" then []
    else d.nodes.filterMap fun n =>
      match a2aEmit n.type with
      | none => none
      | some (targetKey, emittedType) =>
        if (n.config.getStr? targetKey).getD "" = triggerAgent ∧ emittedType ∈ eventTypes then
          some (issue 17 (s!"Node '{n.id}' emits a '{emittedType}' envelope to agent " ++
            s!"'{triggerAgent}', which is this workflow's own a2a_event trigger " ++
            "target for that type — a self-amplifying loop. Change the trigger's " ++
            s!"event_types or route the {n.type.value} to a different agent.") n.id)
        else none

/-! ## Advisory warnings -/

/-- The variables some text, output or assignment mentions. -/
def usedVars (env : LintEnv) (d : Definition) : List String :=
  d.nodes.flatMap fun n =>
    (collectAllTextFields n.config).flatMap env.extractVarRefs ++
    (match n.type with
      | .agentInvocation => (n.config.getStr? "output_variable").toList.filter (· ≠ "")
      | .setVariable =>
        (n.config.getObjects "assignments").map fun a => (a.getStr? "variable").getD ""
      | _ => [])

/-- A warning when a numeric field exceeds a bound. -/
def warnAbove (v : Json) (bound : ℤ) (message : String) (nodeId : Option String) : Issues := do
  if ← exceeds v bound then return [warning 0 message nodeId]
  return []

/-- A warning when a named agent lacks a capability. -/
def warnLacking (agent : Option String) (granted : Finset String)
    (message : String → String) (nodeId : String) : List LintIssue :=
  match agent with
  | some a => if a ≠ "" ∧ a ∉ granted then [warning 0 (message a) nodeId] else []
  | none => []

def hasTimeoutEdge (d : Definition) (n : NodeDef) : Bool :=
  (d.outgoing n.id).any fun e => e.fromPort == some "timeout"

/-- W5: the first field of the cron expression is a star. -/
def everyMinute (expr : String) : Bool :=
  ((expr.toList.splitOnP Schema.isSpace).filter fun f => !f.isEmpty).head? == some ['*']

/-- The warnings on one node (W2–W5, W7–W10). -/
def nodeWarnings (env : LintEnv) (d : Definition) (n : NodeDef) : Issues :=
  match n.type with
  | .agentInvocation =>
    let ts := (n.config.get? "timeout_seconds").getD (.int 120)
    warnAbove ts 300 s!"timeout_seconds={pyStr env ts} > 300" n.id
  | .waitForEvent =>
    .ok (match (n.config.getStr? "event_type").getD "timer" == "timer", hasTimeoutEdge d n with
      | false, false => [warning 0 "wait_for_event has no timeout edge" n.id]
      | true, true =>
        [warning 0 "timer wait's timeout port is never produced; this edge is never taken" n.id]
      | _, _ => [])
  | .join =>
    .ok (if hasTimeoutEdge d n then
      [warning 0 "join timeout is not implemented; this edge is never taken" n.id] else [])
  | .approvalGate => do
    let ts := (n.config.get? "timeout_seconds").getD (.int 0)
    let slow ← warnAbove ts 3600 s!"approval timeout_seconds={pyStr env ts} > 3600" n.id
    let leader := (n.config.getStr? "leader_agent_id").toList.filter (· ≠ "")
    let approvers := (n.config.getStrings "approvers" ++ leader).dedup
    let lacking := (approvers.filter (· ∉ env.canApproveAgentIds)).insertionSort (· ≤ ·)
    return slow ++ lacking.map fun a => warning 0
      (s!"agent '{a}' is named as approver or leader but lacks " ++
        "workflow_capabilities.can_approve") n.id
  | .trigger =>
    .ok (if n.config.getStr? "trigger_type" = some "cron" ∧
        everyMinute ((n.config.getStr? "cron_expression").getD "") then
      [warning 0 "Cron expression fires every minute or faster" n.id] else [])
  | .subagentSpawn =>
    .ok (warning 0 ("subagent_spawn is not implemented: the node fails immediately on its " ++
        "'failure' port. Sub-agent execution is deferred, not cancelled") n.id ::
      warnLacking (n.config.getStr? "parent_agent_id") env.canCreateSubagentAgentIds
        (fun a => s!"parent_agent_id '{a}' lacks workflow_capabilities.can_create_subagent") n.id)
  | .instruct =>
    .ok (warnLacking (n.config.getStr? "issuer_agent_id") env.canInstructAgentIds
      (fun a => s!"issuer_agent_id '{a}' lacks workflow_capabilities.can_instruct") n.id)
  | _ => .ok []

/-- `advisory_warnings`. -/
def advisoryWarnings (env : LintEnv) (d : Definition) : Issues := do
  let unused := (d.vars.map Prod.fst).filter (· ∉ usedVars env d)
  let onNodes ← d.nodes.mapM (nodeWarnings env d)
  let lg := (d.loopGuard.get? "max_visits_per_node").getD (.int 200)
  let guardHigh ← warnAbove lg 1000 s!"loop_guard.max_visits_per_node={pyStr env lg} > 1000" none
  return unused.map (fun v => warning 0 s!"Variable '{v}' is declared but never referenced") ++
    onNodes.flatten ++ guardHigh

end Linter

/-! ## The aggregate validator -/

open Linter in
/-- All issues, in the order the rules run. -/
def allIssues (env : LintEnv) (d : Definition) : Except PyError (List LintIssue) := do
  let r05 ← rule05Termination d
  let r06 ← rule06AgentsExist env d
  let r08 ← rule08ChatroomScope env d
  let r15 ← rule15SelExpressions env d
  let r16 ← rule16FallbackNodeExists env d
  let advisory ← advisoryWarnings env d
  return rule01SingleTrigger d ++ rule02UniqueIds d ++ rule03EdgesValid d ++
    rule04Reachability d ++ r05 ++ r06 ++ rule07AgentScope env d ++ r08 ++
    rule09SubagentDepth env d ++ rule10InstructCycle d ++ rule11ConditionBranches d ++
    rule12VariableReferences env d ++ rule13PortCoverage d ++ rule14ParallelJoin d ++
    r15 ++ r16 ++ rule17A2aTriggerSelfCycle d ++ advisory

/-- `validate_definition`: the definition is valid when no issue is an error. -/
def validateDefinition (env : LintEnv) (d : Definition) : Except PyError ValidationResult := do
  let all ← allIssues env d
  let errors := all.filter fun i => i.level == .error
  return { valid := errors.isEmpty
           errors := errors
           warnings := all.filter fun i => i.level == .warning }

/-- The linter runs to its end and finds no error. -/
def lintValid (env : LintEnv) (d : Definition) : Bool :=
  match validateDefinition env d with
  | .ok r => r.valid
  | .error _ => false

/-! ## What a lint-valid definition satisfies -/

variable {d : Definition} {α : Type} {env : LintEnv} {ε β : Type} {f : α → Except ε β} {n : NodeDef}
  {id : String}

theorem no_error_of_lintValid (h : lintValid env d = true) :
    ∃ all, allIssues env d = .ok all ∧ ∀ i ∈ all, i.level ≠ .error := by
  unfold lintValid validateDefinition at h
  cases hall : allIssues env d with
  | error => simp [hall, bind, Except.bind] at h
  | ok all =>
    refine ⟨all, rfl, fun i hi herr => ?_⟩
    have hnil : (all.filter fun i => i.level == .error) = [] := by
      simpa [hall, bind, Except.bind, pure, Except.pure] using h
    have hmem : i ∈ all.filter fun i => i.level == .error := by simp [hi, herr]
    rw [hnil] at hmem
    exact not_mem_nil hmem

/-- A computation that does not raise has not raised so far. -/
theorem exists_ok_of_bind {x : Except ε α} {b : β} (h : (x >>= f) = .ok b) :
    ∃ a, x = .ok a ∧ f a = .ok b := by
  cases x with
  | error => cases h
  | ok a => exact ⟨a, rfl, h⟩

open Linter in
/-- The reports of the rules on the structure of the graph are among the issues. -/
theorem mem_allIssues {all : List LintIssue} (h : allIssues env d = .ok all) :
    ∃ r05, rule05Termination d = .ok r05 ∧ ∀ rule ∈ [rule01SingleTrigger d, rule02UniqueIds d,
      rule03EdgesValid d, rule04Reachability d, r05, rule13PortCoverage d, rule14ParallelJoin d],
      ∀ i ∈ rule, i ∈ all := by
  obtain ⟨r05, h05, h⟩ := exists_ok_of_bind h
  obtain ⟨r06, -, h⟩ := exists_ok_of_bind h
  obtain ⟨r08, -, h⟩ := exists_ok_of_bind h
  obtain ⟨r15, -, h⟩ := exists_ok_of_bind h
  obtain ⟨r16, -, h⟩ := exists_ok_of_bind h
  obtain ⟨advisory, -, h⟩ := exists_ok_of_bind h
  refine ⟨r05, h05, fun rule hrule i hi => ?_⟩
  rw [← ok.inj h]
  simp only [mem_cons, not_mem_nil, or_false] at hrule
  simp only [mem_append]
  obtain rfl | rfl | rfl | rfl | rfl | rfl | rfl := hrule
  all_goals tauto

/-- No rule on the structure of the graph reports an error on a lint-valid definition. -/
theorem no_error_of_rule (h : lintValid env d = true) :
    ∃ r05, Linter.rule05Termination d = .ok r05 ∧
      ∀ rule ∈ [Linter.rule01SingleTrigger d, Linter.rule02UniqueIds d, Linter.rule03EdgesValid d,
        Linter.rule04Reachability d, r05, Linter.rule13PortCoverage d,
        Linter.rule14ParallelJoin d],
      ∀ i ∈ rule, i.level ≠ .error := by
  obtain ⟨all, hall, hok⟩ := no_error_of_lintValid h
  obtain ⟨r05, h05, hmem⟩ := mem_allIssues hall
  exact ⟨r05, h05, fun rule hrule i hi => hok i (hmem rule hrule i hi)⟩

namespace Linter

variable {key : α → String} {report : String → LintIssue} {x : String}

theorem duplicates_eq_nil :
    ∀ {xs : List α} {seen : List String}, duplicates key report seen xs = [] →
      (xs.map key).Nodup ∧ ∀ x ∈ xs, key x ∉ seen := by
  intro xs
  induction xs with
  | nil => simp
  | cons x rest ih =>
    intro seen h
    simp only [duplicates] at h
    split at h
    · cases h
    rename_i hx
    obtain ⟨hnd, hout⟩ := ih h
    refine ⟨?_, ?_⟩
    · rw [map_cons, nodup_cons]
      refine ⟨fun hmem => ?_, hnd⟩
      obtain ⟨y, hy, hyx⟩ := mem_map.mp hmem
      exact hout y hy (hyx ▸ mem_cons_self)
    · intro y hy hseen
      rcases mem_cons.mp hy with rfl | hy
      · exact hx hseen
      · exact hout y hy (mem_cons_of_mem _ hseen)

theorem duplicates_level (hreport : ∀ id, (report id).level = .error) :
    ∀ {xs : List α} {seen : List String}, ∀ i ∈ duplicates key report seen xs,
      i.level = .error := by
  intro xs
  induction xs with
  | nil => simp [duplicates]
  | cons x rest ih =>
    intro seen i hi
    simp only [duplicates] at hi
    split at hi
    · rcases mem_cons.mp hi with rfl | hi
      · exact hreport _
      · exact ih i hi
    · exact ih i hi

theorem mem_rule03Loop {e : EdgeDef} {i : LintIssue} (hi : i ∈ edgeIssues d e) :
    ∀ {es : List EdgeDef} {seen : List (String × String × String)}, e ∈ es →
      i ∈ rule03Loop d seen es := by
  intro es
  induction es with
  | nil => simp
  | cons x rest ih =>
    intro seen he
    simp only [rule03Loop, mem_append]
    rcases mem_cons.mp he with rfl | he
    · exact .inl (.inl hi)
    · exact .inr (ih he)

/-- What the passes of rule 5 add is a node with an edge. -/
theorem outgoing_of_canReachPass : ∀ {ids acc : List String}, x ∈ canReachPass d ids acc →
    x ∈ acc ∨ x ∈ ids ∧ d.outgoing x ≠ [] := by
  intro ids
  induction ids with
  | nil => exact fun h => .inl h
  | cons id rest ih =>
    intro acc h
    have hrest {acc : List String} (h : x ∈ canReachPass d rest acc) :
        x ∈ acc ∨ x ∈ id :: rest ∧ d.outgoing x ≠ [] :=
      (ih h).imp_right fun hx => ⟨mem_cons_of_mem id hx.1, hx.2⟩
    simp only [canReachPass] at h
    split at h
    · exact hrest h
    split at h
    · rename_i hsucc
      obtain hmem | hout := hrest h
      · rcases mem_cons.mp hmem with rfl | hmem
        · refine .inr ⟨mem_cons_self, fun hnil => ?_⟩
          simp [successors, hnil] at hsucc
        · exact .inl hmem
      · exact .inr hout
    · exact hrest h

theorem outgoing_of_canReachLoop (fuel : ℕ) : ∀ {acc : List String},
    x ∈ canReachLoop d fuel acc → x ∈ acc ∨ x ∈ nodeIds d ∧ d.outgoing x ≠ [] := by
  induction fuel with
  | zero => exact fun h => .inl h
  | succ fuel ih =>
    intro acc h
    simp only [canReachLoop] at h
    split at h
    · exact .inl h
    · obtain hmem | hout := ih h
      · exact outgoing_of_canReachPass hmem
      · exact .inr hout

end Linter

open Linter

/-- What a loop that does not raise has returned for each element. -/
theorem exists_of_mapM :
    ∀ {xs : List α} {ys : List β}, xs.mapM f = .ok ys → ∀ x ∈ xs, ∃ y ∈ ys, f x = .ok y := by
  intro xs
  induction xs with
  | nil => simp
  | cons a rest ih =>
    intro ys h x hx
    rw [mapM_cons] at h
    obtain ⟨b, hb, h⟩ := exists_ok_of_bind h
    obtain ⟨bs, hbs, h⟩ := exists_ok_of_bind h
    obtain rfl := ok.inj h
    rcases mem_cons.mp hx with rfl | hx
    · exact ⟨b, mem_cons_self, hb⟩
    · obtain ⟨y, hy, hfx⟩ := ih hbs x hx
      exact ⟨y, mem_cons_of_mem _ hy, hfx⟩

variable (h : lintValid env d = true)

include h

/-- Rule 2 leaves a lint-valid definition with distinct edge ids. -/
theorem edge_ids_nodup : (d.edges.map EdgeDef.id).Nodup := by
  obtain ⟨r05, -, hok⟩ := no_error_of_rule h
  have hnil : duplicates EdgeDef.id
      (fun id => issue 2 s!"Duplicate edge id: {id}" none id) [] d.edges = [] := by
    rw [eq_nil_iff_forall_not_mem]
    intro i hi
    refine hok (rule02UniqueIds d) (by simp) i ?_ (duplicates_level (fun _ => rfl) i hi)
    exact mem_append_right _ hi
  exact (duplicates_eq_nil hnil).1

/-- Rule 14 leaves every join of a lint-valid definition at least two incoming edges. -/
theorem two_le_incoming_of_join (hn : n ∈ d.nodes) (hjoin : n.type = .join) :
    2 ≤ (d.incoming n.id).length := by
  obtain ⟨r05, -, hok⟩ := no_error_of_rule h
  by_contra hlt
  rw [not_le] at hlt
  have hreport : issue 14 (s!"join node '{n.id}' needs ≥ 2 incoming edges, has " ++
      s!"{(d.incoming n.id).length}") n.id ∈ rule14ParallelJoin d := by
    simp only [rule14ParallelJoin, mem_flatMap]
    refine ⟨n, hn, ?_⟩
    simp [hjoin, hlt]
  exact hok (rule14ParallelJoin d) (by simp) _ hreport rfl

/-- Rule 1 leaves a lint-valid definition with an entry node. -/
theorem exists_entryNode : ∃ n, d.nodesById d.entryNodeId = some n := by
  obtain ⟨r05, -, hok⟩ := no_error_of_rule h
  have hrule := hok (rule01SingleTrigger d) (by simp)
  simp only [rule01SingleTrigger] at hrule
  split at hrule
  · exact absurd rfl (hrule _ mem_cons_self)
  rename_i t rest htriggers
  have ht : t ∈ d.nodes := (mem_filter.mp (htriggers ▸ mem_cons_self)).1
  by_cases hentry : d.entryNodeId = t.id
  · rw [hentry, ← Option.isSome_iff_exists, Definition.nodesById, find?_isSome]
    exact ⟨t, mem_reverse.mpr ht, by simp⟩
  · rw [if_neg hentry] at hrule
    exact absurd rfl (hrule _ (mem_append_right _ mem_cons_self))

variable (hn : d.nodesById id = some n)

include hn

/-- Rule 3 lets the edges of a lint-valid definition leave a node through its ports only. -/
theorem port_mem_allowedPorts (hend : n.type ≠ .end) {e : EdgeDef} (he : e ∈ d.outgoing id) :
    e.port ∈ allowedPorts n := by
  obtain ⟨r05, -, hok⟩ := no_error_of_rule h
  obtain ⟨hmem, rfl⟩ := Definition.mem_outgoing.mp he
  by_contra hport
  have hissue : issue 3 s!"Port '{e.port}' not valid for {n.type.value} node '{e.fromNode}'"
      none e.id ∈ edgeIssues d e := by
    simp [edgeIssues, hn, hend, hport]
  exact hok (rule03EdgesValid d) (by simp) _ (mem_rule03Loop hissue hmem) rfl

/-- Rule 13 leaves every port of a failable node of a lint-valid definition connected, unless
its errors continue. -/
theorem exists_edge_of_multiPort
    (hstrategy : (n.onErrorRaw.getStr? "strategy").getD "fail" ≠ "continue") {port : String}
    (hport : port ∈ multiPortNodes n.type) : ∃ e ∈ d.outgoing id, e.port = port := by
  obtain ⟨r05, -, hok⟩ := no_error_of_rule h
  by_contra hno
  have hnot : port ∉ (d.outgoing id).map EdgeDef.port := by
    rw [mem_map]
    exact hno
  have hid : id ∈ nodeIds d := by
    rw [nodeIds, mem_eraseDups]
    exact mem_map.mpr ⟨n, d.mem_of_nodesById hn, d.id_of_nodesById hn⟩
  have hissue : issue 13 (s!"Port '{port}' of {n.type.value} node '{id}' is not connected " ++
      "and on_error.strategy is not 'continue'") id ∈ rule13PortCoverage d := by
    simp only [rule13PortCoverage, mem_flatMap]
    refine ⟨id, hid, ?_⟩
    simp only [hn, mem_filterMap]
    exact ⟨port, hport, if_pos ⟨hnot, hstrategy⟩⟩
  exact hok (rule13PortCoverage d) (by simp) _ hissue rfl

/-- Rules 1 and 4 leave every node of a lint-valid definition reachable. -/
theorem mem_reachable_of_lintValid : id ∈ reachable d := by
  obtain ⟨r05, -, hok⟩ := no_error_of_rule h
  by_cases hentry : id = d.entryNodeId
  · subst hentry
    exact Search.subset_visitLoop _ (d.edges.length + 1) _ [d.entryNodeId] mem_cons_self
  by_contra hout
  have hid : id ∈ nodeIds d := by
    rw [nodeIds, mem_eraseDups]
    exact mem_map.mpr ⟨n, d.mem_of_nodesById hn, d.id_of_nodesById hn⟩
  have hissue : issue 4 s!"Node '{id}' is unreachable from the trigger" id ∈
      rule04Reachability d := by
    obtain ⟨entry, hsome⟩ := exists_entryNode h
    simp only [rule04Reachability, hsome, Option.isNone_some, Bool.false_eq_true, if_false, mem_map]
    refine ⟨id, mem_filter.mpr ⟨hid, ?_⟩, rfl⟩
    simp [hentry, hout]
  exact hok (rule04Reachability d) (by simp) _ hissue rfl

/-- **Rules 1, 4 and 5 leave a lint-valid definition without dead ends**, but for waits that
have no edge at all. -/
theorem outgoing_ne_nil (hend : n.type ≠ .end) :
    d.outgoing id ≠ [] ∨ n.type = .waitForEvent ∧ d.outgoing id = [] := by
  have hreach := mem_reachable_of_lintValid h hn
  obtain ⟨r05, h05, hok⟩ := no_error_of_rule h
  have hends : id ∉ endNodes d := by
    simp [endNodes, hn, hend]
  simp only [rule05Termination] at h05
  split at h05
  · obtain rfl := ok.inj h05
    exact absurd rfl (hok [issue 5 "Workflow has no end node"] (by simp) _ mem_cons_self)
  obtain ⟨reports, hreports, h05⟩ := exists_ok_of_bind h05
  obtain rfl := ok.inj h05
  obtain ⟨report, hmem, hreport⟩ := exists_of_mapM hreports id hreach
  simp only [terminationIssue] at hreport
  split at hreport
  · rename_i hreaches
    simp only [Bool.or_eq_true, contains_iff_mem] at hreaches
    obtain hmem' | hmem' := hreaches
    · exact absurd hmem' hends
    · exact .inl ((outgoing_of_canReachLoop _ hmem').resolve_left hends).2
  · simp only [hn] at hreport
    split at hreport
    · rename_i hwait
      exact .inr ⟨hwait.1, by simpa using hwait.2⟩
    · obtain rfl := ok.inj hreport
      exact absurd rfl (hok reports.flatten (by simp) _ (mem_flatten.mpr ⟨_, hmem, mem_cons_self⟩))

end Smap.Workflow
