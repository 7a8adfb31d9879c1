import Smap.Chains.Payload
import Smap.Lib.Trails

/-!
# A2A envelopes and what they start

An agent or a workflow run sends another agent an envelope; the envelope travels as JSON
through a Redis stream, its handler runs a turn of the target and relays it as a
`workflow_signal`, and the trigger dispatch may start further runs from the signal.  Three
chains ride along: the callees of nested synchronous calls, the issuers of nested
instructions, and the workflows whose runs caused the envelope.

The sources are `orchestration/domain/models.py` (`A2AEnvelope`),
`orchestration/application/{a2a_call_chain,a2a_service,a2a_handler}.py`,
`orchestration/application/{instruct_chain,instruct_service}.py`,
`workflow/application/executors/{agent_invocation,instruct}.py` and
`app/workers/tasks/workflow_signals.py`.

What other services answer (capabilities, counts, clocks, the scope check of a send) is an
argument of the function that asks.  Left out are the identity, the correlation and the
creation time of an envelope, audit events and metrics.
-/

namespace Smap.Chains

open Smap.Workflow Smap.Lib

def a2aCallMaxDepth : ℚ := 8

def instructMaxChainDepth : ℤ := 5

def instructMaxChainDepthHard : ℤ := 20

def instructMaxPerWakeup : ℤ := 5

def instructMaxChainSeconds : ℤ := 120

def triggerMaxChainDepth : ℤ := 10

inductive A2AMessageType where
  | call
  | reply
  | notify
  | instruct
  deriving DecidableEq

def A2AMessageType.value : A2AMessageType → String
  | .call => "call"
  | .reply => "reply"
  | .notify => "notify"
  | .instruct => "instruct"

/-- `A2AMessageType(value)`. -/
def A2AMessageType.ofValue? (s : String) : Option A2AMessageType :=
  [call, reply, notify, instruct].find? fun t => t.value == s

/-- The wire format of a message between agents.  The counter of a call can come from a
payload, so it need not be whole before it has been read back. -/
structure A2AEnvelope (Uuid : Type) where
  fromAgent : Option Uuid
  toAgent : String
  workflowRunId : Option Uuid
  type : A2AMessageType
  payload : JsonObject
  callDepth : ℚ := 0
  callPath : List Json := []
  triggerDepth : ℤ := 0
  triggerPath : List Json := []

variable {Uuid : Type} (T : Texts Uuid)

namespace A2AEnvelope

/-- The chain of synchronous calls an envelope carries. -/
def callTrail (e : A2AEnvelope Uuid) : Trail ℚ Json := ⟨e.callDepth, e.callPath⟩

/-- The workflows an envelope was caused by. -/
def triggerTrail (e : A2AEnvelope Uuid) : Trail ℤ Json := ⟨e.triggerDepth, e.triggerPath⟩

/-- `str(x) if x else None`. -/
def optionalId (u : Option Uuid) : Json := (u.map fun u => Json.str (T.str u)).getD .null

def toDict (e : A2AEnvelope Uuid) : JsonObject :=
  [("from_agent", optionalId T e.fromAgent),
   ("to_agent", .str e.toAgent),
   ("workflow_run_id", optionalId T e.workflowRunId),
   ("type", .str e.type.value),
   ("payload", .obj e.payload),
   ("call_depth", ofNumber e.callDepth),
   ("call_path", .arr e.callPath),
   ("trigger_depth", .int e.triggerDepth),
   ("trigger_path", .arr e.triggerPath)]

/-- `uuid.UUID(data[key]) if data.get(key) else None`. -/
def readId? (data : JsonObject) (key : String) : Option (Option Uuid) :=
  match (data.get? key).filter Json.truthy with
  | none => some none
  | some (.str s) => (T.parse s).map some
  | some _ => none

/-- `data.get("payload") or {}`. -/
def readPayload? (data : JsonObject) : Option JsonObject :=
  match getOr data "payload" (.obj []) with
  | .obj fields => some fields
  | _ => none

def fromDict (data : JsonObject) : Option (A2AEnvelope Uuid) := do
  let fromAgent ← readId? T data "from_agent"
  let toAgent ← data.getStr? "to_agent"
  let workflowRunId ← readId? T data "workflow_run_id"
  let type ← (data.getStr? "type").bind A2AMessageType.ofValue?
  let payload ← readPayload? data
  let callDepth ← toInt? T ((data.get? "call_depth").getD (.int 0))
  let callPath ← items? (getOr data "call_path" (.arr []))
  let triggerDepth ← toInt? T ((data.get? "trigger_depth").getD (.int 0))
  let triggerPath ← items? (getOr data "trigger_path" (.arr []))
  some { fromAgent, toAgent, workflowRunId, type, payload, callDepth, callPath,
         triggerDepth, triggerPath }

/-- What the consumer reads of an envelope that was sent. -/
def received (e : A2AEnvelope Uuid) : A2AEnvelope Uuid :=
  { e with callDepth := truncate e.callDepth }

@[simp] theorem ofValue?_value (t : A2AMessageType) : A2AMessageType.ofValue? t.value = some t := by
  cases t <;> decide

variable {data : JsonObject}

theorem readId?_optionalId {key : String} {u : Option Uuid}
    (h : data.get? key = some (optionalId T u)) : readId? T data key = some u := by
  cases u <;> simp [readId?, h, optionalId, Option.filter, Json.truthy]

theorem readPayload?_of_get? {fields : JsonObject} (h : data.get? "payload" = some (.obj fields)) :
    readPayload? data = some fields := by
  cases fields <;> simp [readPayload?, getOr, orDefault, h, Option.filter, Json.truthy]

/-- Sending an envelope changes nothing but a counter that was not whole. -/
theorem fromDict_toDict (e : A2AEnvelope Uuid) : fromDict T (e.toDict T) = some e.received := by
  have hfrom : readId? T (e.toDict T) "from_agent" = some e.fromAgent := readId?_optionalId T rfl
  have hrun : readId? T (e.toDict T) "workflow_run_id" = some e.workflowRunId :=
    readId?_optionalId T rfl
  have hpayload : readPayload? (e.toDict T) = some e.payload := readPayload?_of_get? rfl
  have hto : (e.toDict T).getStr? "to_agent" = some e.toAgent := rfl
  have htype : (e.toDict T).getStr? "type" = some e.type.value := rfl
  have hcall : (e.toDict T).get? "call_depth" = some (ofNumber e.callDepth) := rfl
  have hcallPath : (e.toDict T).get? "call_path" = some (.arr e.callPath) := rfl
  have htrigger : (e.toDict T).get? "trigger_depth" = some (.int e.triggerDepth) := rfl
  have htriggerPath : (e.toDict T).get? "trigger_path" = some (.arr e.triggerPath) := rfl
  have hint : toInt? T (.int e.triggerDepth) = some e.triggerDepth := rfl
  simp [fromDict, getOr, hfrom, hrun, hpayload, hto, htype, hcall, hcallPath, htrigger,
    htriggerPath, hint, received]

end A2AEnvelope

/-! ## Synchronous calls -/

inductive CallError where
  /-- `A2ACallLoop`: the callee is on the call stack. -/
  | loop (callee : String) (path : List Json)
  /-- `A2ACallDepthExceeded`. -/
  | depthExceeded (depth : ℚ) (path : List Json)
  /-- The chain that came with the request cannot be read. -/
  | unreadable
  /-- The call was cancelled or the send was refused. -/
  | notSent

/-- `a2a_call_chain.next_hop`.  `depth` and `path` are those of the chain to extend. -/
def nextHop (callee : String) (depth : Json) (path : List Json) :
    Except CallError (Trail ℚ Json) :=
  if hasText callee path then
    .error (.loop callee path)
  else
    match number? depth with
    | none => .error .unreadable
    | some d =>
      if a2aCallMaxDepth < d + 1 then
        .error (.depthExceeded (d + 1) path)
      else
        .ok ⟨d + 1, path ++ [.str callee]⟩

/-- The arguments of `A2AService.call` that the chains depend on. -/
structure CallRequest (Uuid : Type) where
  fromAgentId : Option Uuid
  toAgentId : Uuid
  payload : JsonObject
  workflowRunId : Option Uuid := none
  inboundCallDepth : Option Json := none
  inboundCallPath : Option Json := none
  triggerDepth : ℤ := 0
  triggerPath : List Json := []

/-- The chain a call extends: the one that came with the request, or else the one bound by
the enclosing turn. -/
def CallRequest.base (request : CallRequest Uuid) (current : Trail ℚ Json) :
    Except CallError (Json × List Json) :=
  if request.inboundCallDepth.isSome || request.inboundCallPath.isSome then
    match items? (orDefault request.inboundCallPath (.arr [])) with
    | none => .error .unreadable
    | some path => .ok (orDefault request.inboundCallDepth (.int 0), path)
  else
    .ok (ofNumber current.depth, current.path)

/-- `A2AService.call` up to the send.  `current` is the chain of the enclosing turn, and
`sent` says whether the call was neither cancelled nor refused. -/
def call (current : Trail ℚ Json) (request : CallRequest Uuid) (sent : Bool) :
    Except CallError (A2AEnvelope Uuid) := do
  let (depth, path) ← request.base current
  let chain ← nextHop (T.str request.toAgentId) depth path
  if sent then
    .ok { fromAgent := request.fromAgentId
          toAgent := T.str request.toAgentId
          workflowRunId := request.workflowRunId
          type := .call
          payload := request.payload
          callDepth := chain.depth
          callPath := chain.path
          triggerDepth := request.triggerDepth
          triggerPath := request.triggerPath }
  else
    .error .notSent

/-- The chain a call extends, as numbers and identifiers. -/
def CallRequest.trail? (request : CallRequest Uuid) (current : Trail ℚ Json) :
    Option (Trail ℚ Json) :=
  match request.base current with
  | .ok (depth, path) => (number? depth).map fun d => ⟨d, path⟩
  | .error _ => none

theorem nextHop_eq_ok {callee : String} {depth : Json} {path : List Json} {t : Trail ℚ Json}
    (h : nextHop callee depth path = .ok t) :
    ∃ d, number? depth = some d ∧ Json.str callee ∉ path ∧
      t = (⟨d, path⟩ : Trail ℚ Json).push (.str callee) ∧ t.depth ≤ a2aCallMaxDepth := by
  unfold nextHop at h
  split at h
  · cases h
  case isFalse hfresh =>
    split at h
    · cases h
    case h_2 d hd =>
      split at h
      · cases h
      case isFalse hcap =>
        obtain rfl := Except.ok.inj h
        exact ⟨d, hd, by simpa using hfresh, rfl, not_lt.mp hcap⟩

variable {e : A2AEnvelope Uuid}

/-- An accepted call is one hop on the chain it extends. -/
theorem call_eq_ok {current : Trail ℚ Json} {request : CallRequest Uuid} {sent : Bool}
    (h : call T current request sent = .ok e) :
    ∃ t, request.trail? current = some t ∧ t.Extends a2aCallMaxDepth e.callTrail ∧
      e.triggerTrail = ⟨request.triggerDepth, request.triggerPath⟩ ∧
      e.payload = request.payload := by
  unfold call at h
  cases hbase : request.base current with
  | error err =>
    rw [hbase] at h
    cases h
  | ok base =>
    obtain ⟨depth, path⟩ := base
    cases hhop : nextHop (T.str request.toAgentId) depth path with
    | error err => simp [hbase, hhop, bind, Except.bind] at h
    | ok chain =>
      obtain ⟨d, hd, hfresh, rfl, hcap⟩ := nextHop_eq_ok hhop
      cases sent with
      | false => simp [hbase, hhop, bind, Except.bind] at h
      | true =>
        simp only [hbase, hhop, bind, Except.bind, ↓reduceIte, Except.ok.injEq] at h
        subst h
        exact ⟨⟨d, path⟩, by simp [CallRequest.trail?, hbase, hd], ⟨_, hfresh, rfl, hcap⟩, rfl, rfl⟩

/-! ## Instructions -/

structure Instruction (Uuid : Type) where
  id : Uuid
  chainId : Uuid
  path : List Uuid
  depth : ℕ
  issuerAgentId : Uuid
  targetAgentId : Uuid
  payload : JsonObject
  state : InstructionState

/-- The instruct chain bound for a turn: the chain, if there is one, and the path of the
delivered instruction. -/
structure InstructChain (Uuid : Type) where
  chainId : Option Uuid := none
  parentPath : List Uuid := []

/-- The arguments of `InstructService.issue`. -/
structure IssueRequest (Uuid : Type) where
  issuerAgentId : Uuid
  targetAgentId : Uuid
  payload : JsonObject
  workflowRunId : Option Uuid := none
  chainId : Option Uuid := none
  parentPath : List Uuid := []
  maxChainDepth : ℤ := instructMaxChainDepth
  maxPerWakeup : ℤ := instructMaxPerWakeup
  maxChainSeconds : ℤ := instructMaxChainSeconds
  triggerDepth : ℤ := 0
  triggerPath : List Json := []

/-- What `issue` is told by the services it asks. -/
structure IssueAnswers (Uuid : Type) where
  /-- `uuid.uuid4()`, for the chain and for the instruction. -/
  newChainId : Uuid
  newId : Uuid
  canInstruct : Bool
  /-- The instructions the issuer has issued in the window, if there is a window. -/
  issuedInWindow : Option ℤ
  /-- The age of the chain in seconds, if it has begun. -/
  elapsed : Option ℚ
  /-- The send was not refused. -/
  sent : Bool

inductive IssueError (Uuid : Type) where
  | capabilityDenied (issuer : Uuid)
  /-- A cycle; the row that records the rejection is inserted. -/
  | loopDetected (rejected : Instruction Uuid)
  | depthExceeded (depth : ℕ) (max : ℤ)
  | windowExceeded (count : ℤ) (max : ℤ)
  | timeExceeded (elapsed : ℚ) (max : ℤ)
  /-- The send was refused; the row inserted before it is deleted. -/
  | notSent

section Issue

variable [DecidableEq Uuid]

/-- The chain an instruction continues: an explicit one, or else that of the enclosing
turn. -/
def IssueRequest.chain (request : IssueRequest Uuid) (current : InstructChain Uuid) :
    InstructChain Uuid :=
  if request.chainId.isNone && request.parentPath.isEmpty && current.chainId.isSome then
    current
  else
    ⟨request.chainId, request.parentPath⟩

/-- The payload of the envelope that delivers an instruction: what the caller passed hides
what the service writes. -/
def envelopePayload (i : Instruction Uuid) : JsonObject :=
  merge
    [("instruction_id", .str (T.str i.id)),
     ("chain_id", .str (T.str i.chainId)),
     ("path", .arr (i.path.map fun u => .str (T.str u))),
     ("depth", .int i.depth)]
    i.payload

/-- `InstructService.issue`. -/
def issue (current : InstructChain Uuid) (request : IssueRequest Uuid)
    (answers : IssueAnswers Uuid) :
    Except (IssueError Uuid) (Instruction Uuid × A2AEnvelope Uuid) :=
  let chain := request.chain current
  let path := chain.parentPath ++ [request.issuerAgentId]
  let effectiveDepth := min request.maxChainDepth instructMaxChainDepthHard
  let instruction : Instruction Uuid :=
    { id := answers.newId
      chainId := chain.chainId.getD answers.newChainId
      path
      depth := path.length
      issuerAgentId := request.issuerAgentId
      targetAgentId := request.targetAgentId
      payload := request.payload
      state := .issued }
  if !answers.canInstruct then
    .error (.capabilityDenied request.issuerAgentId)
  else if request.targetAgentId ∈ path then
    .error (.loopDetected { instruction with state := .rejectedLoop })
  else if effectiveDepth ≤ path.length then
    .error (.depthExceeded path.length effectiveDepth)
  else if answers.issuedInWindow.any fun count => request.maxPerWakeup ≤ count then
    .error (.windowExceeded (answers.issuedInWindow.getD 0) request.maxPerWakeup)
  else if answers.elapsed.any fun seconds => (request.maxChainSeconds : ℚ) ≤ seconds then
    .error (.timeExceeded (answers.elapsed.getD 0) request.maxChainSeconds)
  else if !answers.sent then
    .error .notSent
  else
    .ok (instruction,
      { fromAgent := some request.issuerAgentId
        toAgent := T.str request.targetAgentId
        workflowRunId := request.workflowRunId
        type := .instruct
        payload := envelopePayload T instruction
        triggerDepth := request.triggerDepth
        triggerPath := request.triggerPath })

/-- What holds of an accepted instruction and of the envelope that delivers it. -/
structure Issued (current : InstructChain Uuid) (request : IssueRequest Uuid)
    (i : Instruction Uuid) (e : A2AEnvelope Uuid) : Prop where
  path : i.path = (request.chain current).parentPath ++ [request.issuerAgentId]
  issuer : i.issuerAgentId = request.issuerAgentId
  target : i.targetAgentId ∉ i.path
  depth : (i.path.length : ℤ) < min request.maxChainDepth instructMaxChainDepthHard
  payload : i.payload = request.payload
  delivered : e.payload = envelopePayload T i
  trigger : e.triggerTrail = ⟨request.triggerDepth, request.triggerPath⟩

theorem issue_eq_ok {current : InstructChain Uuid} {request : IssueRequest Uuid}
    {answers : IssueAnswers Uuid} {i : Instruction Uuid}
    (h : issue T current request answers = .ok (i, e)) : Issued T current request i e := by
  simp only [issue] at h
  split at h
  · cases h
  split at h
  · cases h
  case isFalse hloop =>
    split at h
    · cases h
    case isFalse hdepth =>
      split at h
      · cases h
      split at h
      · cases h
      split at h
      · cases h
      obtain ⟨rfl, rfl⟩ := Prod.mk.inj (Except.ok.inj h)
      exact ⟨rfl, rfl, hloop, not_le.mp hdepth, rfl, rfl, rfl⟩

end Issue

/-! ## The executors of a workflow run -/

/-- A run, as far as the executors that send envelopes read it. -/
structure Run (Uuid : Type) where
  runId : Uuid
  workflowId : Uuid
  triggerPayload : JsonObject

/-- The workflows a run was caused by, as its payload has them. -/
def Run.triggerTrail? (r : Run Uuid) : Option (Trail ℤ Json) := do
  let depth ← toInt? T (getOr r.triggerPayload "trigger_depth" (.int 0))
  let path ← items? (getOr r.triggerPayload "trigger_path" (.arr []))
  some ⟨depth, path⟩

/-- `out_trigger_depth`, `out_trigger_path`: the run's own workflow is added. -/
def Run.outTrigger? (r : Run Uuid) : Option (Trail ℤ Json) :=
  (r.triggerTrail? T).map fun t => t.push (.str (T.str r.workflowId))

/-- The call of the `agent_invocation` executor. -/
def agentInvocation (current : Trail ℚ Json) (r : Run Uuid) (agentId : Uuid)
    (renderedInput : String) (sent : Bool) : Except CallError (A2AEnvelope Uuid) :=
  match r.outTrigger? T with
  | none => .error .unreadable
  | some out =>
    call T current
      { fromAgentId := none
        toAgentId := agentId
        payload := [("input", .str renderedInput), ("origin", .str "workflow")]
        workflowRunId := some r.runId
        inboundCallDepth := getValue? r.triggerPayload "call_depth"
        inboundCallPath := getValue? r.triggerPayload "call_path"
        triggerDepth := out.depth
        triggerPath := out.path }
      sent

/-- What the `instruct` executor asks for; nothing if its payload cannot be read. -/
def Run.issueRequest? (r : Run Uuid) (issuerId targetId : Uuid) (rendered : String) :
    Option (IssueRequest Uuid) := do
  let parentPath ← asUuids T (r.triggerPayload.get? "chain_path")
  let out ← r.outTrigger? T
  some
    { issuerAgentId := issuerId
      targetAgentId := targetId
      payload := [("instruction", .str rendered), ("origin", .str "workflow")]
      workflowRunId := some r.runId
      chainId := (r.triggerPayload.get? "chain_id").bind (asUuid T)
      parentPath
      triggerDepth := out.depth
      triggerPath := out.path }

/-! ## The inbox handler -/

/-- `a2a_call_chain.enter` for the turn of a call. -/
def boundCallChain (e : A2AEnvelope Uuid) : Trail ℚ Json := e.callTrail

/-- `instruct_chain.enter` for the turn of an instruction; nothing if the path cannot be
read. -/
def boundInstructChain? (e : A2AEnvelope Uuid) : Option (InstructChain Uuid) := do
  let parentPath ← asUuids T (e.payload.get? "path")
  some ⟨(e.payload.get? "chain_id").bind (asUuid T), parentPath⟩

/-- `_dispatch_a2a_workflow_signal`: what an envelope tells the workflows. -/
def workflowSignal (e : A2AEnvelope Uuid) : JsonObject :=
  [("target_agent_id", .str e.toAgent),
   ("msg_type", .str e.type.value),
   ("call_depth", ofNumber e.callDepth),
   ("call_path", .arr e.callPath),
   ("chain_id", (e.payload.get? "chain_id").getD .null),
   ("chain_path", (e.payload.get? "path").getD .null),
   ("trigger_depth", .int e.triggerDepth),
   ("trigger_path", .arr e.triggerPath)]

/-! ## The trigger dispatch -/

inductive SkipReason where
  | cycle
  | maxDepth
  deriving DecidableEq

/-- What became of the workflows whose trigger matched a signal. -/
structure Dispatch (Uuid : Type) where
  /-- The `run_triggered_workflow` jobs. -/
  started : List (Uuid × JsonObject)
  skipped : List (Uuid × SkipReason)

/-- The loop of `_enqueue_triggers`. -/
def enqueueEach (payload : JsonObject) (triggerType : String) (inboundPath : List String)
    (inboundDepth : ℤ) : List Uuid → Dispatch Uuid
  | [] => ⟨[], []⟩
  | wf :: rest =>
    let d := enqueueEach payload triggerType inboundPath inboundDepth rest
    if T.str wf ∈ inboundPath then
      { d with skipped := (wf, .cycle) :: d.skipped }
    else if triggerMaxChainDepth ≤ inboundDepth then
      { d with skipped := (wf, .maxDepth) :: d.skipped }
    else
      { d with started := (wf, merge [("trigger_type", .str triggerType)] payload) :: d.started }

/-- `_enqueue_triggers`. -/
def enqueueTriggers (payload : JsonObject) (wfIds : List Uuid) (triggerType : String) :
    Option (Dispatch Uuid) := do
  let path ← items? (getOr payload "trigger_path" (.arr []))
  let depth ← toInt? T (getOr payload "trigger_depth" (.int 0))
  some (enqueueEach T payload triggerType (path.map T.text) depth wfIds)

theorem mem_started_enqueueEach {payload : JsonObject} {triggerType : String}
    {inboundPath : List String} {inboundDepth : ℤ} {wfIds : List Uuid} {wf : Uuid} {tp : JsonObject}
    (h : (wf, tp) ∈ (enqueueEach T payload triggerType inboundPath inboundDepth wfIds).started) :
    T.str wf ∉ inboundPath ∧ inboundDepth < triggerMaxChainDepth ∧
      tp = merge [("trigger_type", .str triggerType)] payload := by
  induction wfIds with
  | nil => simp [enqueueEach] at h
  | cons wf' rest ih =>
    simp only [enqueueEach] at h
    split at h
    · exact ih h
    case isFalse hpath =>
      split at h
      · exact ih h
      case isFalse hdepth =>
        rcases List.mem_cons.mp h with heq | h
        · cases heq
          exact ⟨hpath, not_le.mp hdepth, rfl⟩
        · exact ih h

/-- A run started by an envelope: the envelope was sent and read, the signal matched the
run's workflow, and the dispatch did not skip it. -/
def Starts (e : A2AEnvelope Uuid) (r : Run Uuid) : Prop :=
  ∃ e', A2AEnvelope.fromDict T (e.toDict T) = some e' ∧
    ∃ wfIds d, enqueueTriggers T (workflowSignal e') wfIds "a2a_event" = some d ∧
      (r.workflowId, r.triggerPayload) ∈ d.started

/-- What a run carries of the envelope that started it. -/
structure Carries (e : A2AEnvelope Uuid) (r : Run Uuid) : Prop where
  fresh : Json.str (T.str r.workflowId) ∉ e.triggerPath
  depth : e.triggerDepth < triggerMaxChainDepth
  trigger : r.triggerTrail? T = some e.triggerTrail
  callDepth : getValue? r.triggerPayload "call_depth" = some (ofNumber (truncate e.callDepth))
  callPath : getValue? r.triggerPayload "call_path" = some (.arr e.callPath)
  chainId : r.triggerPayload.get? "chain_id" = some ((e.payload.get? "chain_id").getD .null)
  chainPath : r.triggerPayload.get? "chain_path" = some ((e.payload.get? "path").getD .null)

/-- A number is not `None`. -/
theorem ofNumber_ne_null (q : ℚ) : ofNumber q ≠ .null := by
  by_cases h : q.den = 1 <;> simp [ofNumber, h]

theorem getValue?_eq_some {o : JsonObject} {key : String} {v : Json} (h : o.get? key = some v)
    (hv : v ≠ .null) : getValue? o key = some v := by
  unfold getValue?
  rw [h]
  cases v with
  | null => exact absurd rfl hv
  | _ => rfl

theorem Starts.carries {r : Run Uuid} (h : Starts T e r) : Carries T e r := by
  obtain ⟨e', he', wfIds, d, hd, hr⟩ := h
  rw [A2AEnvelope.fromDict_toDict, Option.some.injEq] at he'
  subst he'
  have hdepth : (workflowSignal e.received).get? "trigger_depth" = some (.int e.triggerDepth) := rfl
  have hpath : (workflowSignal e.received).get? "trigger_path" = some (.arr e.triggerPath) := rfl
  have hd' : d = enqueueEach T (workflowSignal e.received) "a2a_event" (e.triggerPath.map T.text)
      e.triggerDepth wfIds := by
    simpa [enqueueTriggers, getOr, hdepth, hpath, eq_comm] using hd
  rw [hd'] at hr
  obtain ⟨hfresh, hlt, htp⟩ := mem_started_enqueueEach T hr
  -- The signal's own keys hide `trigger_type`, which none of the readers below asks for.
  have hget : ∀ key v, (workflowSignal e.received).get? key = some v →
      r.triggerPayload.get? key = some v := by
    intro key v hv
    rw [htp, get?_merge, hv, Option.some_or]
  constructor
  · intro hmem
    exact hfresh (List.mem_map.mpr ⟨_, hmem, T.text_str _⟩)
  · exact hlt
  · simp [Run.triggerTrail?, getOr, hget _ _ hdepth, hget _ _ hpath, A2AEnvelope.triggerTrail]
  · exact getValue?_eq_some (hget _ _ rfl) (ofNumber_ne_null _)
  · exact getValue?_eq_some (hget _ _ rfl) (by simp)
  · exact hget _ _ rfl
  · exact hget _ _ rfl

end Smap.Chains
