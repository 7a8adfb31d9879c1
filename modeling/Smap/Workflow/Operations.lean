import Smap.Lib.Program
import Smap.Workflow.Store

/-!
# The atomic operations of a continuation

Each statement, Redis command, enqueue, call to a service and use of the context object
is one operation; continuations interleave between them.  `Op.act` says what an operation
does to the shared state and what it answers, `Op.record` what the continuation keeps of
it.  A conditional update that meets a row held by another transaction waits, so `act` is
`none` there.

Services outside the engine (agents, approvals, instructions, the clock) answer as the
schedule decides, through `Input`.
-/

namespace Smap.Workflow

open RowVersions

/-! ## Operations -/

/-- Uses of the `RunContext` and of the engine's list of pending jobs, and the call of an
executor with it. -/
inductive CtxOp where
  | create (d : Definition) (vars triggerPayload : JsonObject) (isDryRun : Bool)
  | get
  | cancel
  | arrive (fromEdge : Option String)
  | visit (nodeId : String)
  | invoke (nodeId : String) (type : NodeType)
  | assign (name : String) (value : Json)
  | pend (task : TaskName) (nodeId : String) (delayMs : ℤ) (fromEdge : Option String)
  | pendingCount

/-- Statements of `WorkflowRunRepository`. -/
inductive RunOp where
  | insert (row : RunRow)
  | get
  | updateState (state : RunState)
  | updateVariables (vars : JsonObject)

/-- Statements on `workflow_steps`. -/
inductive StepOp where
  | insertIfRunActive (nodeId : String) (input : JsonObject)
  | update (id : ℕ) (outcome : StepOutcome)
  | sealOpen (nodeId : String) (state : StepState) (resumePort : Option String)
  | cancelPendingForRun

/-- Redis commands. -/
inductive RedisOp where
  | setClaim (key : ClaimKey) (nodeId : String)
  | getClaim (key : ClaimKey)
  | getdelClaim (key : ClaimKey)
  | deleteClaim (key : ClaimKey)
  | restoreClaim (key : ClaimKey) (claim : Claim)
  | incrRetry (nodeId : String)
  | joinArrive (edges : List EdgeDef) (arrivedVia : Option String) (node : NodeSpec)

/-- Jobs sent to the queue: one directly, or the next of the pending ones. -/
inductive QueueOp where
  | enqueueJob (job : Job)
  | dispatchNext

/-- Calls that leave the engine. -/
inductive ServiceOp where
  | getWorkflow (includeDeleted : Bool)
  | now
  | a2aCall (agentId input : String)
  | lockChatroomScope (chatroomId : Json)
  | createApprovalGate (nodeId question : String)
  | issueInstruct (issuerId targetId instruction : String)
  | getApproval (id : String)
  | getLeaderVotes (id : String)
  | getInstruction (id : String)
  | markInstructTimeout (id : String)

/-- The operations.  `diverge` stands for a recursion without end: it never happens. -/
inductive Op where
  | ctx (o : CtxOp)
  | run (o : RunOp)
  | step (o : StepOp)
  | redis (o : RedisOp)
  | queue (o : QueueOp)
  | audit (e : AuditEvent)
  | service (o : ServiceOp)
  | commit
  | diverge

/-! ## Answers -/

/-- How a call to an agent comes back. -/
inductive CallReply where
  | ok (result : JsonObject)
  | cancelled
  | raised (error : String)

inductive ApprovalState where
  | pending
  | approved
  | rejected
  | timeoutLeader
  deriving DecidableEq, Repr

inductive InstructionState where
  | issued
  | delivered
  | completed
  | rejectedLoop
  | timeout
  deriving DecidableEq, Repr

/-- What the schedule answers for a service. -/
inductive Input where
  | none
  | now (t : ℚ)
  | call (reply : CallReply)
  | rejection (reason : Option String)
  | created (id : Except String String)
  | approval (state : Option ApprovalState)
  | votes (votes : List Bool)
  | instruction (state : Option InstructionState)
  | marked (timedOut : Option Bool)

@[reducible] def CtxOp.Res : CtxOp → Type
  | .get => RunContext
  | .visit _ | .pendingCount => ℕ
  | .create .. | .cancel | .arrive _ | .invoke .. | .assign .. | .pend .. => Unit

@[reducible] def RunOp.Res : RunOp → Type
  | .insert _ => Unit
  | .get => Option RunRow
  | .updateState _ | .updateVariables _ => Bool

@[reducible] def StepOp.Res : StepOp → Type
  | .insertIfRunActive .. => Option ℕ
  | .update .. | .sealOpen .. | .cancelPendingForRun => Unit

@[reducible] def RedisOp.Res : RedisOp → Type
  | .setClaim .. => ℕ
  | .getClaim _ | .getdelClaim _ => Option Claim
  | .deleteClaim _ | .restoreClaim .. => Unit
  | .incrRetry _ => ℕ
  | .joinArrive .. => Except String StepOutcome

@[reducible] def ServiceOp.Res : ServiceOp → Type
  | .getWorkflow _ => Option Definition
  | .now => ℚ
  | .a2aCall .. => CallReply
  | .lockChatroomScope _ => Option String
  | .createApprovalGate .. | .issueInstruct .. => Except String String
  | .getApproval _ => Option ApprovalState
  | .getLeaderVotes _ => List Bool
  | .getInstruction _ => Option InstructionState
  | .markInstructTimeout _ => Option Bool

@[reducible] def Op.Res : Op → Type
  | .ctx o => o.Res
  | .run o => o.Res
  | .step o => o.Res
  | .redis o => o.Res
  | .service o => o.Res
  | .queue _ | .audit _ | .commit | .diverge => Unit

/-! ## Effect on the shared state -/

def CtxOp.answer (l : Local) : (o : CtxOp) → o.Res
  | .get => l.ctx
  | .visit nodeId => l.ctx.nodeVisitCounts nodeId + 1
  | .pendingCount => l.pending.length
  | .create .. | .cancel | .arrive _ | .invoke .. | .assign .. | .pend .. => ()

/-- Statements on the run row, in the transaction of continuation `i`. -/
def RunOp.act (i : ℕ) (c : RunCell) : (o : RunOp) → Option (o.Res × RunCell)
  | .insert row => (c.insert i row).map fun c' => ((), c')
  | .get => some (c.seenBy i, c)
  | .updateState target =>
    c.update i (fun r => validTransition r.state target) (fun r => { r with state := target })
      (fun _ h => by simpa [RunState.isActive] using isActive_of_validTransition h)
  | .updateVariables vars =>
    c.update i (fun r => r.state.isActive) (fun r => { r with vars })
      (fun _ h => by simpa [RunState.isActive] using h)

/-- The run as continuation `i` sees it is running or waiting. -/
def runActive (row : Option RunRow) : Bool := row.any fun r => r.state.isActive

/-- `UPDATE workflow_steps … WHERE`, on every row that matches. -/
def updateSteps (i : ℕ) (p : StepRow → Bool) (f : StepRow → StepRow) :
    List StepCell → Option (List StepCell)
  | [] => some []
  | c :: rest =>
    match c.update i p f (fun _ _ => rfl), updateSteps i p f rest with
    | some (_, c'), some rest' => some (c' :: rest')
    | _, _ => none

variable {i : ℕ}

/-- Every step row after the statement comes from one before it. -/
theorem getElem?_updateSteps {p : StepRow → Bool} {f : StepRow → StepRow} :
    ∀ {cs cs' : List StepCell} {id : ℕ} {c' : StepCell}, updateSteps i p f cs = some cs' →
      cs'[id]? = some c' →
      ∃ c b, cs[id]? = some c ∧ c.update i p f (fun _ _ => rfl) = some (b, c')
  | [], cs', id, c', h, hc' => by simp_all [updateSteps]
  | c :: rest, cs', id, c', h, hc' => by
    simp only [updateSteps] at h
    split at h
    · rename_i b c₁ rest' hc hrest
      cases h
      cases id with
      | zero => exact ⟨c, b, rfl, by simp_all⟩
      | succ => simpa using getElem?_updateSteps hrest (by simpa using hc')
    · cases h

/-- `StepRecorder.update_step`: the outcome, ended unless the step stays open. -/
def StepRow.finish (outcome : StepOutcome) (s : StepRow) : StepRow :=
  { s with
    state := outcome.state
    ended := s.ended || !(outcome.state == .running || outcome.state == .pending)
    output := outcome.output
    error := outcome.error.or s.error }

/-- Seal an open step: `ended_at = now()`, and the port it was resumed at. -/
def StepRow.close (state : StepState) (resumePort : Option String) (s : StepRow) : StepRow :=
  { s with
    state
    ended := true
    output := match resumePort with
      | some port => s.output.set "resume_port" (.str port)
      | none => s.output }

def StepOp.act (i : ℕ) (w : World) : (o : StepOp) → Option (o.Res × List StepCell)
  | .insertIfRunActive nodeId input =>
    if runActive (w.run.seenBy i) then
      let row : StepRow :=
        { nodeId, state := .running, ended := false, input, output := [], error := none }
      match (Versioned.absent : StepCell).insert i row with
      | some c => some (some w.steps.length, w.steps ++ [c])
      | none => none
    else some (none, w.steps)
  | .update id outcome =>
    match w.steps[id]? with
    | none => some ((), w.steps)
    | some c =>
      (c.update i (fun _ => true) (StepRow.finish outcome) fun _ _ => rfl).map
        fun (_, c') => ((), w.steps.set id c')
  | .sealOpen nodeId state resumePort =>
    (updateSteps i (fun s => s.nodeId == nodeId && s.isOpen)
      (StepRow.close state resumePort) w.steps).map fun steps => ((), steps)
  | .cancelPendingForRun =>
    (updateSteps i (fun s => s.state == .pending || s.state == .running)
      (StepRow.close .cancelled none) w.steps).map fun steps => ((), steps)

/-- `redis.set` / `redis.delete` on a claim key. -/
def World.putClaim (w : World) (key : ClaimKey) (claim : Option Claim) : World :=
  { w with
    claims := Function.update w.claims key claim
    lastClaim := match key, claim with
      | .wait n, some c => Function.update w.lastClaim n (some c.park)
      | _, _ => w.lastClaim }

def RedisOp.act (runId : String) (w : World) : (o : RedisOp) → o.Res × World
  | .setClaim key nodeId =>
    (w.parks,
      { w.putClaim key (some { nodeId, park := w.parks }) with parks := w.parks + 1 })
  | .getClaim key => (w.claims key, w)
  | .getdelClaim key => (w.claims key, w.putClaim key none)
  | .deleteClaim key => ((), w.putClaim key none)
  | .restoreClaim key claim => ((), w.putClaim key (some claim))
  | .incrRetry nodeId =>
    (w.retries nodeId + 1,
      { w with retries := Function.update w.retries nodeId (w.retries nodeId + 1) })
  | .joinArrive edges arrivedVia node =>
    match joinExecute runId edges arrivedVia node w.joinKeys with
    | .ok (outcome, joinKeys) => (.ok outcome, { w with joinKeys })
    | .error e => (.error e, w)

def QueueOp.act (l : Local) (w : World) : QueueOp → World
  | .enqueueJob job => { w with queue := w.queue ++ [job] }
  | .dispatchNext => { w with queue := w.queue ++ (l.pending.take 1).map Pending.job }

/-- An audit row.  The row of a resume also marks the claim in hand as used. -/
def auditAct (l : Local) (w : World) (e : AuditEvent) : World :=
  match e, l.held with
  | .resumed .., some (_, claim) =>
    { w with audit := w.audit ++ [e], resumedParks := claim.park :: w.resumedParks }
  | _, _ => { w with audit := w.audit ++ [e] }

def ServiceOp.answer (w : World) (input : Input) : (o : ServiceOp) → Option o.Res
  | .getWorkflow includeDeleted =>
    some (if w.workflowDeleted && !includeDeleted then none else some w.workflow)
  | .now => match input with
      | .now t => some t
      | _ => none
  | .a2aCall .. => match input with
      | .call reply => some reply
      | _ => none
  | .lockChatroomScope _ => match input with
      | .rejection reason => some reason
      | _ => none
  | .createApprovalGate .. | .issueInstruct .. => match input with
      | .created id => some id
      | _ => none
  | .getApproval _ => match input with
      | .approval state => some state
      | _ => none
  | .getLeaderVotes _ => match input with
      | .votes votes => some votes
      | _ => none
  | .getInstruction _ => match input with
      | .instruction state => some state
      | _ => none
  | .markInstructTimeout _ => match input with
      | .marked timedOut => some timedOut
      | _ => none

/-- What an operation of continuation `i` does to the shared state, and its answer. -/
def Op.act (runId : String) (i : ℕ) :
    (o : Op) → Input → Local → World → Option (o.Res × World)
  | .ctx o, _, l, w => some (o.answer l, w)
  | .run o, _, _, w => (o.act i w.run).map fun (r, c) => (r, { w with run := c })
  | .step o, _, _, w => (o.act i w).map fun (r, cs) => (r, { w with steps := cs })
  | .redis o, _, _, w => some (o.act runId w)
  | .queue o, _, l, w => some ((), o.act l w)
  | .audit e, _, l, w => some ((), auditAct l w e)
  | .service o, input, _, w => (o.answer w input).map fun r => (r, w)
  | .commit, _, _, w =>
    some ((), { w with run := w.run.commit i, steps := w.steps.map fun c => c.commit i })
  | .diverge, _, _, _ => none

/-! ## What a continuation keeps -/

/-- `_pending_enqueues.append`: a timeout is armed by the last wait registered. -/
def Local.pend (l : Local) (task : TaskName) (nodeId : String) (delayMs : ℤ)
    (fromEdge : Option String) : Local :=
  let park := match l.lastPark with
    | some (_, park) => park
    | none => 0
  { l with pending := l.pending ++ [{ task, nodeId, delayMs, fromEdge, park }] }

def CtxOp.record (l : Local) : CtxOp → Local
  | .create d vars triggerPayload isDryRun =>
    { l with ctx := .initial d vars triggerPayload isDryRun, current := true, assigned := [] }
  | .get | .pendingCount => l
  | .cancel => { l with ctx := { l.ctx with cancelled := true } }
  | .arrive fromEdge => { l with ctx := { l.ctx with arrivedVia := fromEdge } }
  | .visit nodeId =>
    { l with ctx := { l.ctx with
        nodeVisitCounts := Function.update l.ctx.nodeVisitCounts nodeId
          (l.ctx.nodeVisitCounts nodeId + 1) } }
  | .invoke nodeId _ => { l with executed := nodeId :: l.executed }
  | .assign name value =>
    { l with
      ctx := { l.ctx with vars := l.ctx.vars.set name value }
      assigned := name :: l.assigned }
  | .pend task nodeId delayMs fromEdge => l.pend task nodeId delayMs fromEdge

/-- The row is gone or terminal, and not by the continuation's own hand. -/
def Local.findsDead (l : Local) (v : Option RunRow) : Bool := l.own.isNone && !runActive v

/-- Notes about a statement on the run row, which the continuation saw as `v`. -/
def RunOp.record (l : Local) (v : Option RunRow) : (o : RunOp) → o.Res → Local
  | .insert row, _ =>
    { l with own := some row.state, seen := true, sawDead := false, looked := row :: l.looked }
  | .get, (r : Option RunRow) =>
    { l with
      seen := l.seen || r.isSome
      sawDead := l.findsDead r
      looked := r.toList ++ l.looked }
  | .updateState target, (changed : Bool) =>
    { l with
      own := if changed then some target else l.own
      active := l.active || (changed && target == .running)
      settled := l.settled || target != .running
      claimSaw := if target = .running then v.map RunRow.state else l.claimSaw
      endSaw := if target = .succeeded then v.map RunRow.state else l.endSaw }
  | .updateVariables _, (changed : Bool) =>
    { l with
      own := if changed then v.map RunRow.state else l.own
      sawDead := if changed then l.sawDead else l.findsDead v }

def StepOp.record (l : Local) : (o : StepOp) → o.Res → Local
  | .insertIfRunActive nodeId _, (id : Option ℕ) =>
    { l with
      wrote := l.wrote || id.isSome
      entered := if id.isSome then nodeId :: l.entered else l.entered }
  | .sealOpen nodeId .., _ => { l with sealed := nodeId :: l.sealed, wrote := true }
  | .update .., _ | .cancelPendingForRun, _ => { l with wrote := true }

def RedisOp.record (l : Local) : (o : RedisOp) → o.Res → Local
  | .setClaim key _, (park : ℕ) =>
    { l with lastPark := match key with
        | .wait nodeId => some (nodeId, park)
        | .approval _ | .instruct _ => l.lastPark }
  | .getdelClaim key, (claim : Option Claim) =>
    { l with held := match claim with
        | some claim => some (key, claim)
        | none => l.held }
  | .restoreClaim .., _ => { l with held := none }
  | .getClaim _, _ | .deleteClaim _, _ | .incrRetry _, _ | .joinArrive .., _ => l

def QueueOp.record (l : Local) : QueueOp → Local
  | .enqueueJob _ => l
  | .dispatchNext => { l with pending := l.pending.drop 1 }

/-- What the continuation keeps of an operation, having seen the run row as `v`. -/
def Op.record (l : Local) (v : Option RunRow) : (o : Op) → o.Res → Local
  | .ctx o, _ => o.record l
  | .run o, r => o.record l v r
  | .step o, r => o.record l r
  | .redis o, r => o.record l r
  | .queue o, _ => o.record l
  | .audit (.resumed ..), _ => { l with held := none }
  | .audit _, _ | .service _, _ | .diverge, _ => l
  | .commit, _ =>
    { l with own := none, active := false, looked := [], current := false, wrote := false }

/-! ## What an operation can do -/

/-- The cases of `Op.act`: the answer and the shared state after each kind of operation. -/
inductive Effect (runId : String) (i : ℕ) (l : Local) (w : World) :
    (o : Op) → o.Res → World → Prop
  | ctx (o : CtxOp) : Effect runId i l w (.ctx o) (o.answer l) w
  | run (o : RunOp) (r : o.Res) (c : RunCell) (h : o.act i w.run = some (r, c)) :
      Effect runId i l w (.run o) r { w with run := c }
  | step (o : StepOp) (r : o.Res) (cs : List StepCell) (h : o.act i w = some (r, cs)) :
      Effect runId i l w (.step o) r { w with steps := cs }
  | redis (o : RedisOp) : Effect runId i l w (.redis o) (o.act runId w).1 (o.act runId w).2
  | queue (o : QueueOp) : Effect runId i l w (.queue o) () (o.act l w)
  | audit (e : AuditEvent) : Effect runId i l w (.audit e) () (auditAct l w e)
  | service (o : ServiceOp) (r : o.Res) : Effect runId i l w (.service o) r w
  | commit : Effect runId i l w .commit ()
      { w with run := w.run.commit i, steps := w.steps.map fun c => c.commit i }

theorem effect_of_act {runId : String} {o : Op} {input : Input} {l : Local} {w w' : World}
    {r : o.Res} (h : o.act runId i input l w = some (r, w')) : Effect runId i l w o r w' := by
  cases o with
  | ctx o =>
    cases h
    exact .ctx o
  | run o =>
    obtain ⟨⟨r', c⟩, hact, heq⟩ := Option.map_eq_some_iff.mp h
    obtain ⟨rfl, rfl⟩ := Prod.mk.inj heq
    exact .run o r' c hact
  | step o =>
    obtain ⟨⟨r', cs⟩, hact, heq⟩ := Option.map_eq_some_iff.mp h
    obtain ⟨rfl, rfl⟩ := Prod.mk.inj heq
    exact .step o r' cs hact
  | redis o =>
    have heq : o.act runId w = (r, w') := Option.some.inj h
    have hredis : Effect runId i l w (.redis o) (o.act runId w).1 (o.act runId w).2 := .redis o
    rwa [heq] at hredis
  | queue o =>
    cases h
    exact .queue o
  | audit e =>
    cases h
    exact .audit e
  | service o =>
    obtain ⟨r', -, heq⟩ := Option.map_eq_some_iff.mp h
    obtain ⟨rfl, rfl⟩ := Prod.mk.inj heq
    exact .service o r'
  | commit =>
    cases h
    exact .commit
  | diverge => cases h

section Frame

variable (runId : String) (l : Local) (w : World)

@[simp] theorem RedisOp.act_keeps (o : RedisOp) : (o.act runId w).2.run = w.run ∧
    (o.act runId w).2.steps = w.steps ∧ (o.act runId w).2.queue = w.queue := by
  cases o with
  | joinArrive =>
    simp only [RedisOp.act]
    split <;> simp
  | _ => exact ⟨rfl, rfl, rfl⟩

@[simp] theorem QueueOp.act_run (o : QueueOp) : (o.act l w).run = w.run := by
  cases o <;> rfl

@[simp] theorem QueueOp.act_steps (o : QueueOp) : (o.act l w).steps = w.steps := by
  cases o <;> rfl

@[simp] theorem auditAct_keeps (e : AuditEvent) : (auditAct l w e).run = w.run ∧
    (auditAct l w e).steps = w.steps ∧ (auditAct l w e).queue = w.queue := by
  unfold auditAct
  split <;> simp

end Frame

end Smap.Workflow
