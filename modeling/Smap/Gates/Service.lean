import Mathlib.Data.List.Sort
import Smap.Gates.Votes
import Smap.Lib.Expiring
import Smap.Lib.Roles
import Smap.Lib.Tables

/-!
# Approval gates

The transactions on one approval gate: `ApprovalService.cast_vote` and `handle_timeout`
(`contexts/orchestration/application/approval_service.py`) and the job that resumes the
workflow run behind it (`workflow_resume_approval`, `app/workers/tasks/workflow_approvals.py`).
The gate has been created and its row is committed.

Each call runs in a session of its own.  Its statements see the committed rows and its
own; the gate and the ballots are rows under `RowVersions`, so a statement on a row that
another session has written waits for its commit.  The audit trail is part of the session
too.  Redis keys and enqueued jobs take effect at once.
-/

namespace Smap.Gates

open Program RowVersions Expiring Approval

def second : Time := 1000000

/-! ## The store -/

/-- The gate is decided. -/
def Approval.resolved (a : Approval) : Bool := a.state ≠ .pending

inductive LeaderVerdict where
  | approved
  | rejected
  | noVote
  deriving DecidableEq

/-- The audit event `approval.resolved`. -/
structure ResolvedEvent where
  state : ApprovalState
  /-- `vote_count`, `approve_count` and `reject_count`, if votes have decided. -/
  counts : Option (ℕ × ℕ × ℕ)
  leaderVerdict : Option LeaderVerdict
  reason : Option String
  deriving DecidableEq

/-- The output ports of `approval_gate`. -/
inductive Port where
  | approved
  | rejected
  | timeout
  deriving DecidableEq

def Port.value : Port → String
  | .approved => "approved"
  | .rejected => "rejected"
  | .timeout => "timeout"

/-- What the key `wf:approval:{id}` holds: the run and the node that wait. -/
structure Claim where
  runId : Uuid
  nodeId : String
  deriving DecidableEq

structure World where
  clock : Time
  approval : Versioned Approval resolved
  votes : Table Uuid ApprovalVote
  /-- Audit events of sessions that have not committed. -/
  openEvents : List (ℕ × ResolvedEvent)
  events : List ResolvedEvent
  claim : Keyspace Unit Claim
  /-- The attempts of the resume jobs that have been enqueued. -/
  jobs : List ℕ
  /-- The calls of `RunEngine.resume_at_port`. -/
  resumptions : List (Claim × Port)

namespace World

/-- `list_for_approval`: ballots in the order they were cast. -/
def listForApproval (w : World) (i : ℕ) : List ApprovalVote :=
  (w.votes.select i fun _ => true).insertionSort fun v v' => v.castAt ≤ v'.castAt

def commit (w : World) (i : ℕ) : World :=
  { w with
    approval := w.approval.commit i
    votes := w.votes.commit i
    openEvents := w.openEvents.filter (·.1 ≠ i)
    events := w.events ++ (w.openEvents.filter (·.1 = i)).map Prod.snd }

/-- `TTL key` in whole seconds: -2 without the key, -1 if it does not expire. -/
def ttl (w : World) : ℤ :=
  match live w.claim w.clock () with
  | none => -2
  | some ⟨_, none⟩ => -1
  | some ⟨_, some d⟩ => ((d - w.clock) / second : ℕ)

/-- A gate whose row has just been committed; its run may be waiting. -/
def initial (gate : Approval) (clock : Time) (claim : Keyspace Unit Claim) : World where
  clock := clock
  approval := { committed := some gate, draft := none, live := by simp }
  votes := .empty
  openEvents := []
  events := []
  claim := claim
  jobs := []
  resumptions := []

end World

/-! ## Operations -/

inductive Op where
  | now
  | getApproval
  | cast (v : ApprovalVote)
  | listForApproval
  | updateState (state : ApprovalState) (endedAt : Option Time)
  | emit (e : ResolvedEvent)
  | commit
  | getClaim
  | expireClaim (seconds : ℕ)
  | deleteClaim
  | ttlClaim
  | getdelClaim
  | setClaim (c : Claim) (seconds : ℕ)
  | enqueueResume (attempt : ℕ)
  | resumeAtPort (c : Claim) (port : Port)
  | runIsTerminal (run : Uuid)

def Res : Op → Type
  | .now => Time
  | .getApproval => Option Approval
  | .listForApproval => List ApprovalVote
  | .updateState .. => Bool
  | .getClaim | .getdelClaim => Option Claim
  | .ttlClaim => ℤ
  | .resumeAtPort .. | .runIsTerminal _ => Bool
  | .cast _ | .emit _ | .commit | .expireClaim _ | .deleteClaim | .setClaim .. |
      .enqueueResume _ => Unit

/-- `UPDATE approvals SET state, ended_at WHERE state = 'pending'`. -/
def casState (c : Versioned Approval resolved) (i : ℕ) (state : ApprovalState)
    (endedAt : Option Time) : Option (Bool × Versioned Approval resolved) :=
  c.update i (fun a => a.state = .pending) (fun a => { a with state := state, endedAt := endedAt })
    (by simp [resolved])

/-- What session `i` does; the run engine answers as it likes (`input`). -/
def act (i : ℕ) : (o : Op) → Bool → World → Option (Res o × World)
  | .now, _, w => some (w.clock, w)
  | .getApproval, _, w => some (w.approval.seenBy i, w)
  | .cast v, _, w =>
    (w.votes.upsert i v.voterAgentId v).map fun t => ((), { w with votes := t })
  | .listForApproval, _, w => some (w.listForApproval i, w)
  | .updateState state endedAt, _, w =>
    (casState w.approval i state endedAt).map fun x => (x.1, { w with approval := x.2 })
  | .emit e, _, w => some ((), { w with openEvents := w.openEvents ++ [(i, e)] })
  | .commit, _, w => some ((), w.commit i)
  | .getClaim, _, w => some (get w.claim w.clock (), w)
  | .expireClaim s, _, w =>
    some ((), { w with claim := expire w.claim w.clock () (w.clock + s * second) })
  | .deleteClaim, _, w => some ((), { w with claim := del w.claim () })
  | .ttlClaim, _, w => some (w.ttl, w)
  | .getdelClaim, _, w => some (get w.claim w.clock (), { w with claim := del w.claim () })
  | .setClaim c s, _, w =>
    some ((), { w with claim := put w.claim () ⟨c, some (w.clock + s * second)⟩ })
  | .enqueueResume n, _, w => some ((), { w with jobs := w.jobs ++ [n] })
  | .resumeAtPort c port, input, w =>
    some (input, { w with resumptions := w.resumptions ++ [(c, port)] })
  | .runIsTerminal _, input, w => some (input, w)

abbrev Prog := Program.Prog Op Res

def perform (o : Op) : Prog (Res o) := Program.Prog.perform o

def now : Prog Time := perform .now

namespace Approvals

def get : Prog (Option Approval) := perform .getApproval

/-- `update_state`. -/
def updateState (state : ApprovalState) : Prog Bool := do
  let t ← now
  perform (.updateState state (if state ≠ .pending then some t else none))

end Approvals

namespace ApprovalVotes

/-- `cast`. -/
def cast (approvalId voterAgentId : Uuid) (vote : Bool) (rationale : Option String) :
    Prog ApprovalVote := do
  let t ← now
  let ballot : ApprovalVote := ⟨approvalId, voterAgentId, vote, rationale, t⟩
  perform (.cast ballot)
  return ballot

def listForApproval : Prog (List ApprovalVote) := perform .listForApproval

end ApprovalVotes

def emit (e : ResolvedEvent) : Prog Unit := perform (.emit e)

def commit : Prog Unit := perform .commit

def enqueueResume (attempt : ℕ) : Prog Unit := perform (.enqueueResume attempt)

namespace Redis

def get : Prog (Option Claim) := perform .getClaim

def expire (seconds : ℕ) : Prog Unit := perform (.expireClaim seconds)

def delete : Prog Unit := perform .deleteClaim

def ttl : Prog ℤ := perform .ttlClaim

def getdel : Prog (Option Claim) := perform .getdelClaim

def set (c : Claim) (seconds : ℕ) : Prog Unit := perform (.setClaim c seconds)

end Redis

/-- `RunEngine.resume_at_port`. -/
def resumeAtPort (c : Claim) (port : Port) : Prog Bool := perform (.resumeAtPort c port)

/-- `_run_is_terminal`. -/
def runIsTerminal (run : Uuid) : Prog Bool := perform (.runIsTerminal run)

/-! ## Transactions -/

/-- The verdict of the leader's last ballot. -/
def leaderVerdict (a : Approval) (votes : List ApprovalVote) : LeaderVerdict :=
  match (votes.filter (·.voterAgentId = a.leaderAgentId)).getLast? with
  | some v => if v.vote then .approved else .rejected
  | none => .noVote

/-- The metadata of a resolution by votes. -/
def resolvedByVotes (a : Approval) (votes : List ApprovalVote) (state : ApprovalState) :
    ResolvedEvent where
  state := state
  counts := some (votes.length, (votes.filter (·.vote)).length, (votes.filter (!·.vote)).length)
  leaderVerdict := if state = .timeoutLeader then some (leaderVerdict a votes) else none
  reason := if state = .timeoutLeader then some "consensus_diverged" else none

/-- The metadata of a resolution by timeout. -/
def resolvedByTimeout (a : Approval) (votes : List ApprovalVote) : ResolvedEvent where
  state := .timeoutLeader
  counts := none
  leaderVerdict := some (leaderVerdict a votes)
  reason := some "timeout"

/-- `_resolve_state`. -/
def resolveState (approval : Approval) : Prog (Option ApprovalState) := do
  let votes ← ApprovalVotes.listForApproval
  match evaluateVotes approval votes with
  | none => return none
  | some state =>
    if ← Approvals.updateState state then
      emit (resolvedByVotes approval votes state)
      return some state
    else
      return none

/-- `_emit_resolution_effects`, if the gate has been resolved: the run is to be resumed. -/
def emitResolutionEffects : Option ApprovalState → Prog Unit
  | none => return ()
  | some _ => enqueueResume 0

/-- `cast_vote`. -/
def castVote (approvalId voterAgentId : Uuid) (vote : Bool) (rationale : Option String) :
    Prog (Except String ApprovalVote) := do
  let approval ← Approvals.get
  match approval with
  | none => return .error s!"approval {approvalId} not found"
  | some approval =>
    if approval.state ≠ .pending then
      let state := approval.state.value
      return .error s!"approval {approvalId} already resolved: {state}"
    else if voterAgentId ∉ approval.approverAgentIds then
      return .error s!"agent {voterAgentId} is not an approver of {approvalId}"
    else
      let ballot ← ApprovalVotes.cast approvalId voterAgentId vote rationale
      let state ← resolveState approval
      commit
      emitResolutionEffects state
      return .ok ballot

/-- `handle_timeout`. -/
def handleTimeout : Prog (Option ApprovalState) := do
  let approval ← Approvals.get
  match approval with
  | none => return none
  | some approval =>
    if approval.state ≠ .pending then
      return some approval.state
    else
      let votes ← ApprovalVotes.listForApproval
      if ← Approvals.updateState .timeoutLeader then
        emit (resolvedByTimeout approval votes)
        commit
        enqueueResume 0
        return some .timeoutLeader
      else
        let refreshed ← Approvals.get
        return refreshed.map state

/-! ## Resuming the run -/

def claimResumeDelay : ℕ := 3

def claimResumeMaxAttempts : ℕ := 210

/-- `remaining_budget_ttl`, in seconds. -/
def remainingBudgetTtl (attempt : ℕ) : ℕ :=
  (claimResumeMaxAttempts + 1 - attempt) * claimResumeDelay

/-- `_approval_port`. -/
def approvalPort (a : Approval) (votes : List ApprovalVote) : Port :=
  if a.state = .approved then .approved
  else if a.state = .rejected then .rejected
  else
    match (votes.filter (·.voterAgentId = a.leaderAgentId)).getLast? with
    | some v => if v.vote then .approved else .rejected
    | none => .timeout

/-- Another attempt is enqueued while the budget lasts. -/
def retry (attempt : ℕ) (retried gaveUp : String) : Prog String :=
  if attempt < claimResumeMaxAttempts then do
    enqueueResume (attempt + 1)
    return retried
  else
    return gaveUp

/-- `workflow_resume_approval`. -/
def workflowResumeApproval (attempt : ℕ) : Prog String := do
  let claim ← Redis.get
  if claim.isNone then
    return "noop:no_claim"
  else
    let approval ← Approvals.get
    match approval with
    | none =>
      Redis.delete
      return "noop:gone"
    | some approval =>
      if approval.state = .pending then
        if attempt < claimResumeMaxAttempts then
          Redis.expire (remainingBudgetTtl attempt)
          enqueueResume (attempt + 1)
          return "pending:retry"
        else
          return "pending:retry"
      else
        let votes ← ApprovalVotes.listForApproval
        let port := approvalPort approval votes
        let ttl ← Redis.ttl
        let claimed ← Redis.getdel
        match claimed with
        | none => return "noop:claimed_elsewhere"
        | some info =>
          let resumed ← resumeAtPort info port
          commit
          if resumed then
            let name := port.value
            return s!"resumed:{name}"
          else if ← runIsTerminal info.runId then
            return "noop:terminal"
          else
            Redis.set info (max ttl.toNat (remainingBudgetTtl attempt))
            retry attempt "not_waiting:retry" "not_waiting:gave_up"

/-! ## Calls side by side -/

/-- The transactions on the gate. -/
inductive Call where
  | castVote (voterAgentId : Uuid) (vote : Bool) (rationale : Option String)
  | handleTimeout
  | workflowResumeApproval (attempt : ℕ)
  deriving DecidableEq

def Call.prog (approvalId : Uuid) : Call → Prog Unit
  | .castVote voter vote rationale => do let _ ← Gates.castVote approvalId voter vote rationale
  | .handleTimeout => do let _ ← Gates.handleTimeout
  | .workflowResumeApproval n => do let _ ← Gates.workflowResumeApproval n

/-- What a call has read and done. -/
structure Notes where
  gate : Option Approval
  ballot : Option ApprovalVote
  tally : Option (List ApprovalVote)
  /-- The state it has tried to set, and whether it has. -/
  swap : Option (ApprovalState × Bool)
  event : Option ResolvedEvent
  committed : Bool
  deriving DecidableEq

def Notes.blank : Notes := ⟨none, none, none, none, none, false⟩

def note (l : Notes) : (o : Op) → Res o → Notes
  | .getApproval, r => { l with gate := r }
  | .cast v, _ => { l with ballot := some v }
  | .listForApproval, r => { l with tally := some r }
  | .updateState state _, r => { l with swap := some (state, r) }
  | .emit e, _ => { l with event := some e }
  | .commit, _ => { l with committed := true }
  | _, _ => l

/-- Time goes by from outside. -/
def machine : Machine Op Res Notes World Unit Bool Time where
  view _ _ := ()
  record l _ o r := note l o r
  act i o input _ w := act i o input w
  env d w := some ({ w with clock := w.clock + d }, [])

abbrev Calls := Pool Op Res Notes World

def start (gate : Approval) (w : World) (calls : List Call) : Calls :=
  launch .blank w (calls.map (Call.prog gate.id))

def notesOf (p : Calls) : ℕ → Notes := p.locOf .blank

/-! ## What a call does -/

/-- The state a call may set, from what it has read. -/
def Call.Decides (c : Call) (a : Approval) (votes : List ApprovalVote) (s : ApprovalState) :
    Prop :=
  match c with
  | .castVote .. => evaluateVotes a votes = some s
  | .handleTimeout => s = .timeoutLeader
  | .workflowResumeApproval _ => False

/-- A vote has been decided on, as far as its session goes. -/
def Notes.Evaluated (l : Notes) : Prop :=
  ∃ a votes, l.gate = some a ∧ l.tally = some votes ∧
    (evaluateVotes a votes = none ∧ l.swap = none ∨ ∃ s b, l.swap = some (s, b))

/-- What holds of a call when it performs an operation. -/
def Call.Ok (c : Call) (l : Notes) : Op → Prop
  | .getApproval =>
    l.ballot = none ∧ (l.tally = none ∨ c = .handleTimeout ∧ ∃ s, l.swap = some (s, false))
  | .cast v =>
    l.ballot = none ∧ l.tally = none ∧ l.swap = none ∧ l.committed = false ∧
      (∃ vote r, c = .castVote v.voterAgentId vote r) ∧
      ∃ a, l.gate = some a ∧ v.voterAgentId ∈ a.approverAgentIds
  | .listForApproval =>
    l.tally = none ∧ l.swap = none ∧ l.committed = false ∧ l.gate.isSome ∧
      ∀ v b r, c = .castVote v b r → l.ballot.isSome
  | .updateState s _ =>
    l.swap = none ∧ l.event = none ∧ l.committed = false ∧
      ∃ a votes, l.gate = some a ∧ l.tally = some votes ∧ c.Decides a votes s
  | .emit e =>
    l.event = none ∧ l.committed = false ∧ l.swap = some (e.state, true)
  | .commit =>
    l.committed = false ∧ (l.ballot.isSome → l.Evaluated) ∧
      (∀ s, l.swap = some (s, true) → l.event.isSome) ∧
      ∀ v b r, c = .castVote v b r → l.ballot.isSome
  | .resumeAtPort _ port =>
    (∃ n, c = .workflowResumeApproval n) ∧
      ∃ a votes, l.gate = some a ∧ a.resolved = true ∧ l.tally = some votes ∧
        port = approvalPort a votes
  | _ => True

/-- A ballot is not left uncommitted. -/
def Call.Done (_ : Call) (l : Notes) : Prop := l.ballot.isSome → l.committed = true

abbrev rules := free machine .blank

section Conduct

variable {c : Call}

variable {l : Notes} {a : Approval} {id v : Uuid} {x : Bool} {r : Option String}

theorem obeys_now : Obeys rules c.Ok (fun l' _ => l' = l) now l :=
  obeys_perform trivial fun _ _ _ => rfl

theorem obeys_updateState {s : ApprovalState} {votes : List ApprovalVote} (hswap : l.swap = none)
    (hevent : l.event = none) (hopen : l.committed = false) (hgate : l.gate = some a)
    (htally : l.tally = some votes) (hdec : c.Decides a votes s) :
    Obeys rules c.Ok (fun l' b => l' = { l with swap := some (s, b) })
      (Approvals.updateState s) l := by
  refine obeys_bind obeys_now fun l₁ t h₁ => ?_
  subst h₁
  exact obeys_perform ⟨hswap, hevent, hopen, a, votes, hgate, htally, hdec⟩ fun _ _ _ => rfl

theorem obeys_cast (hc : c = .castVote v x r) (hballot : l.ballot = none) (htally : l.tally = none)
    (hswap : l.swap = none) (hopen : l.committed = false) (hgate : l.gate = some a)
    (hv : v ∈ a.approverAgentIds) : Obeys rules c.Ok (fun l' b => l' = { l with ballot := some b })
      (ApprovalVotes.cast id v x r) l := by
  refine obeys_bind obeys_now fun l₁ t h₁ => ?_
  subst h₁
  exact obeys_perform_bind ⟨hballot, htally, hswap, hopen, ⟨x, r, hc⟩, a, hgate, hv⟩
    fun _ _ _ => rfl

theorem obeys_resolveState (hc : c = .castVote v x r) (hgate : l.gate = some a)
    (hballot : l.ballot.isSome) (htally : l.tally = none) (hswap : l.swap = none)
    (hevent : l.event = none) (hopen : l.committed = false) : Obeys rules c.Ok
      (fun l' _ => l'.ballot = l.ballot ∧ l'.committed = false ∧ l'.Evaluated ∧
        ∀ s, l'.swap = some (s, true) → l'.event.isSome)
      (resolveState a) l := by
  refine obeys_perform_bind ⟨htally, hswap, hopen, hgate ▸ rfl, fun _ _ _ _ => hballot⟩
    fun _ (votes : List ApprovalVote) _ => ?_
  cases heval : evaluateVotes a votes with
  | none =>
    refine ⟨rfl, hopen, ⟨a, votes, hgate, rfl, .inl ⟨heval, hswap⟩⟩, fun s hs => ?_⟩
    exact absurd (hswap.symm.trans hs) nofun
  | some s =>
    have hdec : c.Decides a votes s := by rw [hc]; exact heval
    refine obeys_bind (obeys_updateState hswap hevent hopen hgate rfl hdec)
      fun l₁ b h₁ => ?_
    subst h₁
    cases b with
    | false => exact ⟨rfl, hopen, ⟨a, votes, hgate, rfl, .inr ⟨s, false, rfl⟩⟩, nofun⟩
    | true =>
      refine ⟨⟨hevent, hopen, rfl⟩, fun _ _ _ => ?_⟩
      exact ⟨rfl, hopen, ⟨a, votes, hgate, rfl, .inr ⟨s, true, rfl⟩⟩, fun _ _ => rfl⟩

theorem obeys_emitResolutionEffects (s : Option ApprovalState) :
    Obeys rules c.Ok (fun l' _ => l' = l) (emitResolutionEffects s) l := by
  cases s with
  | none => exact rfl
  | some => exact obeys_perform trivial fun _ _ _ => rfl

theorem obeys_castVote (hc : c = .castVote v x r) :
    Obeys rules c.Ok (fun l _ => c.Done l) (castVote id v x r) .blank := by
  refine obeys_perform_bind ⟨rfl, .inl rfl⟩ fun _ (approval : Option Approval) _ => ?_
  cases approval with
  | none => exact nofun
  | some a =>
    dsimp only
    by_cases hpending : a.state ≠ .pending
    · rw [if_pos hpending]
      exact nofun
    rw [if_neg hpending]
    by_cases happrover : v ∉ a.approverAgentIds
    · rw [if_pos happrover]
      exact nofun
    rw [if_neg happrover]
    refine obeys_bind (obeys_cast hc rfl rfl rfl rfl rfl (not_not.mp happrover))
      fun l₁ b h₁ => ?_
    subst h₁
    refine obeys_bind (obeys_resolveState hc rfl rfl rfl rfl rfl rfl) fun l₂ s h₂ => ?_
    obtain ⟨hballot, hopen, heval, hswap⟩ := h₂
    refine obeys_perform_bind ⟨hopen, fun _ => heval, hswap, fun _ _ _ _ => ?_⟩
      fun _ _ _ => ?_
    · rw [hballot]
      rfl
    refine obeys_bind (obeys_emitResolutionEffects s) fun l₃ _ h₃ => ?_
    subst h₃
    exact fun _ => rfl

theorem obeys_handleTimeout (hc : c = .handleTimeout) :
    Obeys rules c.Ok (fun l _ => c.Done l) handleTimeout .blank := by
  refine obeys_perform_bind ⟨rfl, .inl rfl⟩ fun _ (approval : Option Approval) _ => ?_
  cases approval with
  | none => exact nofun
  | some a =>
    dsimp only
    by_cases hpending : a.state ≠ .pending
    · rw [if_pos hpending]
      exact nofun
    rw [if_neg hpending]
    refine obeys_perform_bind ⟨rfl, rfl, rfl, rfl, fun _ _ _ h => ?_⟩
      fun _ (votes : List ApprovalVote) _ => ?_
    · simp [hc] at h
    have hdec : c.Decides a votes .timeoutLeader := by rw [hc]; rfl
    refine obeys_bind (obeys_updateState rfl rfl rfl rfl rfl hdec) fun l₁ b h₁ => ?_
    subst h₁
    cases b with
    | false => exact ⟨⟨rfl, .inr ⟨hc, _, rfl⟩⟩, fun _ _ _ => nofun⟩
    | true =>
      refine obeys_perform_bind ⟨rfl, rfl, rfl⟩ fun _ _ _ => ?_
      refine obeys_perform_bind ⟨rfl, nofun, fun _ _ => rfl, fun _ _ _ h => ?_⟩
        fun _ _ _ => ⟨trivial, fun _ _ _ => nofun⟩
      simp [hc] at h

theorem obeys_workflowResumeApproval {n : ℕ} (hcall : c = .workflowResumeApproval n) :
    Obeys rules c.Ok (fun l _ => c.Done l) (workflowResumeApproval n) .blank := by
  have hc : ∀ v b r, c ≠ .castVote v b r := by
    rintro v b r rfl
    cases hcall
  refine obeys_perform_bind trivial fun _ (claim : Option Claim) _ => ?_
  by_cases hclaim : claim.isNone = true
  · rw [if_pos hclaim]
    exact nofun
  rw [if_neg hclaim]
  refine obeys_perform_bind ⟨rfl, .inl rfl⟩ fun _ (approval : Option Approval) _ => ?_
  cases approval with
  | none => exact ⟨trivial, fun _ _ _ => nofun⟩
  | some a =>
    dsimp only
    by_cases hpending : a.state = .pending
    · rw [if_pos hpending]
      by_cases hbudget : n < claimResumeMaxAttempts
      · rw [if_pos hbudget]
        exact ⟨trivial, fun _ _ _ => ⟨trivial, fun _ _ _ => nofun⟩⟩
      · rw [if_neg hbudget]
        exact nofun
    · rw [if_neg hpending]
      refine obeys_perform_bind ⟨rfl, rfl, rfl, rfl, fun v b r h => absurd h (hc v b r)⟩
        fun _ (votes : List ApprovalVote) _ => ?_
      refine obeys_perform_bind trivial fun _ (ttl : ℤ) _ => ?_
      refine obeys_perform_bind trivial fun _ (claimed : Option Claim) _ => ?_
      cases claimed with
      | none => exact nofun
      | some =>
        refine obeys_perform_bind ⟨⟨n, hcall⟩, a, votes, rfl, ?_, rfl, rfl⟩
          fun _ (resumed : Bool) _ => ?_
        · simpa [resolved] using hpending
        refine obeys_perform_bind
          ⟨rfl, nofun, nofun, fun v b r h => absurd h (hc v b r)⟩ fun _ _ _ => ?_
        cases resumed with
        | true => exact nofun
        | false =>
          refine obeys_perform_bind trivial fun _ (terminal : Bool) _ => ?_
          cases terminal with
          | true => exact nofun
          | false =>
            refine obeys_perform_bind trivial fun _ _ _ => ?_
            unfold retry
            split
            · exact ⟨trivial, fun _ _ _ => nofun⟩
            · exact nofun

/-- **Every call keeps to its obligations.** -/
theorem Call.obeys (id : Uuid) (c : Call) :
    Obeys rules c.Ok (fun l _ => c.Done l) (c.prog id) .blank := by
  cases c with
  | castVote => exact obeys_bind (obeys_castVote rfl) fun _ _ h => h
  | handleTimeout => exact obeys_bind (obeys_handleTimeout rfl) fun _ _ h => h
  | workflowResumeApproval =>
    exact obeys_bind (obeys_workflowResumeApproval rfl) fun _ _ h => h

end Conduct

theorem obeyed_start (gate : Approval) (w : World) (calls : List Call) :
    Obeyed machine .blank (fun i l o => ∃ c, calls[i]? = some c ∧ c.Ok l o)
      (fun i l _ => ∃ c, calls[i]? = some c ∧ c.Done l) (start gate w calls) := by
  refine obeyed_launch w fun i p hp => ?_
  simp only [List.getElem?_map, Option.map_eq_some_iff] at hp
  obtain ⟨c, hc, rfl⟩ := hp
  exact Obeys.mono (fun l o hok => ⟨c, hc, hok⟩) (fun _ _ h => ⟨c, hc, h⟩) (c.obeys gate.id)

end Smap.Gates
