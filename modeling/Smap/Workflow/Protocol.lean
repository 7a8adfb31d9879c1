import Smap.Lib.History
import Smap.Workflow.Jobs

/-!
# The protocol every continuation follows

What the programs of the engine promise to each other, stated about the notes of one
continuation and proved of each program alone: it asks for `WAITING` or `SUCCEEDED` only
with the run row in hand, for `RUNNING` only before it has settled, it arms a timeout only
for the wait it has just registered, it gives back only the claim it has taken, and when
it is done it has committed and holds no claim, unless it found the run over.

The start of a run and every job follow it (`sound_initialPool`, `follows_started`), so in
every pool reached by any schedule each continuation does (`run_invariant_of_sound`).
-/

namespace Smap.Workflow

open Program RowVersions Op

/-- What a continuation must have established before an operation. -/
def Allowed (l : Local) : Op → Prop
  | .run (.insert _) => l.active = true
  | .run (.updateState .running) => l.settled = false
  | .run (.updateState .waiting) | .run (.updateState .succeeded) => l.own.isSome = true
  | .run (.updateState .failed) | .run (.updateState .cancelled) =>
    l.active = true → l.seen = true
  | .step (.insertIfRunActive ..) => l.active = true
  | .step (.update _ outcome) => l.active = true ∧ outcome.state ≠ .pending
  | .ctx (.pend .workflowEventTimeout nodeId _ _) => ∃ park, l.lastPark = some (nodeId, park)
  | .redis (.getdelClaim key) => l.held = none ∧ l.sawDead = false ∧
      ∀ nodeId attempt park, l.job = some (.workflowEventTimeout nodeId attempt park) →
        key = .wait nodeId
  | .redis (.restoreClaim key claim) => l.held = some (key, claim)
  | .redis (.deleteClaim (.wait _)) => False
  | .queue (.enqueueJob (.workflowEventTimeout nodeId _ park)) =>
    ∃ attempt, l.job = some (.workflowEventTimeout nodeId attempt park)
  | .audit (.resumed ..) => l.held.isSome = true
  | _ => True

/-- How a continuation ends: committed, and without a claim unless the run was over. -/
def Done (l : Local) (_ : Unit) : Prop :=
  l.active = false ∧ (l.held.isSome = true → l.sawDead = true)

/-- What every part of a continuation but the handling of its claim leaves alone. -/
structure KeepsTask (l l' : Local) : Prop where
  held : l'.held = l.held
  job : l'.job = l.job
  active : l.active = true → l'.active = true
  seen : l.seen = true → l'.seen = true

/-- What the execution of nodes leaves alone, and what it only adds to. -/
structure Keeps (l l' : Local) : Prop extends KeepsTask l l' where
  claimSaw : l'.claimSaw = l.claimSaw
  workflowDef : l'.ctx.workflowDef = l.ctx.workflowDef
  entered : l.entered ⊆ l'.entered
  sealed : l.sealed ⊆ l'.sealed

open Keeps

theorem KeepsTask.refl (l : Local) : KeepsTask l l := ⟨rfl, rfl, id, id⟩

variable {l l' l'' : Local} {o : Op}

theorem KeepsTask.trans (h : KeepsTask l l') (h' : KeepsTask l' l'') : KeepsTask l l'' where
  held := h'.held.trans h.held
  job := h'.job.trans h.job
  active := h'.active ∘ h.active
  seen := h'.seen ∘ h.seen

theorem Keeps.refl (l : Local) : Keeps l l :=
  ⟨KeepsTask.refl l, rfl, rfl, List.Subset.refl _, List.Subset.refl _⟩

theorem Keeps.trans (h : Keeps l l') (h' : Keeps l' l'') : Keeps l l'' where
  toKeepsTask := h.toKeepsTask.trans h'.toKeepsTask
  claimSaw := h'.claimSaw.trans h.claimSaw
  workflowDef := h'.workflowDef.trans h.workflowDef
  entered := List.Subset.trans h.entered h'.entered
  sealed := List.Subset.trans h.sealed h'.sealed

/-- The operations that do not take, give back or use up a claim, nor commit. -/
def Op.keepsTask : Op → Bool
  | .redis (.getdelClaim _) | .redis (.restoreClaim ..) | .audit (.resumed ..) | .commit => false
  | _ => true

/-- The operations the execution of nodes is made of. -/
def Op.ofNodes : Op → Bool
  | .ctx (.create ..) | .run (.updateState .running) => false
  | o => o.keepsTask

theorem keepsTask_record (ho : o.keepsTask = true) (l : Local) (v : Option RunRow) (r : o.Res) :
    KeepsTask l (o.record l v r) := by
  cases o with
  | ctx o | step o | queue o => cases o <;> exact ⟨rfl, rfl, id, id⟩
  | run o =>
    cases o with
    | insert => exact ⟨rfl, rfl, id, fun _ => rfl⟩
    | get => exact ⟨rfl, rfl, id, fun h => by simp [record, RunOp.record, h]⟩
    | updateState =>
      exact ⟨rfl, rfl, fun h => by simp [record, RunOp.record, h], id⟩
    | updateVariables => exact ⟨rfl, rfl, id, id⟩
  | redis o =>
    cases o with
    | getdelClaim | restoreClaim => cases ho
    | _ => exact ⟨rfl, rfl, id, id⟩
  | audit e =>
    cases e with
    | resumed => cases ho
    | _ => exact ⟨rfl, rfl, id, id⟩
  | service | diverge => exact ⟨rfl, rfl, id, id⟩
  | commit => cases ho

/-- No operation drops a node from the lists of entered and sealed ones. -/
theorem entered_record (o : Op) (l : Local) (v : Option RunRow) (r : o.Res) :
    l.entered ⊆ (o.record l v r).entered ∧ l.sealed ⊆ (o.record l v r).sealed := by
  have same : l.entered ⊆ l.entered ∧ l.sealed ⊆ l.sealed :=
    ⟨List.Subset.refl _, List.Subset.refl _⟩
  cases o with
  | ctx o | run o | redis o | queue o | audit o => cases o <;> exact same
  | step o =>
    cases o with
    | insertIfRunActive =>
      refine ⟨?_, List.Subset.refl _⟩
      simp only [record, StepOp.record]
      split
      · exact List.subset_cons_self _ _
      · exact List.Subset.refl _
    | sealOpen => exact ⟨List.Subset.refl _, List.subset_cons_self _ _⟩
    | _ => exact same
  | service | commit | diverge => exact same

theorem keeps_record (ho : o.ofNodes = true) (l : Local) (v : Option RunRow) (r : o.Res) :
    Keeps l (o.record l v r) := by
  obtain ⟨hentered, hsealed⟩ := entered_record o l v r
  have of : o.keepsTask = true → (o.record l v r).claimSaw = l.claimSaw →
      (o.record l v r).ctx.workflowDef = l.ctx.workflowDef → Keeps l (o.record l v r) :=
    fun htask hclaim hdef => ⟨keepsTask_record htask l v r, hclaim, hdef, hentered, hsealed⟩
  cases o with
  | ctx o =>
    cases o with
    | create => cases ho
    | _ => exact of rfl rfl rfl
  | run o =>
    cases o with
    | updateState target =>
      cases target with
      | running => cases ho
      | _ => exact of rfl rfl rfl
    | _ => exact of rfl rfl rfl
  | step o | queue o => cases o <;> exact of rfl rfl rfl
  | redis o =>
    cases o with
    | getdelClaim | restoreClaim => cases ho
    | _ => exact of rfl rfl rfl
  | audit e =>
    cases e with
    | resumed => cases ho
    | _ => exact of rfl rfl rfl
  | service | diverge => exact of rfl rfl rfl
  | commit => cases ho

section Programs

variable {env : Services} {α β : Type} {l₀ l : Local}

/-- The program follows the protocol. -/
abbrev Follows (env : Services) (post : Local → α → Prop) (p : Engine α) (l : Local) : Prop :=
  Obeys (discipline env) Allowed post p l

/-- Walking nodes, the program follows the protocol. -/
abbrev Walks (env : Services) (l₀ : Local) (p : Engine α) (l : Local) : Prop :=
  Follows env (fun l' _ => Keeps l₀ l') p l

/-- As an entry point, the program follows the protocol. -/
abbrev Enters (env : Services) (l₀ : Local) (p : Engine α) (l : Local) : Prop :=
  Follows env (fun l' _ => KeepsTask l₀ l') p l

variable {post : Local → α → Prop} {o : Op} {f : o.Res → Engine α} {v : Option RunRow}
  {state : RunState} {reason fromEdge : Option String} {nodeId port id : String} {key : ClaimKey}
  {claim : Claim} {attempt : ℕ} {again : Job}

/-- One operation of the execution of nodes: what is kept so far stays kept. -/
theorem follows_engine (hk : Keeps l₀ l) (hok : Allowed l o) (ho : o.ofNodes = true)
    (h : ∀ v r, Sees l v → o.Coherent l v r → Keeps l₀ (o.record l v r) →
      Follows env post (f r) (o.record l v r)) :
    Follows env post (perform o >>= f) l :=
  obeys_perform_bind hok fun v r hc =>
    h v r hc.1 hc.2 (hk.trans (keeps_record ho l v r))

theorem follows_last (hk : Keeps l₀ l) (hok : Allowed l o) (ho : o.ofNodes = true) :
    Walks env l₀ (perform o) l :=
  obeys_perform hok fun v r _ => hk.trans (keeps_record ho l v r)

/-- One operation of an entry point. -/
theorem follows_entry (hk : KeepsTask l₀ l) (hok : Allowed l o) (ho : o.keepsTask = true)
    (h : ∀ v r, Sees l v → o.Coherent l v r → KeepsTask l₀ (o.record l v r) →
      Follows env post (f r) (o.record l v r)) :
    Follows env post (perform o >>= f) l :=
  obeys_perform_bind hok fun v r hc =>
    h v r hc.1 hc.2 (hk.trans (keepsTask_record ho l v r))

/-- An entry point goes on with the execution of nodes. -/
theorem follows_nodes {p : Engine α} (hk : KeepsTask l₀ l)
    (h : Walks env l p l) : Enters env l₀ p l :=
  Obeys.mono (fun _ _ h => h) (fun _ _ h => hk.trans h.toKeepsTask) h

/-- Whatever it does, the program ends as `post` says. -/
abbrev Ensures (env : Services) (post : Local → α → Prop) (p : Engine α) (l : Local) : Prop :=
  Obeys (discipline env) (fun _ _ => True) post p l

theorem ensures_true (p : Engine α) (l : Local) : Ensures env (fun _ _ => True) p l :=
  obeys_of_stable (fun _ _ _ _ _ => trivial) p trivial

theorem isSome_of_runActive (h : runActive v = true) : v.isSome = true := by
  cases v with
  | none => cases h
  | some => rfl

/-- A successful write-back leaves the row in the continuation's hand. -/
theorem own_isSome_of_updated {vars : JsonObject}
    (h : Op.Coherent l v (.run (.updateVariables vars)) true) :
    (record l v (.run (.updateVariables vars)) true).own.isSome = true := by
  have hactive : runActive v = true := h.symm
  simpa [record, RunOp.record] using isSome_of_runActive hactive

theorem seen_of_runActive (h : runActive v = true) : (l.seen || v.isSome) = true := by
  rw [isSome_of_runActive h, Bool.or_true]

/-- A row that passed a check has been seen. -/
theorem seen_of_filter {run : Option RunRow} {row : RunRow} {p : RunRow → Bool}
    (h : run.filter p = some row) : (l.seen || run.isSome) = true := by
  cases run with
  | none => cases h
  | some => exact Bool.or_true _

/-! ## Executors -/

/-- The operations executors are made of. -/
def Op.ofExecutors : Op → Bool
  | .ctx .get | .ctx (.assign ..) => true
  | .redis (.setClaim ..) | .redis (.joinArrive ..) => true
  | .queue (.enqueueJob (.workflowInstructTimeout _)) | .service _ => true
  | _ => false

theorem allowed_of_ofExecutors (ho : o.ofExecutors = true) (l : Local) :
    Allowed l o ∧ o.ofNodes = true := by
  unfold ofExecutors at ho
  split at ho
  · exact ⟨trivial, rfl⟩
  · exact ⟨trivial, rfl⟩
  · exact ⟨trivial, rfl⟩
  · exact ⟨trivial, rfl⟩
  · exact ⟨trivial, rfl⟩
  · exact ⟨trivial, rfl⟩
  · cases ho

theorem uses_assignOutput (node : NodeSpec) (value : Json) :
    Uses ofExecutors (assignOutput node value) := by
  unfold assignOutput
  split
  · exact uses_perform rfl
  · trivial

theorem uses_roomRejection (room : Option Json) : Uses ofExecutors (roomRejection room) := by
  unfold roomRejection
  split
  · exact uses_perform rfl
  · trivial

/-- What the engine may do with the outcome of an executor: no step is pending again, and a
timeout is armed only by the wait registered last. -/
structure OutcomeFor (nodeId : String) (l : Local) (outcome : StepOutcome) : Prop where
  begun : outcome.state ≠ .pending
  armed : outcome.timeoutTask = some .workflowEventTimeout →
    outcome.state = .running ∧ ∃ park, l.lastPark = some (nodeId, park)

/-- The port of a node that completes, where it has only one. -/
def completionPort : NodeType → Option String
  | .trigger | .setVariable | .parallel | .join | .waitForEvent => some "default"
  | .agentInvocation | .instruct | .subagentSpawn => some "success"
  | .approvalGate => some "rejected"
  | .condition | .end => none

/-- What the executor of a node, or the mock of a dry run, can return. -/
def Emits (node : NodeSpec) (outcome : StepOutcome) : Prop :=
  outcome.state = .failed ∨ outcome.park = true ∨ outcome.skipEdges = true ∨
    ∀ port, completionPort node.type = some port → outcome.port = port

variable {node : NodeSpec} {outcome : StepOutcome}

/-- What the engine is handed by an executor. -/
abbrev Hands (env : Services) (node : NodeSpec) (p : Engine StepOutcome) (l : Local) : Prop :=
  Obeys (discipline env) (fun _ _ => True)
    (fun l' outcome => Emits node outcome ∧ OutcomeFor node.id l' outcome) p l

/-- An executor that arms no timeout, whatever its operations answer. -/
abbrev Untimed (node : NodeSpec) (p : Engine StepOutcome) : Prop :=
  Gives ofExecutors
    (fun outcome => Emits node outcome ∧ outcome.timeoutTask = none ∧ outcome.state ≠ .pending) p

theorem completed (hnone : outcome.timeoutTask = none) (hbegun : outcome.state ≠ .pending)
    (h : ∀ port, completionPort node.type = some port → outcome.port = port) :
    Emits node outcome ∧ outcome.timeoutTask = none ∧ outcome.state ≠ .pending :=
  ⟨.inr (.inr (.inr h)), hnone, hbegun⟩

theorem handed (h : Emits node outcome ∧ outcome.timeoutTask = none ∧ outcome.state ≠ .pending) :
    Emits node outcome ∧ OutcomeFor node.id l outcome :=
  ⟨h.1, h.2.2, fun ht => by simp [h.2.1] at ht⟩

theorem Untimed.hands {p : Engine StepOutcome} (h : Untimed node p) : Hands env node p l :=
  (Gives.obeys h).mono (fun _ _ h => h) fun _ _ h => handed h

theorem untimed_trigger (htype : node.type = .trigger) :
    Untimed node (executeTrigger env node) := by
  unfold executeTrigger
  dsimp only
  split
  · exact ⟨.inl rfl, rfl, nofun⟩
  · split
    · exact ⟨.inl rfl, rfl, nofun⟩
    · exact completed rfl nofun fun port h => by simpa [htype, completionPort] using h

theorem untimed_assignLoop (htype : node.type = .setVariable) (assignments : List JsonObject) :
    ∀ selVars results, Untimed node (assignLoop env assignments selVars results) := by
  induction assignments with
  | nil =>
    intro selVars results
    exact completed rfl nofun fun port h => by simpa [htype, completionPort] using h
  | cons assignment rest ih =>
    intro selVars results
    unfold assignLoop
    dsimp only
    split
    · exact gives_perform_bind rfl fun _ => ih _ _
    · exact ⟨.inl rfl, rfl, nofun⟩

theorem untimed_agentInvocation (htype : node.type = .agentInvocation) :
    Untimed node (executeAgentInvocation env node) := by
  refine gives_perform_bind rfl fun ctx => gives_perform_bind rfl fun now => ?_
  refine gives_perform_bind rfl fun reply => ?_
  split
  · refine gives_bind (uses_assignOutput node _) fun _ => completed rfl nofun fun port h => ?_
    simpa [htype, completionPort] using h
  · exact ⟨.inr (.inr (.inl rfl)), rfl, nofun⟩
  · exact ⟨.inl rfl, rfl, nofun⟩

theorem untimed_approvalGate : Untimed node (executeApprovalGate env node) := by
  refine gives_perform_bind rfl fun ctx => ?_
  split
  · exact ⟨.inl rfl, rfl, nofun⟩
  split
  · exact ⟨.inl rfl, rfl, nofun⟩
  split
  · exact ⟨.inl rfl, rfl, nofun⟩
  split
  · exact ⟨.inl rfl, rfl, nofun⟩
  refine gives_bind (uses_roomRejection _) fun rejection => ?_
  split
  · exact ⟨.inl rfl, rfl, nofun⟩
  · refine gives_perform_bind rfl fun created => ?_
    split
    · exact ⟨.inl rfl, rfl, nofun⟩
    · exact gives_perform_bind rfl fun _ => ⟨.inr (.inl rfl), rfl, nofun⟩

theorem untimed_instruct (htype : node.type = .instruct) :
    Untimed node (executeInstruct env node) := by
  refine gives_perform_bind rfl fun ctx => gives_perform_bind rfl fun issued => ?_
  split
  · exact ⟨.inl rfl, rfl, nofun⟩
  · split
    · refine gives_perform_bind rfl fun _ => gives_perform_bind rfl fun _ => ?_
      exact gives_bind (uses_assignOutput node _) fun _ => ⟨.inr (.inl rfl), rfl, nofun⟩
    · refine gives_bind (uses_assignOutput node _) fun _ => completed rfl nofun fun port h => ?_
      simpa [htype, completionPort] using h

/-- **Every executor** but those of a join and of a wait. -/
theorem untimed_getExecutor (hjoin : node.type ≠ .join) (hwait : node.type ≠ .waitForEvent) :
    Untimed node (getExecutor env node) := by
  unfold getExecutor
  cases htype : node.type with
  | trigger => exact untimed_trigger htype
  | agentInvocation => exact untimed_agentInvocation htype
  | approvalGate => exact untimed_approvalGate
  | condition =>
    refine gives_perform_bind rfl fun _ => gives_perform_bind rfl fun _ => ?_
    exact completed rfl nofun fun port h => by simp [htype, completionPort] at h
  | instruct => exact untimed_instruct htype
  | subagentSpawn => exact ⟨.inl rfl, rfl, nofun⟩
  | waitForEvent => exact absurd htype hwait
  | parallel => exact completed rfl nofun fun port h => by simpa [htype, completionPort] using h
  | join => exact absurd htype hjoin
  | setVariable =>
    refine gives_perform_bind rfl fun _ => gives_perform_bind rfl fun _ => ?_
    exact untimed_assignLoop htype _ _ _
  | «end» =>
    refine gives_perform_bind rfl fun _ => ?_
    exact completed rfl (by split <;> nofun) fun port h => by simp [htype, completionPort] at h

/-- **Every executor** is made of these operations. -/
theorem uses_getExecutor (node : NodeSpec) : Uses ofExecutors (getExecutor env node) := by
  by_cases hjoin : node.type = .join
  · simp only [getExecutor, hjoin]
    refine uses_perform_bind rfl fun ctx => uses_perform_bind rfl fun arrived => ?_
    split <;> trivial
  · by_cases hwait : node.type = .waitForEvent
    · simp only [getExecutor, hwait]
      exact uses_perform_bind rfl fun _ => trivial
    · exact (untimed_getExecutor hjoin hwait).uses

/-- An executor is called and does its work, or is mocked. -/
theorem uses_runExecutor {P : Op → Bool} {dry : Bool} (node : NodeSpec)
    (hinvoke : P (.ctx (.invoke node.id node.type)) = true)
    (hP : ∀ o, o.ofExecutors = true → P o = true) : Uses P (runExecutor env dry node) := by
  unfold runExecutor
  split
  · trivial
  · exact uses_perform_bind hinvoke fun _ => (uses_getExecutor node).mono hP

theorem hands_join (htype : node.type = .join) : Hands env node (executeJoin node) l := by
  refine obeys_perform_bind trivial fun _ ctx _ => obeys_perform_bind trivial fun _ arrived hc => ?_
  split
  · rename_i outcome
    have houtcome := hc.2 outcome rfl
    refine handed (completed houtcome.timeoutTask (by simp [houtcome.state]) fun port h => ?_)
    rw [houtcome.port]
    simpa [htype, completionPort] using h
  · exact handed ⟨.inl rfl, rfl, nofun⟩

/-- **What the executors can return.**  The one that arms a timeout has just registered the
wait. -/
theorem hands_getExecutor (node : NodeSpec) : Hands env node (getExecutor env node) l := by
  by_cases hjoin : node.type = .join
  · simp only [getExecutor, hjoin]
    exact hands_join hjoin
  · by_cases hwait : node.type = .waitForEvent
    · simp only [getExecutor, hwait]
      exact obeys_perform_bind trivial fun _ park _ =>
        ⟨.inr (.inl rfl), nofun, fun _ => ⟨rfl, park, rfl⟩⟩
    · exact (untimed_getExecutor hjoin hwait).hands

theorem hands_runExecutor {dry : Bool} (node : NodeSpec) :
    Hands env node (runExecutor env dry node) l := by
  unfold runExecutor
  split
  · refine handed (completed rfl nofun fun port h => ?_)
    cases htype : node.type <;> simp_all [completionPort, normalCompletionPort, dryRunSafe]
  · exact obeys_perform_bind trivial fun _ _ _ => hands_getExecutor node

theorem follows_runExecutor {dry : Bool} (node : NodeSpec) (hk : Keeps l₀ l) :
    Follows env (fun l' outcome => Keeps l₀ l' ∧ OutcomeFor node.id l' outcome)
      (runExecutor env dry node) l := by
  have hkeeps : Walks env l₀ (runExecutor env dry node) l := by
    unfold runExecutor
    split
    · exact hk
    · refine follows_engine hk trivial rfl fun _ _ _ _ hk => ?_
      refine obeys_of_uses ?_ ?_ (uses_getExecutor node) hk
      · exact fun l o ho _ => (allowed_of_ofExecutors ho l).1
      · exact fun l v o r ho _ hk => hk.trans (keeps_record (allowed_of_ofExecutors ho l).2 l v r)
  refine Obeys.mono (fun _ _ h => h.1) ?_ (hkeeps.and (hands_runExecutor node))
  exact fun l' outcome h => ⟨h.1, h.2.2⟩

/-! ## The engine -/

theorem follows_finalizeRun (hstate : state ≠ .running)
    (hok : Allowed l (.run (.updateState state))) (hk : Keeps l₀ l) :
    Walks env l₀ (finalizeRun state reason) l := by
  have hnodes : (run (.updateState state)).ofNodes = true := by
    cases state with
    | running => exact absurd rfl hstate
    | _ => rfl
  refine follows_engine hk hok hnodes fun _ changed _ _ hk => ?_
  split
  · refine follows_engine hk trivial rfl fun _ _ _ _ hk => ?_
    exact follows_engine hk trivial rfl fun _ _ _ _ hk => hk
  · exact hk

theorem follows_failRun {reason : String} (hseen : l.active = true → l.seen = true)
    (hk : Keeps l₀ l) : Walks env l₀ (failRun reason) l := by
  refine follows_engine hk trivial rfl fun _ _ _ _ hk => ?_
  exact obeys_bind (follows_finalizeRun nofun hseen hk) fun _ _ hk => hk

theorem follows_pendBranches (edges : List EdgeDef) :
    ∀ {l : Local}, Keeps l₀ l →
      Walks env l₀ (pendBranches edges) l := by
  induction edges with
  | nil => exact fun hk => hk
  | cons edge rest ih =>
    intro l hk
    exact follows_engine hk trivial rfl fun _ _ _ _ hk => ih hk

theorem follows_parkNode (hown : l.own.isSome = true)
    (hout : outcome.timeoutTask = some .workflowEventTimeout →
      ∃ park, l.lastPark = some (nodeId, park))
    (hk : Keeps l₀ l) : Walks env l₀ (parkNode nodeId outcome) l := by
  refine follows_engine hk hown rfl fun _ _ _ _ hk => ?_
  split
  · rename_i task htask
    split
    · refine follows_last hk ?_ rfl
      cases task with
      | workflowEventTimeout => exact hout htask
      | _ => trivial
    · exact hk
  · exact hk

/-- The recursive call follows the protocol. -/
abbrev NextFollows (env : Services) (executeNext : String → Option String → Engine Unit) : Prop :=
  ∀ nodeId fromEdge {l₀ l : Local}, Keeps l₀ l → l.active = true →
    Walks env l₀ (executeNext nodeId fromEdge) l

section Body

variable {executeNext : String → Option String → Engine Unit} (hnext : NextFollows env executeNext)

include hnext

variable {nodeId : String} {node : NodeSpec} {outcome : StepOutcome} {continued : Bool}
  {original : Option String} {stepId : ℕ}

variable (hk : Keeps l₀ l) (hactive : l.active = true)

include hk hactive

theorem follows_advanceFrom : Walks env l₀ (advanceFrom executeNext nodeId port) l := by
  refine follows_engine hk trivial rfl fun _ ctx _ _ hk => ?_
  split
  · exact hk
  · exact obeys_bind (hnext _ _ hk hactive) fun _ _ hk => hk
  · exact obeys_bind (follows_pendBranches _ hk) fun _ _ hk => hk

theorem follows_applyOnError (hout : outcome.timeoutTask ≠ some .workflowEventTimeout)
    (hbegun : outcome.state ≠ .pending) :
    Follows env (fun l' outcome => Keeps l₀ l' ∧
        outcome.timeoutTask ≠ some .workflowEventTimeout ∧ outcome.state ≠ .pending)
      (applyOnError executeNext node outcome) l := by
  unfold applyOnError
  cases node.onError.strategy with
  | fail => exact ⟨hk, hout, hbegun⟩
  | «continue» => exact ⟨hk, by simp, nofun⟩
  | retry =>
    refine follows_engine hk trivial rfl fun _ count _ _ hk => ?_
    split
    · exact follows_engine hk trivial rfl fun _ _ _ _ hk => ⟨hk, by simp, nofun⟩
    · exact ⟨hk, hout, hbegun⟩
  | fallback =>
    dsimp only
    split
    · exact obeys_bind (hnext _ _ hk hactive) fun _ _ hk => ⟨hk, by simp, nofun⟩
    · exact ⟨hk, hout, hbegun⟩

variable (hseen : l.seen = true)

include hseen

theorem follows_followEdges :
    Walks env l₀ (followEdges executeNext nodeId outcome continued original) l := by
  refine obeys_bind (follows_advanceFrom hnext (refl l) hactive) fun l₁ advanced hk₁ => ?_
  refine follows_engine (hk.trans hk₁) trivial rfl fun _ ctx _ _ hk => ?_
  split
  · exact follows_failRun (fun _ => hk₁.seen hseen) hk
  · exact hk

theorem follows_settleNode (hown : l.own.isSome = true)
    (hout : outcome.timeoutTask = some .workflowEventTimeout →
      ∃ park, l.lastPark = some (nodeId, park)) :
    Walks env l₀ (settleNode executeNext nodeId node outcome continued original) l := by
  have hsignal : Follows env
      (fun l' _ => Keeps l l' ∧ l'.own = l.own ∧ l'.lastPark = l.lastPark)
      (signalAssignment nodeId node outcome) l := by
    unfold signalAssignment
    split
    · exact obeys_perform trivial fun v r _ => ⟨keeps_record rfl l v r, rfl, rfl⟩
    · exact ⟨refl l, rfl, rfl⟩
  refine obeys_bind hsignal fun l₁ _ h₁ => ?_
  obtain ⟨hk₁, hown₁, hpark₁⟩ := h₁
  rw [← hown₁] at hown
  rw [← hpark₁] at hout
  have hk' := hk.trans hk₁
  split
  · exact follows_parkNode hown hout hk'
  split
  · exact hk'
  split
  · by_cases hsuccess : endStatus node = "success"
    · rw [if_pos hsuccess]
      exact obeys_bind (follows_finalizeRun nofun hown hk') fun _ _ hk => hk
    · rw [if_neg hsuccess]
      exact obeys_bind (follows_finalizeRun nofun (fun _ => hk₁.seen hseen) hk')
        fun _ _ hk => hk
  · split
    · exact follows_failRun (fun _ => hk₁.seen hseen) hk'
    · exact follows_followEdges hnext hk' (hk₁.active hactive) (hk₁.seen hseen)

theorem follows_runClaimed {dry : Bool} (hid : node.id = nodeId) :
    Walks env l₀ (runClaimed env executeNext dry nodeId node stepId) l := by
  refine obeys_bind (follows_runExecutor node (refl l)) fun l₁ outcome h₁ => ?_
  obtain ⟨hk₁, hout⟩ := h₁
  have hsettled : Follows env
      (fun l' settled => Keeps l l' ∧ settled.state ≠ .pending ∧
        (settled.timeoutTask = some .workflowEventTimeout →
          ∃ park, l'.lastPark = some (nodeId, park)))
      (recover executeNext node outcome) l₁ := by
    unfold recover
    split
    · rename_i hfailed
      -- a failed outcome arms no timeout, so neither does what becomes of it
      have hnone : outcome.timeoutTask ≠ some .workflowEventTimeout := by
        intro h
        simp [(hout.armed h).1] at hfailed
      refine Obeys.mono (fun _ _ h => h) ?_
        (follows_applyOnError hnext hk₁ (hk₁.active hactive) hnone hout.begun)
      exact fun l' settled h => ⟨h.1, h.2.2, fun ht => absurd ht h.2.1⟩
    · exact ⟨hk₁, hout.begun, fun h => hid ▸ (hout.armed h).2⟩
  refine obeys_bind hsettled fun l₂ settled h₂ => ?_
  obtain ⟨hk₂, hbegun, hpark⟩ := h₂
  refine follows_engine (hk.trans hk₂) ⟨hk₂.active hactive, hbegun⟩ rfl fun _ _ _ _ hk => ?_
  refine follows_engine hk trivial rfl fun _ ctx _ _ hk => ?_
  refine follows_engine hk trivial rfl fun v updated _ hupdated hk => ?_
  split
  · rename_i htrue
    subst htrue
    refine follows_settleNode hnext hk (hk₂.active hactive) (hk₂.seen hseen) ?_ hpark
    exact own_isSome_of_updated hupdated
  · exact hk

theorem follows_claimNode {dry : Bool} (hid : node.id = nodeId) :
    Walks env l₀ (claimNode env executeNext dry nodeId node) l := by
  refine follows_engine hk hactive rfl fun _ stepId _ _ hk => ?_
  split
  · exact follows_last hk trivial rfl
  · exact follows_runClaimed hnext hk hactive hseen hid

omit hk hactive hseen in
theorem follows_executeNodeBody : NextFollows env (executeNodeBody env executeNext) := by
  intro nodeId fromEdge l₀ l hk hactive
  refine follows_engine hk trivial rfl fun _ ctx _ _ hk => ?_
  split
  · exact hk
  refine follows_engine hk trivial rfl fun v run _ hrun hk => ?_
  split
  · rename_i hlive
    have hseen : (l.seen || Option.isSome run) = true := seen_of_runActive hlive
    refine follows_engine hk trivial rfl fun _ _ _ _ hk => ?_
    refine follows_engine hk trivial rfl fun _ count _ _ hk => ?_
    split
    · exact follows_failRun (fun _ => hseen) hk
    · split
      · exact follows_failRun (fun _ => hseen) hk
      · rename_i raw hraw
        exact follows_claimNode hnext hk hactive hseen (Definition.id_of_nodesById hraw)
  · exact follows_last hk trivial rfl

end Body

/-- **Executing a node** follows the protocol, however deep it recurses. -/
theorem follows_executeNode (budget : ℕ) : NextFollows env (executeNode env budget) := by
  induction budget with
  | zero => exact fun _ _ _ _ hk _ => follows_last hk trivial rfl
  | succ budget ih => exact follows_executeNodeBody ih

theorem follows_enterNode (hactive : l.active = true) :
    Walks env l (enterNode env nodeId fromEdge) l :=
  follows_engine (refl l) trivial rfl fun _ _ _ _ hk => follows_executeNode _ _ _ hk hactive

theorem keepsPending_finalizeRun :
    Obeys (discipline env) (fun _ _ => True) (fun l' _ => l'.pending = l.pending)
      (finalizeRun state reason) l := by
  refine obeys_perform_bind trivial fun _ changed _ => ?_
  split
  · refine obeys_perform_bind trivial fun _ _ _ => ?_
    exact obeys_perform_bind trivial fun _ _ _ => rfl
  · exact rfl

/-- An entry point ends the run; nothing is collected by that. -/
theorem follows_ending (hstate : state ≠ .running) (hok : Allowed l (.run (.updateState state)))
    (hk : KeepsTask l₀ l) : Follows env (fun l' _ => KeepsTask l₀ l' ∧ l'.pending = l.pending)
      (finalizeRun state reason) l := by
  have hends : Enters env l₀ (finalizeRun state reason) l :=
    follows_nodes hk (follows_finalizeRun hstate hok (refl l))
  exact (hends.and keepsPending_finalizeRun).mono (fun _ _ h => h.1) fun _ _ h => h

section Active

variable (hactive : l.active = true)

include hactive

theorem follows_startRun {start : Start} :
    Enters env l
      (startRun env start.definition start.triggerType start.triggerPayload start.isDryRun)
      l := by
  refine follows_entry (KeepsTask.refl l) hactive rfl fun _ _ _ _ hk => ?_
  refine follows_entry hk trivial rfl fun _ _ _ _ hk => ?_
  refine follows_entry hk trivial rfl fun _ _ _ _ hk => ?_
  exact follows_nodes hk (follows_enterNode hactive)

theorem follows_runStep : Enters env l (runStep env nodeId fromEdge) l := by
  refine follows_entry (KeepsTask.refl l) trivial rfl fun _ run _ _ hk => ?_
  split
  · exact hk
  rename_i row hrow
  refine follows_entry hk trivial rfl fun _ workflow _ _ hk => ?_
  split
  · exact obeys_bind (follows_ending nofun (fun _ => seen_of_filter hrow) hk) fun _ _ h => h.1
  · refine follows_entry hk trivial rfl fun _ _ _ _ hk => ?_
    exact follows_nodes hk (follows_enterNode hactive)

theorem follows_retryNode (hfresh : l.settled = false) : Enters env l (retryNode env nodeId) l := by
  refine follows_entry (KeepsTask.refl l) trivial rfl fun _ run _ _ hk => ?_
  split
  · exact hk
  refine follows_entry hk trivial rfl fun _ workflow _ _ hk => ?_
  split
  · exact hk
  refine follows_entry hk hfresh rfl fun _ claimed _ _ hk => ?_
  split
  · have hactive' : (l.active || (claimed && true)) = true := by rw [hactive, Bool.true_or]
    refine follows_entry hk trivial rfl fun _ _ _ _ hk => ?_
    refine follows_entry hk trivial rfl fun _ _ _ _ hk => ?_
    exact follows_nodes hk (follows_enterNode hactive')
  · exact hk

theorem follows_followResumed (hseen : l.seen = true) :
    Walks env l (followResumed env nodeId port) l := by
  refine follows_engine (refl l) trivial rfl fun _ _ _ _ hk => ?_
  refine follows_engine hk trivial rfl fun _ ctx _ _ hk => ?_
  refine obeys_bind (follows_advanceFrom (follows_executeNode _) (refl _) ?_)
    fun l₁ advanced hk₁ => ?_
  · exact hactive
  · split
    · exact follows_failRun (fun _ => hk₁.seen hseen) (hk.trans hk₁)
    · exact hk.trans hk₁

end Active

/-- **Resuming at a port** follows the protocol; a continuation that has not settled may
try it.  A resume that did not happen has collected nothing. -/
theorem follows_resumeAtPort (hfresh : l.settled = false) :
    Follows env (fun l' resumed => KeepsTask l l' ∧ (resumed = false → l'.pending = l.pending))
      (resumeAtPort env nodeId port) l := by
  refine follows_entry (KeepsTask.refl l) trivial rfl fun _ run _ _ hk => ?_
  split
  · exact ⟨hk, fun _ => rfl⟩
  rename_i row hrow
  have hseen : (l.seen || run.isSome) = true := seen_of_filter hrow
  refine follows_entry hk trivial rfl fun _ workflow _ _ hk => ?_
  split
  · exact obeys_bind (follows_ending nofun (fun _ => hseen) hk) fun _ _ h => ⟨h.1, fun _ => h.2⟩
  refine follows_entry hk trivial rfl fun _ _ _ _ hk => ?_
  refine follows_entry hk hfresh rfl fun _ claimed _ _ hk => ?_
  split
  · rename_i hclaimed
    subst hclaimed
    refine obeys_bind (follows_nodes hk ?_) fun _ _ hk => ⟨hk, nofun⟩
    exact follows_followResumed (Bool.or_true _) hseen
  · exact ⟨hk, fun _ => rfl⟩

theorem follows_finalizeLive (hstate : state = .failed ∨ state = .cancelled) :
    Enters env l (finalizeLive state reason) l := by
  refine follows_entry (KeepsTask.refl l) trivial rfl fun _ run _ _ hk => ?_
  split
  · rename_i hlive
    have hseen : (l.seen || Option.isSome run) = true := seen_of_runActive hlive
    obtain rfl | rfl := hstate
    · exact obeys_bind (follows_ending nofun (fun _ => hseen) hk) fun _ _ h => h.1
    · exact obeys_bind (follows_ending nofun (fun _ => hseen) hk) fun _ _ h => h.1
  · exact hk

/-! ## Jobs -/

/-- How a job ends: done, and with every job it had collected sent off. -/
def Quit (l : Local) (u : Unit) : Prop := Done l u ∧ l.pending = []

theorem uses_dispatchLoop {P : Op → Bool} (hP : P (.queue .dispatchNext) = true) (n : ℕ) :
    Uses P (dispatchLoop n) := by
  induction n with
  | zero => trivial
  | succ n ih => exact uses_perform_bind hP fun _ => ih

theorem follows_dispatchLoop (n : ℕ) : ∀ {l : Local}, Done l () → l.pending.length = n →
    Follows env Quit (dispatchLoop n) l := by
  induction n with
  | zero => exact fun h hn => ⟨h, List.eq_nil_of_length_eq_zero hn⟩
  | succ n ih =>
    intro l h hn
    refine obeys_perform_bind trivial fun _ _ _ => ih h ?_
    simp [machine, record, QueueOp.record, hn]

theorem follows_dispatchEnqueues (h : Done l ()) : Follows env Quit dispatchEnqueues l :=
  obeys_perform_bind trivial fun _ n hn => follows_dispatchLoop n h hn.2.symm

theorem follows_commitAndDispatch (h : l.held = none) : Follows env Quit commitAndDispatch l := by
  refine obeys_perform_bind trivial fun _ _ _ => follows_dispatchEnqueues ⟨rfl, fun hheld => ?_⟩
  have hsome : l.held.isSome = true := hheld
  simp [h] at hsome

/-- The look at the run after a commit is a look at the committed row. -/
theorem follows_runIsTerminal (hown : l.own = none) :
    Follows env (fun l' terminal => l'.held = l.held ∧ l'.job = l.job ∧
      l'.active = l.active ∧ l'.pending = l.pending ∧ l'.sawDead = terminal) runIsTerminal l := by
  refine obeys_perform_bind trivial fun _ run _ => ⟨rfl, rfl, rfl, rfl, ?_⟩
  simp [machine, record, RunOp.record, Local.findsDead, hown]

section Claimed

variable {why : String} (hheld : l.held = some (key, claim)) (hpending : l.pending = [])
  (hagain : ∀ l', l'.job = l.job → Allowed l' (.queue (.enqueueJob again)))

include hheld hpending hagain

theorem follows_restoreAndRetry (hactive : l.active = false) :
    Follows env Quit (restoreAndRetry key claim attempt again) l := by
  refine obeys_perform_bind hheld fun _ _ _ => ?_
  have hdone : ∀ l' : Local, l'.active = l.active → l'.held = none → l'.pending = l.pending →
      Quit l' () := by
    intro l' hactive' hheld' hpending'
    exact ⟨⟨hactive'.trans hactive, fun h => by simp [hheld'] at h⟩, hpending'.trans hpending⟩
  split
  · exact obeys_perform (hagain _ rfl) fun _ _ _ => hdone _ rfl rfl rfl
  · exact hdone _ rfl rfl rfl

theorem follows_giveBack : Follows env Quit (giveBack key claim attempt again) l := by
  refine obeys_perform_bind trivial fun _ _ _ => ?_
  refine obeys_bind (follows_runIsTerminal rfl) fun l₁ terminal h₁ => ?_
  obtain ⟨hheld₁, hjob₁, hactive₁, hpending₁, hdead₁⟩ := h₁
  have hpending := hpending₁.trans hpending
  split
  · rename_i hterminal
    exact ⟨⟨hactive₁, fun _ => hdead₁.trans hterminal⟩, hpending⟩
  · exact follows_restoreAndRetry (hheld₁.trans hheld) hpending
      (fun l' hl' => hagain l' (hl'.trans hjob₁)) hactive₁

theorem follows_resumeClaimed (hfresh : l.settled = false) :
    Follows env Quit (resumeClaimed env key claim nodeId port why attempt again) l := by
  refine obeys_bind (follows_resumeAtPort hfresh) fun l₁ resumed h₁ => ?_
  obtain ⟨hk, hidle⟩ := h₁
  have hheld₁ := hk.held.trans hheld
  cases resumed with
  | true =>
    refine obeys_perform_bind ?_ fun _ _ _ => follows_commitAndDispatch rfl
    simp [Allowed, hheld₁]
  | false =>
    exact follows_giveBack hheld₁ ((hidle rfl).trans hpending)
      fun l' hl' => hagain l' (hl'.trans hk.job)

end Claimed

/-- A continuation that has done nothing but start. -/
structure Fresh (l : Local) : Prop where
  active : l.active = false
  settled : l.settled = false
  held : l.held = none
  sawDead : l.sawDead = false

theorem Fresh.quit (h : Fresh l) (hpending : l.pending = []) : Quit l () := by
  refine ⟨⟨h.active, fun hheld => ?_⟩, hpending⟩
  simp [h.held] at hheld

theorem follows_storeInstructOutput :
    Follows env (fun l' _ => KeepsTask l l' ∧ l'.settled = l.settled ∧ l'.pending = l.pending)
      (storeInstructOutput nodeId id) l := by
  refine follows_entry (KeepsTask.refl l) trivial rfl fun _ run _ _ hk => ?_
  split
  · exact ⟨hk, rfl, rfl⟩
  refine follows_entry hk trivial rfl fun _ workflow _ _ hk => ?_
  split
  · exact ⟨hk, rfl, rfl⟩
  dsimp only
  split
  · exact ⟨hk, rfl, rfl⟩
  · refine follows_entry hk trivial rfl fun _ _ _ _ hk => ?_
    refine follows_entry hk trivial rfl fun _ _ _ _ hk => ?_
    refine follows_entry hk trivial rfl fun _ ctx _ _ hk => ?_
    exact follows_entry hk trivial rfl fun _ _ _ _ hk => ⟨hk, rfl, rfl⟩

theorem follows_storeOnSuccess :
    Follows env (fun l' _ => KeepsTask l l' ∧ l'.settled = l.settled ∧ l'.pending = l.pending)
      (storeOnSuccess port nodeId id) l := by
  unfold storeOnSuccess
  split
  · exact follows_storeInstructOutput
  · exact ⟨KeepsTask.refl l, rfl, rfl⟩

variable (hl : Fresh l) (hpending : l.pending = [])

include hl hpending

theorem follows_eventTimeout {park : ℕ}
    (hjob : l.job = some (.workflowEventTimeout nodeId attempt park)) :
    Follows env Quit (workflowEventTimeout env nodeId attempt park) l := by
  refine obeys_perform_bind ⟨hl.held, hl.sawDead, fun n a t hjob' => ?_⟩ fun _ claimed _ => ?_
  · rw [hjob] at hjob'
    cases hjob'
    rfl
  · split
    · exact hl.quit hpending
    rename_i claim _
    refine obeys_bind (follows_resumeAtPort hl.settled) fun l₁ resumed h₁ => ?_
    obtain ⟨hk, hidle⟩ := h₁
    have hheld : l₁.held = some (.wait nodeId, claim) := hk.held
    cases resumed with
    | true =>
      refine obeys_perform_bind (by simp [Allowed, hheld]) fun _ _ _ => ?_
      exact follows_commitAndDispatch rfl
    | false =>
      refine obeys_perform_bind trivial fun _ _ _ => ?_
      refine obeys_bind (follows_runIsTerminal rfl) fun l₂ terminal h₂ => ?_
      obtain ⟨hheld₂, hjob₂, hactive₂, hpending₂, hdead₂⟩ := h₂
      split
      · rename_i hterminal
        exact follows_dispatchEnqueues ⟨hactive₂, fun _ => hdead₂.trans hterminal⟩
      · refine follows_restoreAndRetry (hheld₂.trans hheld)
          (hpending₂.trans ((hidle rfl).trans hpending)) (fun l' hl' => ?_) hactive₂
        exact ⟨attempt, (hl'.trans hjob₂).trans (hk.job.trans hjob)⟩

theorem follows_eventResume (hjob : l.job = some (.workflowEventResume nodeId attempt)) :
    Follows env Quit (workflowEventResume env nodeId attempt) l := by
  refine obeys_perform_bind ⟨hl.held, hl.sawDead, fun n a t hjob' => ?_⟩ fun _ claimed _ => ?_
  · simp [hjob] at hjob'
  · split
    · exact hl.quit hpending
    · exact follows_resumeClaimed rfl hpending (fun _ _ => trivial) hl.settled

theorem follows_resumeApproval (hjob : l.job = some (.workflowResumeApproval id attempt)) :
    Follows env Quit (workflowResumeApproval env id attempt) l := by
  have hquit := hl.quit hpending
  refine obeys_perform_bind trivial fun _ present _ => ?_
  split
  · exact hquit
  refine obeys_perform_bind trivial fun _ approval _ => ?_
  split
  · exact obeys_perform trivial fun _ _ _ => hquit
  · split
    · exact obeys_perform trivial fun _ _ _ => hquit
    · exact hquit
  · refine obeys_perform_bind trivial fun _ votes _ => ?_
    refine obeys_perform_bind ⟨hl.held, hl.sawDead, fun n a t hjob' => ?_⟩ fun _ claimed _ => ?_
    · have hsame : l.job = some (.workflowEventTimeout n a t) := hjob'
      simp [hjob] at hsame
    · split
      · exact hquit
      · exact follows_resumeClaimed rfl hpending (fun _ _ => trivial) hl.settled

theorem follows_resumeInstruct (hjob : l.job = some (.workflowResumeInstruct id attempt)) :
    Follows env Quit (workflowResumeInstruct env id attempt) l := by
  have hquit := hl.quit hpending
  refine obeys_perform_bind trivial fun _ present _ => ?_
  split
  · exact hquit
  refine obeys_perform_bind trivial fun _ instruction _ => ?_
  split
  · exact obeys_perform trivial fun _ _ _ => hquit
  split
  · exact hquit
  refine obeys_perform_bind ⟨hl.held, hl.sawDead, fun n a t hjob' => ?_⟩ fun _ claimed _ => ?_
  · have hsame : l.job = some (.workflowEventTimeout n a t) := hjob'
    simp [hjob] at hsame
  split
  · exact hquit
  · refine obeys_bind follows_storeOnSuccess fun l₁ _ h₁ => ?_
    obtain ⟨hk, hsettled, hpending₁⟩ := h₁
    exact follows_resumeClaimed hk.held (hpending₁.trans hpending)
      (fun _ _ => trivial) (hsettled.trans hl.settled)

theorem follows_instructTimeout : Follows env Quit (workflowInstructTimeout id) l := by
  refine obeys_perform_bind trivial fun _ marked _ => ?_
  split
  · exact hl.quit hpending
  · refine obeys_perform_bind trivial fun _ _ _ => ?_
    refine obeys_perform trivial fun _ _ _ => ⟨⟨rfl, fun hheld => ?_⟩, hpending⟩
    exact (hl.quit hpending).1.2 hheld

end Programs

/-! ## The system -/

variable {env : Services}

/-- Every queued job follows the protocol from its start. -/
theorem follows_jobProgram (job : Job) :
    Follows env Quit (jobProgram env job) (Local.ofJob job) := by
  have hfresh : job.runsNode = false → Fresh (Local.ofJob job) := fun h => ⟨h, rfl, rfl, rfl⟩
  cases job with
  | runWorkflowStep =>
    exact obeys_bind (follows_runStep rfl)
      fun _ _ hk => follows_commitAndDispatch hk.held
  | retryWorkflowNode =>
    exact obeys_bind (follows_retryNode rfl rfl)
      fun _ _ hk => follows_commitAndDispatch hk.held
  | workflowVariableSignal => exact (hfresh rfl).quit rfl
  | workflowEventTimeout => exact follows_eventTimeout (hfresh rfl) rfl rfl
  | workflowEventResume => exact follows_eventResume (hfresh rfl) rfl rfl
  | workflowResumeApproval => exact follows_resumeApproval (hfresh rfl) rfl rfl
  | workflowResumeInstruct => exact follows_resumeInstruct (hfresh rfl) rfl rfl
  | workflowInstructTimeout => exact follows_instructTimeout (hfresh rfl) rfl

theorem follows_byHand {state : RunState} {reason : Option String}
    (hstate : state = .failed ∨ state = .cancelled) :
    Follows env Quit (do finalizeLive state reason; commitAndDispatch) Local.blank :=
  obeys_bind (follows_finalizeLive hstate)
    fun _ _ hk => follows_commitAndDispatch hk.held

theorem follows_markRunFailedIsolated : Follows env Quit markRunFailedIsolated Local.blank := by
  refine obeys_perform_bind (fun h => by cases h) fun _ changed _ => ?_
  split
  · refine obeys_perform_bind trivial fun _ _ _ => ?_
    exact obeys_perform trivial fun _ _ _ => ⟨⟨rfl, fun h => by cases h⟩, rfl⟩
  · exact obeys_perform trivial fun _ _ _ => ⟨⟨rfl, fun h => by cases h⟩, rfl⟩

/-- **Whatever is started from outside follows the protocol.** -/
theorem quits_started (e : Outside) (w w' : World) (new : List (Local × Engine Unit))
    (h : (machine env).env e w = some (w', new)) :
    ∀ t ∈ new, Follows env Quit t.2 t.1 := by
  intro t ht
  obtain ⟨job, rfl, -⟩ | rfl | ⟨reason, rfl⟩ | rfl := Outside.act_starts h ht
  · exact follows_jobProgram job
  · exact follows_byHand (.inr rfl)
  · exact follows_byHand (.inl rfl)
  · exact follows_markRunFailedIsolated

theorem follows_started (e : Outside) (w w' : World) (new : List (Local × Engine Unit))
    (h : (machine env).env e w = some (w', new)) :
    ∀ t ∈ new, Follows env Done t.2 t.1 := fun t ht =>
  (quits_started e w w' new h t ht).mono (fun _ _ h => h) fun _ _ h => h.1

theorem quits_initialPool (start : Start) :
    ∀ t ∈ (initialPool env start).tasks, Follows env Quit t.prog t.loc := by
  intro t ht
  obtain rfl := List.mem_singleton.mp ht
  exact obeys_bind (follows_startRun rfl)
    fun _ _ hk => follows_commitAndDispatch hk.held

/-- Every continuation is linked to the shared state and follows the protocol. -/
abbrev Sound (env : Services) (p : RunPool) : Prop := Good (discipline env) Allowed Done p

theorem sound_initialPool (start : Start) : Sound env (initialPool env start) := by
  refine ⟨fun i => ?_, fun t ht => ?_⟩
  · have hblank : Link i Local.blank (World.initial start.definition) :=
      ⟨rfl, (by intro h; cases h), (by intro h; cases h)⟩
    cases i with
    | zero | succ => exact hblank.congr rfl rfl rfl rfl
  · exact (quits_initialPool start t ht).mono (fun _ _ h => h) fun _ _ h => h.1

/-- Invariants of the runs of a workflow, with the protocol at hand. -/
theorem run_invariant_of_sound {cond : RunMove → RunPool → Prop} (Inv : RunPool → Prop)
    (hstep : ∀ m p p', Sound env p → Inv p → cond m p → step (machine env) m p = some p' → Inv p')
    {start : Start} {ms : List RunMove} {p : RunPool} (hinit : Inv (initialPool env start))
    (hall : AllSteps (machine env) cond ms (initialPool env start))
    (hrun : run (machine env) ms (initialPool env start) = some p) : Sound env p ∧ Inv p :=
  Good.run_invariant Inv follows_started hstep hall (sound_initialPool start) hinit hrun

/-- The operation a move is about to perform. -/
def nextOp (m : RunMove) (p : RunPool) : Option Op :=
  match m with
  | .env _ => none
  | .step i _ =>
    match p.tasks[i]? with
    | none => none
    | some t =>
      match t.prog with
      | .op o _ => some o
      | .pure _ => none

theorem nextOp_of_prog {p : RunPool} {i : ℕ} {t : Task Op Op.Res Local} {input : Input}
    {k : o.Res → Engine Unit} (ht : p.tasks[i]? = some t) (hprog : t.prog = .op o k) :
    nextOp (.step i input) p = some o := by
  simp [nextOp, ht, hprog]

end Smap.Workflow
