import Smap.Workflow.Protocol

/-!
# Snapshots of the run row

A continuation reads the run row, builds its context from a version it has read, and writes
back what the context holds; a commit ends all that.  So whatever is true of every version of
the row is true of the contexts built from it, and of what they write back.

`Informed` states this about the operations of one continuation.  The execution of nodes is gone
through once, for anything its light operations, its write-back and its executors keep
(`goes_executeNode`).  `carries_step` turns it into an invariant of a run: for the type of a
run, which decides what a dry run executes, and for the value of a variable, which a stale
context would overwrite.
-/

namespace Smap.Workflow

open Program RowVersions Op Versioned

/-- The operations of the executors that have effects outside of the run. -/
def Op.outward : Op → Bool
  | .service (.a2aCall ..) | .service (.lockChatroomScope _) => true
  | .service (.createApprovalGate ..) | .service (.issueInstruct ..) => true
  | .redis (.setClaim ..) | .queue (.enqueueJob (.workflowInstructTimeout _)) => true
  | _ => false

/-- Where a continuation has what it works with: its context from a version of the row it has
read since its last commit, what it writes back from that context, and its executors from the
type of the run. -/
def Informed (start : Start) (l : Local) : Op → Prop
  | .run (.insert row) => row.triggerType = start.triggerType
  | .ctx (.create _ vars _ isDryRun) => ∃ row ∈ l.looked, vars = row.vars ∧
      (isDryRun = (row.triggerType == "dry_run") ∨ isDryRun = start.isDryRun)
  | .run (.updateVariables vars) => l.current = true ∧ vars = l.ctx.vars
  | .ctx (.invoke _ type) =>
    l.current = true ∧ (l.ctx.isDryRun = true → dryRunSafe type = true)
  | o => o.outward = true → l.current = true ∧ l.ctx.isDryRun = false

/-- The operations that anybody may perform. -/
def Op.free : Op → Bool
  | .run (.insert _) | .ctx (.create ..) | .run (.updateVariables _) | .ctx (.invoke ..) => false
  | o => !o.outward

/-- Those among them that keep the context. -/
def Op.light (o : Op) : Bool := o.free && o.keepsTask

variable {start : Start} {l : Local} {o : Op} {v : Option RunRow}

theorem informed_of_free (ho : o.free = true) : Informed start l o := by
  unfold Op.free at ho
  split at ho <;> simp_all [Informed]

/-- The context was built since the last commit, with this flag. -/
structure OnContext (dry : Bool) (l : Local) : Prop where
  current : l.current = true
  isDryRun : l.ctx.isDryRun = dry

variable {dry : Bool}

/-- Only a new context and a commit end one. -/
def Op.keepsContext : Op → Bool
  | .ctx (.create ..) | .commit => false
  | _ => true

theorem keepsContext_of_light (ho : o.light = true) : o.keepsContext = true := by
  unfold Op.keepsContext
  split
  · cases ho
  · cases ho
  · rfl

theorem keepsContext_of_ofExecutors (ho : o.ofExecutors = true) : o.keepsContext = true := by
  unfold Op.keepsContext
  split
  · cases ho
  · cases ho
  · rfl

theorem onContext_record (h : OnContext dry l) (ho : o.keepsContext = true) (v : Option RunRow)
    (r : o.Res) : OnContext dry (o.record l v r) := by
  obtain ⟨hcurrent, hdry⟩ := h
  cases o with
  | ctx o =>
    cases o with
    | create => cases ho
    | _ => exact ⟨hcurrent, hdry⟩
  | run o | step o | redis o | queue o | audit o => cases o <;> exact ⟨hcurrent, hdry⟩
  | service | diverge => exact ⟨hcurrent, hdry⟩
  | commit => cases ho

section Programs

variable {env : Services} {α : Type} {p : Engine α} {f : o.Res → Engine α}
  {nodeId port id : String} {fromEdge reason : Option String} {state : RunState} {attempt : ℕ}
  {key : ClaimKey} {claim : Claim} {again : Job}

/-- The program is informed. -/
abbrev Reads (env : Services) (start : Start) (p : Engine α) (l : Local) : Prop :=
  Obeys (discipline env) (Informed start) (fun _ _ => True) p l

theorem reads_op (ho : o.free = true)
    (h : ∀ v r, o.Coherent l v r → Reads env start (f r) (o.record l v r)) :
    Reads env start (perform o >>= f) l :=
  obeys_perform_bind (informed_of_free ho) fun v r hc => h v r hc.2

theorem reads_last (ho : o.free = true) : Reads env start (perform o) l :=
  obeys_perform (informed_of_free ho) fun _ _ _ => trivial

theorem free_of_light (ho : o.light = true) : o.free = true := by
  simp only [Op.light, Bool.and_eq_true] at ho
  exact ho.1

/-! ## What the execution of nodes keeps -/

/-- The program does what `ok` allows, and keeps `P`. -/
abbrev Goes (env : Services) (ok : Local → Op → Prop) (P : Local → Prop) (p : Engine α)
    (l : Local) : Prop :=
  Obeys (discipline env) ok (fun l' _ => P l') p l

/-- `P` is kept, and gives what `ok` asks for, wherever the execution of nodes touches the notes:
by a light operation, by writing the context back, and by the executor of a node. -/
structure Kept (env : Services) (ok : Local → Op → Prop) (P : Local → Prop) : Prop where
  light : ∀ {l : Local} {o : Op}, o.light = true → P l → ok l o ∧ ∀ v r, P (o.record l v r)
  write : ∀ {l : Local}, P l → ok l (.run (.updateVariables l.ctx.vars)) ∧
    ∀ v r, P (Op.record l v (.run (.updateVariables l.ctx.vars)) r)
  execute : ∀ (node : NodeSpec) {l : Local}, P l →
    Goes env ok P (runExecutor env l.ctx.isDryRun node) l

theorem Goes.reads {P : Local → Prop} (h : Goes env (Informed start) P p l) :
    Reads env start p l :=
  h.mono (fun _ _ h => h) fun _ _ _ => trivial

theorem uses_finalizeRun_light : Uses light (finalizeRun state reason) := by
  refine uses_perform_bind (by cases state <;> rfl) fun changed => ?_
  split
  · exact uses_perform_bind rfl fun _ => uses_perform_bind rfl fun _ => trivial
  · trivial

variable {ok : Local → Op → Prop} {P : Local → Prop}

section Kept

variable (hkept : Kept env ok P)

include hkept

theorem goes_op {post : Local → α → Prop} (hl : P l) (ho : o.light = true)
    (h : ∀ v r, o.Coherent l v r → P (o.record l v r) →
      Obeys (discipline env) ok post (f r) (o.record l v r)) :
    Obeys (discipline env) ok post (perform o >>= f) l := by
  obtain ⟨hok, hnext⟩ := hkept.light ho hl
  exact obeys_perform_bind hok fun v r hc => h v r hc.2 (hnext v r)

theorem goes_of_uses (hp : Uses light p) (hl : P l) : Goes env ok P p l := by
  refine obeys_of_uses (P := P) ?_ ?_ hp hl
  · exact fun _ _ ho hl => (hkept.light ho hl).1
  · exact fun _ v _ r ho _ hl => (hkept.light ho hl).2 v r

theorem goes_finalizeRun (hl : P l) : Goes env ok P (finalizeRun state reason) l :=
  goes_of_uses hkept uses_finalizeRun_light hl

theorem goes_failRun {reason : String} (hl : P l) : Goes env ok P (failRun reason) l :=
  goes_op hkept hl rfl fun _ _ _ hl => obeys_bind (goes_finalizeRun hkept hl) fun _ _ hl => hl

theorem goes_pendBranches (edges : List EdgeDef) :
    ∀ {l : Local}, P l → Goes env ok P (pendBranches edges) l := by
  induction edges with
  | nil => exact fun hl => hl
  | cons edge rest ih => exact fun hl => goes_op hkept hl rfl fun _ _ _ hl => ih hl

section Body

variable {executeNext : String → Option String → Engine Unit}
  (hnext : ∀ nodeId fromEdge {l : Local}, P l → Goes env ok P (executeNext nodeId fromEdge) l)

include hnext

variable {node : NodeSpec} {outcome : StepOutcome} {continued : Bool} {original : Option String}
  {stepId : ℕ} (hl : P l)

include hl

theorem goes_advanceFrom : Goes env ok P (advanceFrom executeNext nodeId port) l := by
  refine goes_op hkept hl rfl fun _ ctx _ hl => ?_
  split
  · exact hl
  · exact obeys_bind (hnext _ _ hl) fun _ _ hl => hl
  · exact obeys_bind (goes_pendBranches hkept _ hl) fun _ _ hl => hl

theorem goes_recover : Goes env ok P (recover executeNext node outcome) l := by
  unfold recover applyOnError
  split
  rotate_left
  · exact hl
  cases node.onError.strategy with
  | fail | «continue» => exact hl
  | retry =>
    refine goes_op hkept hl rfl fun _ count _ hl => ?_
    split
    · exact goes_op hkept hl rfl fun _ _ _ hl => hl
    · exact hl
  | fallback =>
    dsimp only
    split
    · exact obeys_bind (hnext _ _ hl) fun _ _ hl => hl
    · exact hl

theorem goes_settleNode :
    Goes env ok P (settleNode executeNext nodeId node outcome continued original) l := by
  have hsignal : Goes env ok P (signalAssignment nodeId node outcome) l := by
    unfold signalAssignment
    split
    · exact goes_of_uses hkept (uses_perform rfl) hl
    · exact hl
  refine obeys_bind hsignal fun l _ hl => ?_
  split
  · refine goes_op hkept hl rfl fun _ _ _ hl => ?_
    split
    · split
      · exact goes_of_uses hkept (uses_perform rfl) hl
      · exact hl
    · exact hl
  split
  · exact hl
  split
  · exact obeys_bind (goes_finalizeRun hkept hl) fun _ _ hl => hl
  split
  · exact goes_failRun hkept hl
  refine obeys_bind (goes_advanceFrom hkept hnext hl) fun l advanced hl => ?_
  refine goes_op hkept hl rfl fun _ ctx _ hl => ?_
  split
  · exact goes_failRun hkept hl
  · exact hl

/-- What is written back is what the context holds. -/
theorem goes_runClaimed :
    Goes env ok P (runClaimed env executeNext l.ctx.isDryRun nodeId node stepId) l := by
  refine obeys_bind (hkept.execute node hl) fun l outcome hl => ?_
  refine obeys_bind (goes_recover hkept hnext hl) fun l settled hl => ?_
  refine goes_op hkept hl rfl fun _ _ _ hl => ?_
  refine goes_op hkept hl rfl fun _ ctx hctx hl => ?_
  obtain rfl : ctx = _ := hctx
  obtain ⟨hok, hwritten⟩ := hkept.write hl
  refine obeys_perform_bind hok fun v updated _ => ?_
  split
  · exact goes_settleNode hkept hnext (hwritten v updated)
  · exact hwritten v updated

theorem goes_claimNode :
    Goes env ok P (claimNode env executeNext l.ctx.isDryRun nodeId node) l := by
  refine goes_op hkept hl rfl fun _ stepId _ hl => ?_
  split
  · exact goes_of_uses hkept (uses_perform rfl) hl
  · exact goes_runClaimed hkept hnext hl

theorem goes_executeNodeBody :
    Goes env ok P (executeNodeBody env executeNext nodeId fromEdge) l := by
  refine goes_op hkept hl rfl fun _ ctx hctx hl => ?_
  obtain rfl : ctx = l.ctx := hctx
  split
  · exact hl
  refine goes_op hkept hl rfl fun v run _ hl => ?_
  split
  · refine goes_op hkept hl rfl fun _ _ _ hl => goes_op hkept hl rfl fun _ count _ hl => ?_
    split
    · exact goes_failRun hkept hl
    split
    · exact goes_failRun hkept hl
    · exact goes_claimNode hkept hnext hl
  · exact goes_of_uses hkept (uses_perform rfl) hl

end Body

/-- **Executing a node** keeps it, however deep it recurses. -/
theorem goes_executeNode (budget : ℕ) : ∀ nodeId fromEdge {l : Local}, P l →
    Goes env ok P (executeNode env budget nodeId fromEdge) l := by
  induction budget with
  | zero => exact fun _ _ _ hl => goes_of_uses hkept (uses_perform rfl) hl
  | succ budget ih => exact fun _ _ _ hl => goes_executeNodeBody hkept ih hl

theorem goes_enterNode (hl : P l) : Goes env ok P (enterNode env nodeId fromEdge) l :=
  goes_op hkept hl rfl fun _ _ _ hl => goes_executeNode hkept _ _ _ hl

theorem goes_followResumed (hl : P l) : Goes env ok P (followResumed env nodeId port) l := by
  refine goes_op hkept hl rfl fun _ _ _ hl => goes_op hkept hl rfl fun _ ctx _ hl => ?_
  refine obeys_bind (goes_advanceFrom hkept (goes_executeNode hkept _) hl) fun l advanced hl => ?_
  split
  · exact goes_failRun hkept hl
  · exact hl

end Kept

/-! ## Executors -/

theorem light_of_ofExecutors (ho : o.ofExecutors = true) (houtward : o.outward = false) :
    o.light = true := by
  unfold Op.ofExecutors at ho
  split at ho <;> simp_all [Op.light, Op.free, Op.outward, Op.keepsTask]

/-- An executor that a dry run calls has no effect outside of the run. -/
theorem uses_safeExecutor {node : NodeSpec} (hsafe : dryRunSafe node.type = true) :
    Uses light (getExecutor env node) := by
  have hassign (assignments : List JsonObject) : ∀ selVars results,
      Uses light (assignLoop env assignments selVars results) := by
    induction assignments with
    | nil => exact fun _ _ => trivial
    | cons assignment rest ih =>
      intro selVars results
      unfold assignLoop
      dsimp only
      split
      · exact uses_perform_bind rfl fun _ => ih _ _
      · trivial
  unfold getExecutor
  cases htype : node.type with
  | trigger =>
    unfold executeTrigger
    dsimp only
    split
    · trivial
    · split <;> trivial
  | condition => exact uses_perform_bind rfl fun _ => uses_perform_bind rfl fun _ => trivial
  | setVariable => exact uses_perform_bind rfl fun _ => uses_perform_bind rfl fun _ => hassign _ _ _
  | parallel => trivial
  | join =>
    refine uses_perform_bind rfl fun _ => uses_perform_bind rfl fun arrived => ?_
    split <;> trivial
  | «end» => exact uses_perform_bind rfl fun _ => trivial
  | agentInvocation | approvalGate | instruct | subagentSpawn | waitForEvent =>
    simp [htype, dryRunSafe] at hsafe

/-- **The executors of a dry run** are those of safe types; the others are mocked. -/
theorem kept_onContext : Kept env (Informed start) (OnContext dry) where
  light ho hl :=
    ⟨informed_of_free (free_of_light ho), onContext_record hl (keepsContext_of_light ho)⟩
  write hl := ⟨⟨hl.current, rfl⟩, onContext_record hl rfl⟩
  execute node l hl := by
    rw [hl.isDryRun]
    unfold runExecutor
    split
    · exact hl
    rename_i hcalled
    have hsafe : dry = true → dryRunSafe node.type = true := by
      intro hdry
      simpa [hdry] using hcalled
    refine obeys_perform_bind ⟨hl.current, fun h => hsafe (hl.isDryRun.symm.trans h)⟩
      fun v r _ => ?_
    have hl' : OnContext dry (Op.record l v (.ctx (.invoke node.id node.type)) r) :=
      ⟨hl.current, hl.isDryRun⟩
    cases dry with
    | true =>
      refine obeys_of_uses ?_ ?_ (uses_safeExecutor (hsafe rfl)) hl'
      · exact fun _ _ ho _ => informed_of_free (free_of_light ho)
      · exact fun _ v _ r ho _ hl => onContext_record hl (keepsContext_of_light ho) v r
    | false =>
      refine obeys_of_uses ?_ ?_ (uses_getExecutor node) hl'
      · intro l o ho hl
        by_cases houtward : o.outward = true
        · unfold Informed
          split <;> simp_all [hl.current, hl.isDryRun, Op.outward]
        · exact informed_of_free (free_of_light (light_of_ofExecutors ho (by simpa using houtward)))
      · exact fun _ v _ r ho _ hl => onContext_record hl (keepsContext_of_ofExecutors ho) v r

/-! ## Entry points -/

theorem reads_of_free (hp : Uses free p) : Reads env start p l := by
  refine obeys_of_uses (P := fun _ => True) ?_ ?_ hp trivial
  · exact fun _ _ ho _ => informed_of_free ho
  · exact fun _ _ _ _ _ _ _ => trivial

theorem uses_finalizeRun_free : Uses free (finalizeRun state reason) :=
  uses_finalizeRun_light.mono fun _ => free_of_light

theorem reads_startRun : Reads env start
    (startRun env start.definition start.triggerType start.triggerPayload start.isDryRun) l := by
  refine obeys_perform_bind rfl fun _ _ _ => reads_op rfl fun _ _ _ => ?_
  refine obeys_perform_bind ⟨_, List.mem_cons_self, rfl, .inr rfl⟩ fun _ _ _ => ?_
  exact (goes_enterNode kept_onContext ⟨rfl, rfl⟩).reads

/-- The context of a continuation is built from a version it has read. -/
theorem reads_snapshot {d : Definition} {row : RunRow} {f : Unit → Engine α}
    (hrow : row ∈ l.looked)
    (h : ∀ l, OnContext (row.triggerType == "dry_run") l → Reads env start (f ()) l) :
    Reads env start (snapshot d row >>= f) l :=
  obeys_perform_bind ⟨row, hrow, rfl, .inl rfl⟩ fun _ _ _ => h _ ⟨rfl, rfl⟩

/-- A continuation first reads the run, and ends there unless the row passes a check. -/
theorem reads_row {q : RunRow → Bool} {a : α} {f : RunRow → Engine α}
    (h : ∀ l : Local, ∀ row ∈ l.looked, Reads env start (f row) l) :
    Reads env start (do
      let run : Option RunRow ← perform (.run .get)
      match run.filter q with
      | none => return a
      | some row => f row) l := by
  refine reads_op rfl fun _ run _ => ?_
  split
  · trivial
  · rename_i row hrow
    refine h _ row (List.mem_append_left _ ?_)
    rw [(Option.filter_eq_some_iff.mp hrow).1]
    exact List.mem_singleton_self row

theorem reads_runStep : Reads env start (runStep env nodeId fromEdge) l := by
  refine reads_row fun l row hrow => ?_
  refine reads_op rfl fun _ workflow _ => ?_
  split
  · exact obeys_bind (reads_of_free uses_finalizeRun_free) fun _ _ _ => trivial
  · exact reads_snapshot hrow fun _ hl => (goes_enterNode kept_onContext hl).reads

theorem reads_retryNode : Reads env start (retryNode env nodeId) l := by
  refine reads_row fun l row hrow => ?_
  refine reads_op rfl fun _ workflow _ => ?_
  split
  · trivial
  refine reads_op rfl fun _ claimed _ => ?_
  split
  · refine reads_op rfl fun _ _ _ => ?_
    exact reads_snapshot hrow fun _ hl => (goes_enterNode kept_onContext hl).reads
  · trivial

theorem reads_resumeAtPort : Reads env start (resumeAtPort env nodeId port) l := by
  refine reads_row fun l row hrow => ?_
  refine reads_op rfl fun _ workflow _ => ?_
  split
  · exact obeys_bind (reads_of_free uses_finalizeRun_free) fun _ _ _ => trivial
  refine reads_snapshot hrow fun l hl => goes_op kept_onContext hl rfl fun _ claimed _ hl => ?_
  split
  · exact obeys_bind (goes_followResumed kept_onContext hl) fun _ _ _ => trivial
  · trivial

/-! ## Jobs -/

theorem reads_commitAndDispatch : Reads env start commitAndDispatch l :=
  reads_of_free (uses_perform_bind rfl fun _ => uses_perform_bind rfl (uses_dispatchLoop rfl))

theorem reads_restoreAndRetry (hagain : (Op.queue (.enqueueJob again)).free = true) :
    Reads env start (restoreAndRetry key claim attempt again) l := by
  refine reads_op rfl fun _ _ _ => ?_
  split
  · exact reads_last hagain
  · trivial

theorem reads_resumeClaimed {reason : String}
    (hagain : (Op.queue (.enqueueJob again)).free = true) :
    Reads env start (resumeClaimed env key claim nodeId port reason attempt again) l := by
  refine obeys_bind reads_resumeAtPort fun l resumed _ => ?_
  split
  · exact reads_op rfl fun _ _ _ => reads_commitAndDispatch
  · refine reads_op rfl fun _ _ _ => reads_op rfl fun _ run _ => ?_
    dsimp only
    split
    · trivial
    · exact reads_restoreAndRetry hagain

theorem reads_eventTimeout {park : ℕ} :
    Reads env start (workflowEventTimeout env nodeId attempt park) l := by
  refine reads_op rfl fun _ claimed _ => ?_
  split
  · trivial
  refine obeys_bind reads_resumeAtPort fun l resumed _ => ?_
  cases resumed with
  | true => exact reads_op rfl fun _ _ _ => reads_commitAndDispatch
  | false =>
    refine reads_op rfl fun _ _ _ => reads_op rfl fun _ run _ => ?_
    dsimp only
    split
    · exact reads_of_free (uses_perform_bind rfl (uses_dispatchLoop rfl))
    · exact reads_restoreAndRetry rfl

theorem reads_resumeApproval : Reads env start (workflowResumeApproval env id attempt) l := by
  refine reads_op rfl fun _ present _ => ?_
  split
  · trivial
  refine reads_op rfl fun _ approval _ => ?_
  split
  · exact reads_last rfl
  · split
    · exact reads_last rfl
    · trivial
  · refine reads_op rfl fun _ votes _ => reads_op rfl fun _ claimed _ => ?_
    split
    · trivial
    · exact reads_resumeClaimed rfl

theorem reads_storeOnSuccess : Reads env start (storeOnSuccess port nodeId id) l := by
  unfold storeOnSuccess
  split
  rotate_left
  · trivial
  refine reads_op rfl fun _ run _ => ?_
  split
  · trivial
  refine reads_op rfl fun _ workflow _ => ?_
  split
  · trivial
  dsimp only
  split
  · trivial
  refine reads_snapshot (by simp [Op.record, RunOp.record]) fun l hl => ?_
  refine goes_op kept_onContext hl rfl fun _ _ _ hl => ?_
  refine goes_op kept_onContext hl rfl fun _ ctx hctx hl => ?_
  obtain rfl : ctx = _ := hctx
  exact obeys_perform_bind ⟨hl.current, rfl⟩ fun _ _ _ => trivial

theorem reads_resumeInstruct : Reads env start (workflowResumeInstruct env id attempt) l := by
  refine reads_op rfl fun _ present _ => ?_
  split
  · trivial
  refine reads_op rfl fun _ instruction _ => ?_
  split
  · exact reads_last rfl
  split
  · trivial
  refine reads_op rfl fun _ claimed _ => ?_
  split
  · trivial
  · exact obeys_bind reads_storeOnSuccess fun _ _ _ => reads_resumeClaimed rfl

/-- **Every job** is informed. -/
theorem reads_jobProgram (job : Job) : Reads env start (jobProgram env job) l := by
  cases job with
  | runWorkflowStep => exact obeys_bind reads_runStep fun _ _ _ => reads_commitAndDispatch
  | retryWorkflowNode => exact obeys_bind reads_retryNode fun _ _ _ => reads_commitAndDispatch
  | workflowVariableSignal => trivial
  | workflowEventTimeout => exact reads_eventTimeout
  | workflowEventResume =>
    refine reads_op rfl fun _ claimed _ => ?_
    split
    · trivial
    · exact reads_resumeClaimed rfl
  | workflowResumeApproval => exact reads_resumeApproval
  | workflowResumeInstruct => exact reads_resumeInstruct
  | workflowInstructTimeout =>
    refine reads_op rfl fun _ marked _ => ?_
    split
    · trivial
    · exact reads_op rfl fun _ _ _ => reads_last rfl

theorem reads_byHand : Reads env start (do finalizeLive state reason; commitAndDispatch) l := by
  have hlive : Reads env start (finalizeLive state reason) l := by
    refine reads_op rfl fun _ run _ => ?_
    split
    · exact obeys_bind (reads_of_free uses_finalizeRun_free) fun _ _ _ => trivial
    · trivial
  exact obeys_bind hlive fun _ _ _ => reads_commitAndDispatch

theorem reads_markRunFailed : Reads env start markRunFailedIsolated l := by
  refine reads_op rfl fun _ changed _ => ?_
  split
  · exact reads_op rfl fun _ _ _ => reads_last rfl
  · exact reads_last rfl

/-! ## The system -/

/-- Every continuation is informed. -/
abbrev AllInformed (env : Services) (start : Start) (p : RunPool) : Prop :=
  Good (discipline env) (Informed start) (fun _ _ => True) p

theorem reads_started (start : Start) (e : Outside) (w w' : World)
    (new : List (Local × Engine Unit)) (h : (machine env).env e w = some (w', new)) :
    ∀ t ∈ new, Reads env start t.2 t.1 := by
  intro t ht
  obtain ⟨job, rfl, -⟩ | rfl | ⟨reason, rfl⟩ | rfl := Outside.act_starts h ht
  · exact reads_jobProgram job
  · exact reads_byHand
  · exact reads_byHand
  · exact reads_markRunFailed

theorem allInformed_initialPool (env : Services) (start : Start) :
    AllInformed env start (initialPool env start) := by
  refine ⟨(sound_initialPool start).linked, fun t ht => ?_⟩
  obtain rfl := List.mem_singleton.mp ht
  exact obeys_bind reads_startRun fun _ _ _ => reads_commitAndDispatch

end Programs

/-- A property `R` of the versions of the row and `C` of the contexts, such that a context built
from a version has it, and a version written from a context. -/
structure Carried (start : Start) (R : RunRow → Prop) (C : JsonObject → Bool → Prop) : Prop where
  state : ∀ row state, R row → R { row with state }
  write : ∀ row vars dry, R row → C vars dry → R { row with vars }
  taken : ∀ row dry, R row → (dry = (row.triggerType == "dry_run") ∨ dry = start.isDryRun) →
    C row.vars dry

/-- What a continuation has read has the property, and so has its context, if it is current. -/
def HoldsTo (R : RunRow → Prop) (C : JsonObject → Bool → Prop) (l : Local) : Prop :=
  (∀ row ∈ l.looked, R row) ∧ (l.current = true → C l.ctx.vars l.ctx.isDryRun)

/-- The row has the property in every version, and so has what the continuations that are not
done work with. -/
structure Carries (R : RunRow → Prop) (C : JsonObject → Bool → Prop) (p : RunPool) : Prop where
  rows : Everywhere R p.world.run
  tasks : ∀ t ∈ p.tasks, t.finished = true ∨ HoldsTo R C t.loc

variable {R : RunRow → Prop} {C : JsonObject → Bool → Prop} {env : Services} {m : RunMove}
  {q q' : RunPool} {w w' : World} {i : ℕ} {input : Input} {r : o.Res} {runId : String}

theorem holdsTo_of_none (hl : l.looked = []) (hc : l.current = false) : HoldsTo R C l := by
  simp [HoldsTo, hl, hc]

/-- **One operation of an informed continuation** keeps the property. -/
theorem holdsTo_act (hcarried : Carried start R C) (hrows : Everywhere R w.run)
    (hl : HoldsTo R C l) (hok : Informed start l o)
    (hinsert : ∀ row, row.triggerType = start.triggerType → w.run.committed = none → R row)
    (hassign : ∀ name value, o = .ctx (.assign name value) →
      ∀ vars dry, C vars dry → C (vars.set name value) dry)
    (hact : o.act runId i input l w = some (r, w')) :
    Everywhere R w'.run ∧ HoldsTo R C (o.record l (w.run.seenBy i) r) := by
  obtain ⟨hlooked, hcontext⟩ := hl
  cases effect_of_act hact with
  | ctx o =>
    refine ⟨hrows, ?_⟩
    cases o with
    | create d vars payload dry =>
      obtain ⟨row, hrow, rfl, hdry⟩ := hok
      exact ⟨hlooked, fun _ => hcarried.taken row dry (hlooked row hrow) hdry⟩
    | assign name value =>
      exact ⟨hlooked, fun hcurrent => hassign name value rfl _ _ (hcontext hcurrent)⟩
    | _ => exact ⟨hlooked, hcontext⟩
  | run o r c hc =>
    cases o with
    | insert row =>
      obtain ⟨c', hc', heq⟩ := Option.map_eq_some_iff.mp hc
      cases heq
      obtain ⟨hnone, -, hcommitted, hdraft⟩ := insert_eq_some hc'
      have hrow := hinsert row hok hnone
      refine ⟨⟨by simp [hcommitted], fun j row' hrow' => ?_⟩, ?_, hcontext⟩
      · rw [hdraft] at hrow'
        cases hrow'
        exact hrow
      · exact List.forall_mem_cons.mpr ⟨hrow, hlooked⟩
    | get =>
      cases hc
      refine ⟨hrows, fun row hrow => ?_, hcontext⟩
      obtain hrow | hrow := List.mem_append.mp hrow
      · exact hrows.seenBy (by simpa using hrow)
      · exact hlooked row hrow
    | updateState state =>
      have hupdate := hc
      simp only [RunOp.act] at hupdate
      exact ⟨hrows.update (fun row _ hrow => hcarried.state row state hrow) hupdate, hlooked,
        hcontext⟩
    | updateVariables vars =>
      obtain ⟨hcurrent, rfl⟩ := hok
      have hupdate := hc
      simp only [RunOp.act] at hupdate
      refine ⟨hrows.update (fun row _ hrow => ?_) hupdate, hlooked, hcontext⟩
      exact hcarried.write row _ _ hrow (hcontext hcurrent)
  | commit => exact ⟨hrows.commit i, holdsTo_of_none rfl rfl⟩
  | step o => exact ⟨hrows, by cases o <;> exact ⟨hlooked, hcontext⟩⟩
  | redis o | queue o | audit o =>
    exact ⟨by simpa using hrows, by cases o <;> exact ⟨hlooked, hcontext⟩⟩
  | service => exact ⟨hrows, hlooked, hcontext⟩

/-- **Whatever is true of every version of the row** stays true of the row and of the contexts. -/
theorem carries_step (hcarried : Carried start R C) (hq : AllInformed env start q)
    (h : Carries R C q)
    (hinsert : ∀ row, row.triggerType = start.triggerType → q.world.run.committed = none → R row)
    (hassign : ∀ name value, nextOp m q = some (.ctx (.assign name value)) →
      ∀ vars dry, C vars dry → C (vars.set name value) dry)
    (hstep : step (machine env) m q = some q') : Carries R C q' := by
  obtain ⟨i, input, t, o, k, r, w, ht, hprog, hact⟩ | ⟨e, w, new, henv⟩ := isStep_of_step hstep
  · have hl : HoldsTo R C t.loc := by
      refine (h.tasks t (List.mem_of_getElem? ht)).resolve_left fun hdone => ?_
      simp [Task.finished, hprog] at hdone
    obtain ⟨hrows, hl'⟩ := holdsTo_act hcarried h.rows hl (hq.ok_of_prog ht hprog) hinsert
      (fun name value ho => hassign name value (by rw [nextOp_of_prog ht hprog, ho])) hact
    refine ⟨hrows, fun u hu => ?_⟩
    obtain hu | rfl := List.mem_or_eq_of_mem_set hu
    · exact h.tasks u hu
    · exact .inr hl'
  · refine ⟨(Outside.act_rows henv).1 ▸ h.rows, fun u hu => ?_⟩
    obtain hu | hu := List.mem_append.mp hu
    · exact h.tasks u hu
    obtain ⟨s, hs, rfl⟩ := List.mem_map.mp hu
    obtain ⟨job, rfl, -⟩ | rfl | ⟨reason, rfl⟩ | rfl := Outside.act_starts henv hs
    all_goals exact .inr (holdsTo_of_none rfl rfl)

end Smap.Workflow
