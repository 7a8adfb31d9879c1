import Smap.Workflow.Retry

/-!
# End nodes

An end node asks for `SUCCEEDED`, which the transition table grants from `RUNNING` only.
The state column is shared by all branches, so a branch that parked meanwhile can stand
in the way: the call returns with the step recorded and the run still `WAITING`.

The main result, `end_node_ends_run_iff`, takes any continuation of any reachable pool,
lets it execute an end node among all the others, and says when the run is over as the
call returns: exactly if the run was not `WAITING` when `SUCCEEDED` was asked for.
-/

namespace Smap.Workflow

open Program RowVersions Option

variable {env : Services} {l : Local} {nodeId : String} {fromEdge : Option String}

/-- The pool in which continuation `i` has nothing to do but the call, and has not asked
for `SUCCEEDED` yet.  Everybody else goes on as before. -/
def callInstead (p : RunPool) (i : ℕ) (call : Engine Unit) : RunPool :=
  { p with tasks := p.tasks.modify i fun t => ⟨{ t.loc with endSaw := none }, call⟩ }

/-- How the execution of an end node can come out: no step was claimed; the continuation
has the run row in hand, final exactly if it did not find it `WAITING`; or the run was
over before the continuation could take the row. -/
def EndOutcome (entered : List String) (l : Local) : Prop :=
  l.entered = entered ∨
    (∃ state, l.own = some state ∧ (state.isTerminal = true ↔ l.endSaw ≠ some .waiting)) ∨
    (l.own = none ∧ l.seen = true ∧ l.sawDead = true ∧ l.endSaw = none)

/-- A program about which only its end matters. -/
abbrev Ends (env : Services) (post : Local → Prop) (p : Engine Unit) (l : Local) : Prop :=
  Obeys (discipline env) (fun _ _ => True) (fun l' _ => post l') p l

variable {entered : List String}

/-- Asking for `SUCCEEDED` with a live row in hand. -/
theorem ends_finalizeRun_succeeded {state : RunState} (hown : l.own = some state)
    (hlive : state.isActive = true) :
    Ends env (EndOutcome entered) (do let _ ← finalizeRun .succeeded none; return ()) l := by
  refine obeys_perform_bind trivial fun v changed hc => ?_
  obtain ⟨row, rfl, hrow⟩ := map_eq_some_iff.mp (hc.1.own state hown)
  have hchanged : changed = validTransition row.state .succeeded := hc.2
  cases state with
  | running =>
    obtain rfl : changed = true := by rw [hchanged, hrow]; rfl
    refine obeys_perform_bind trivial fun _ _ _ => ?_
    refine obeys_perform_bind trivial fun _ _ _ => ?_
    refine .inr (.inl ⟨.succeeded, rfl, ?_⟩)
    simp [machine, Op.record, RunOp.record, StepOp.record, RunState.isTerminal, hrow]
  | waiting =>
    obtain rfl : changed = false := by rw [hchanged, hrow]; rfl
    refine .inr (.inl ⟨.waiting, hown, ?_⟩)
    simp [machine, Op.record, RunOp.record, RunState.isTerminal, hrow]
  | succeeded | failed | cancelled => cases hlive

/-- The write-back before the end: it either takes the row of a live run, or finds the run
over. -/
theorem ends_runClaimed {executeNext : String → Option String → Engine Unit} {node : NodeSpec}
    {stepId : ℕ} {dry : Bool} (hend : node.type = .end) (hsuccess : endStatus node = "success")
    (hseen : l.seen = true) (hsaw : l.endSaw = none)
    (hown : ∀ s, l.own = some s → s.isActive = true) (entered : List String) :
    Ends env (EndOutcome entered) (runClaimed env executeNext dry nodeId node stepId) l := by
  have hexec : Ensures env
      (fun l' outcome => (l'.own = l.own ∧ l'.seen = l.seen ∧ l'.endSaw = l.endSaw) ∧
        outcome.state = .succeeded ∧ outcome.park = false ∧ outcome.skipEdges = false)
      (runExecutor env dry node) l := by
    unfold runExecutor
    rw [if_neg (by simp [hend, dryRunSafe])]
    refine obeys_perform_bind trivial fun _ _ _ => ?_
    unfold getExecutor
    rw [hend]
    refine obeys_perform_bind trivial fun _ ctx _ => ⟨⟨rfl, rfl, rfl⟩, ?_, rfl, rfl⟩
    exact if_pos hsuccess
  refine obeys_bind hexec fun l₁ outcome h => ?_
  obtain ⟨⟨hown₁, hseen₁, hsaw₁⟩, hstate, hpark, hskip⟩ := h
  rw [← hseen₁] at hseen
  rw [← hsaw₁] at hsaw
  rw [← hown₁] at hown
  have hrecover : recover executeNext node outcome = pure outcome := by
    simp [recover, hstate]
  rw [hrecover]
  refine obeys_perform_bind trivial fun _ _ _ => ?_
  refine obeys_perform_bind trivial fun _ ctx _ => ?_
  refine obeys_perform_bind trivial fun v updated hupdated => ?_
  have hanswer : updated = runActive v := hupdated.2
  split
  · rename_i htrue
    subst htrue
    obtain ⟨row, rfl, hrow⟩ := (any_eq_true _ _).mp hanswer.symm
    have hsignal : signalAssignment nodeId node outcome = pure () := by
      simp [signalAssignment, hend]
    unfold settleNode
    rw [hsignal, hpark, hskip, hend, hsuccess]
    exact ends_finalizeRun_succeeded rfl hrow
  · rename_i hfalse
    have hdead : runActive v = false := by
      rw [← hanswer]
      simpa using hfalse
    have hnone : l₁.own = none := by
      cases howned : l₁.own with
      | none => rfl
      | some s =>
        -- a live row in hand would have been seen alive
        have hmap : v.map RunRow.state = some s := hupdated.1.own s howned
        obtain ⟨row, rfl, hrow⟩ := map_eq_some_iff.mp hmap
        simp [runActive, any_some, hrow, hown s howned] at hdead
    obtain rfl : updated = false := by simpa using hfalse
    refine .inr (.inr ⟨hnone, hseen, ?_, hsaw⟩)
    simp [machine, Op.record, StepOp.record, CtxOp.record, RunOp.record, Local.findsDead, hnone,
      hdead]

/-- **Executing an end node** comes out in one of the three ways. -/
theorem ends_executeNode {budget : ℕ} {raw : NodeDef}
    (hraw : l.ctx.workflowDef.nodesById nodeId = some raw) (hend : raw.type = .end)
    (hsuccess : endStatus (parseNode raw) = "success") (hsaw : l.endSaw = none) :
    Ends env (EndOutcome l.entered) (executeNode env (budget + 1) nodeId fromEdge) l := by
  refine obeys_perform_bind trivial fun _ ctx hctx => ?_
  obtain rfl : ctx = l.ctx := hctx.2
  split
  · exact .inl rfl
  refine obeys_perform_bind trivial fun v run hrun => ?_
  obtain rfl : run = v := hrun.2
  split
  · rename_i hlive
    have hseen : (l.seen || isSome run) = true := seen_of_runActive hlive
    have hown : ∀ s, l.own = some s → s.isActive = true := by
      intro s hs
      obtain ⟨row, hrow, rfl⟩ := map_eq_some_iff.mp (hrun.1.own s hs)
      rw [hrow] at hlive
      exact hlive
    refine obeys_perform_bind trivial fun _ _ _ => ?_
    refine obeys_perform_bind trivial fun _ count _ => ?_
    split
    · refine Obeys.mono (fun _ _ _ => trivial) (fun l' _ h => .inl h.2)
        (follows_failRun_entered fun _ => hseen)
    rw [hraw]
    refine obeys_perform_bind trivial fun _ stepId _ => ?_
    split
    · exact ⟨trivial, fun _ _ _ => .inl rfl⟩
    · refine ends_runClaimed hend hsuccess ?_ ?_ ?_ _
      · exact hseen
      · exact hsaw
      · exact hown
  · exact ⟨trivial, fun _ _ _ => .inl rfl⟩

/-- The row a linked continuation sees as the call returns, read off its notes. -/
theorem EndOutcome.terminal_iff {i : ℕ} {w : World} (h : EndOutcome entered l) (hlink : Link i l w)
    (hentered : l.entered ≠ entered) :
    (∃ row, w.run.seenBy i = some row ∧ row.state.isTerminal = true) ↔
      l.endSaw ≠ some .waiting := by
  obtain hsame | ⟨state, hown, hterminal⟩ | ⟨hown, hseen, hdead, hsaw⟩ := h
  · exact absurd hsame hentered
  · rw [hlink.own] at hown
    obtain ⟨row, hrow, rfl⟩ := map_eq_some_iff.mp hown
    rw [← hterminal, Versioned.seenBy_of_draftOf hrow]
    simp
  · obtain ⟨row, hrow, hover⟩ := hlink.dead hdead hseen
    rw [hlink.seenBy_of_own_eq_none hown, hsaw]
    simp [hrow, hover]

/-- **When an end node ends the run.**  In every pool reached by any schedule of any run,
let any continuation execute an end node that reports success, while all the others go on
under any schedule.  If it claimed a step for the node, then as the call returns the run
is over exactly if the run was not `WAITING` when `SUCCEEDED` was asked for. -/
theorem end_node_ends_run_iff (env : Services) (start : Start) (ms : List RunMove)
    (p : RunPool) (hrun : run (machine env) ms (initialPool env start) = some p)
    (i : ℕ) (t : Task Op Op.Res Local) (ht : p.tasks[i]? = some t)
    (nodeId : String) (fromEdge : Option String) (budget : ℕ) (raw : NodeDef)
    (hraw : t.loc.ctx.workflowDef.nodesById nodeId = some raw) (hend : raw.type = .end)
    (hsuccess : endStatus (parseNode raw) = "success")
    (ms' : List RunMove) (p' : RunPool) (hcall : run (machine env) ms'
      (callInstead p i (executeNode env (budget + 1) nodeId fromEdge)) = some p')
    (t' : Task Op Op.Res Local) (ht' : p'.tasks[i]? = some t') (hdone : t'.finished = true)
    (hentered : t'.loc.entered ≠ t.loc.entered) :
    (∃ row, p'.world.run.seenBy i = some row ∧ row.state.isTerminal = true) ↔
      t'.loc.endSaw ≠ some .waiting := by
  have hsound := (run_invariant_of_sound (fun _ => True) (fun _ _ _ _ _ _ _ => trivial)
    trivial (allSteps_true _ ms _) hrun).1
  have hlink : Link i { t.loc with endSaw := none } p.world :=
    Link.congr (hsound.link_of_getElem? ht) rfl rfl rfl rfl
  have hcalled : (callInstead p i (executeNode env (budget + 1) nodeId fromEdge)).tasks[i]? =
      some ⟨{ t.loc with endSaw := none }, executeNode env (budget + 1) nodeId fromEdge⟩ := by
    simp [callInstead, ht]
  have hexec := exec_of_run hdone ms' hcall hcalled ht'
  obtain ⟨houtcome, hlink'⟩ := hexec.post hlink (ends_executeNode hraw hend hsuccess rfl)
  exact houtcome.terminal_iff hlink' hentered

/-- A timer in one branch and an end in the other. -/
def endBesideTimer : Definition where
  entryNodeId := "t"
  nodes := [triggerNode, ⟨"p", .parallel, []⟩, timerNode "w", endNode "e", endNode "f"]
  edges := [⟨"e1", "t", "p", none, none⟩, ⟨"e2", "p", "w", none, none⟩,
    ⟨"e3", "p", "e", none, none⟩, ⟨"e4", "w", "f", none, none⟩]

/-- The call by which the second branch executes its end node. -/
def callEnd : Engine Unit :=
  executeNode plainServices endBesideTimer.visitBudget "e" (some "e3")

/-- The timer has parked and committed, and the other branch is about to execute `e`. -/
def parkBeforeEnd : List RunMove :=
  turns 0 32 ++ deliver 0 ++ turns 1 19 ++ deliver 0 ++ turns 2 4

/-- The end node was executed on a live run, its step is recorded as succeeded, and the
call returns with the run `WAITING`. -/
theorem end_beside_parked_branch_leaves_waiting :
    ∃ p t p' t', runManually endBesideTimer parkBeforeEnd = some p ∧ p.tasks[2]? = some t ∧
      p.world.run.committed.map RunRow.state = some .waiting ∧
      run (machine plainServices) (turns 2 11) (callInstead p 2 callEnd) = some p' ∧
      p'.tasks[2]? = some t' ∧ t'.finished = true ∧ t'.loc.entered = "e" :: t.loc.entered ∧
      (∃ c ∈ p'.world.steps, ∃ s, c.seenBy 2 = some s ∧ s.nodeId = "e" ∧
        s.state = .succeeded) ∧
      (p'.world.run.seenBy 2).map RunRow.state = some .waiting := by
  simp only [exists_and_left]
  decide +kernel

/-- The other branch is about to execute `e`, and the timer has not been reached. -/
def endFirst : List RunMove := turns 0 32 ++ deliver 1 ++ turns 1 4

/-- With nobody parked the end node ends the run. -/
theorem end_node_ends_run_first :
    ∃ p p', runManually endBesideTimer endFirst = some p ∧
      run (machine plainServices) (turns 1 13) (callInstead p 1 callEnd) = some p' ∧
      ∃ row, p'.world.run.seenBy 1 = some row ∧ row.state.isTerminal = true := by
  obtain ⟨p, hp, t, ht, ⟨raw, hraw, hend, hsuccess⟩, p', hp', t', ht', hdone, hentered, hsaw⟩ :
      ∃ p ∈ runManually endBesideTimer endFirst, ∃ t ∈ p.tasks[1]?,
        (∃ raw ∈ t.loc.ctx.workflowDef.nodesById "e", raw.type = .end ∧
          endStatus (parseNode raw) = "success") ∧
        ∃ p' ∈ run (machine plainServices) (turns 1 13) (callInstead p 1 callEnd),
          ∃ t' ∈ p'.tasks[1]?, t'.finished = true ∧ t'.loc.entered ≠ t.loc.entered ∧
            t'.loc.endSaw ≠ some .waiting := by
    decide +kernel
  refine ⟨p, p', hp, hp', ?_⟩
  exact (end_node_ends_run_iff plainServices ⟨endBesideTimer, "manual", [], false⟩ endFirst p hp
    1 t ht "e" (some "e3") (endBesideTimer.nodes.length * endBesideTimer.maxVisitsPerNode) raw
    hraw hend hsuccess (turns 1 13) p' hp' t' ht' hdone hentered).mpr hsaw

end Smap.Workflow
