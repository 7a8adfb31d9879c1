import Smap.Workflow.Conduct
import Smap.Workflow.Retry
import Smap.Workflow.Snapshots

/-!
# Branches that stall

A node that is finished without parking leaves through a port.  If no edge is on it the
branch stops, and a run without another branch hangs until the watchdog finds it.  The
resume path fails the run in that case, and so does the execute path after an error that is
continued; after a normal completion nothing does, so it is for the linter to require the
edges.  It requires them of the nodes with several fixed ports, unless their errors
continue, and through reachability of those with one port; it does not require them of the
branches of a condition, nor the `default` edge of a join or of a wait.
-/

namespace Smap.Workflow

open Program RowVersions List Op

variable {env : Services} {l : Local}

variable {α : Type} {node : NodeSpec} {outcome : StepOutcome} {d : Definition} {o : Op}
  {p : Engine α} {stepId i budget : ℕ} {nodeId port : String} {l' : Local} {w' : World}
  {ended : Prop} {raw : NodeDef} {lint : LintEnv} {error : Option String}

/-! ## What the engine makes of it -/

/-- What `_apply_on_error` makes of an outcome: a completed node stays as it is, and so does a
failed one without recovery; `continue` completes it; a retry parks it and a fallback takes
its place. -/
inductive Recovers (node : NodeSpec) (outcome : StepOutcome) : StepOutcome → Prop
  | kept (h : outcome.state = .failed → node.onError.strategy ≠ .continue) :
      Recovers node outcome outcome
  | continued (hfailed : outcome.state = .failed) (h : node.onError.strategy = .continue) :
      Recovers node outcome
        { state := .succeeded, output := outcome.output, port := normalCompletionPort node }
  | parked (settled : StepOutcome) (h : settled.park = true) : Recovers node outcome settled
  | replaced (settled : StepOutcome) (h : settled.skipEdges = true) : Recovers node outcome settled

/-- The context is that of a branch in progress. -/
structure OnCourse (d : Definition) (l : Local) : Prop where
  cancelled : l.ctx.cancelled = false
  workflowDef : l.ctx.workflowDef = d

theorem onCourse_record (ho : o.aside = true) (v : Option RunRow) (r : o.Res) (h : OnCourse d l) :
    OnCourse d (o.record l v r) := by
  cases o with
  | ctx o =>
    cases o with
    | get => exact h
    | assign | pend => exact ⟨h.cancelled, h.workflowDef⟩
    | _ => cases ho
  | redis o =>
    cases o with
    | setClaim => exact ⟨h.cancelled, h.workflowDef⟩
    | joinArrive => exact h
    | _ => cases ho
  | queue o => cases o <;> exact ⟨h.cancelled, h.workflowDef⟩
  | service => exact h
  | _ => cases ho

theorem onCourse_of_uses (hp : Uses aside p) (h : OnCourse d l) :
    Ensures env (fun l' _ => OnCourse d l') p l :=
  obeys_of_uses (fun _ _ _ _ => trivial) (fun _ v _ r ho _ h => onCourse_record ho v r h) hp h

theorem onCourse_runExecutor {dry : Bool} (h : OnCourse d l) :
    Ensures env (fun l' _ => OnCourse d l') (runExecutor env dry node) l := by
  unfold runExecutor
  split
  · exact h
  · exact ⟨trivial, fun _ _ _ => onCourse_of_uses
      ((uses_getExecutor node).mono fun _ => aside_of_ofExecutors) ⟨h.cancelled, h.workflowDef⟩⟩

theorem recovers_recover {executeNext : String → Option String → Engine Unit} (h : OnCourse d l) :
    Ensures env (fun l' settled => Recovers node outcome settled ∧
        (settled.park = false → settled.skipEdges = false → OnCourse d l'))
      (recover executeNext node outcome) l := by
  unfold recover
  split
  · rename_i hfailed
    unfold applyOnError
    cases hstrategy : node.onError.strategy with
    | fail => exact ⟨.kept (by simp [hstrategy]), fun _ _ => h⟩
    | «continue» => exact ⟨.continued hfailed hstrategy, fun _ _ => h⟩
    | retry =>
      refine obeys_perform_bind trivial fun _ count _ => ?_
      split
      · exact obeys_perform_bind trivial fun _ _ _ => ⟨.parked _ rfl, nofun⟩
      · exact ⟨.kept (by simp [hstrategy]), fun _ _ => ⟨h.cancelled, h.workflowDef⟩⟩
    | fallback =>
      dsimp only
      split
      · exact obeys_bind (ensures_true _ _) fun _ _ _ => ⟨.replaced _ rfl, fun _ => nofun⟩
      · exact ⟨.kept (by simp [hstrategy]), fun _ _ => h⟩
  · rename_i hdone
    exact ⟨.kept fun hfailed => absurd hfailed hdone, fun _ _ => h⟩

/-- Record the outcome of a step and write the variables back: whether the run is live. -/
def recordOutcome (stepId : ℕ) (settled : StepOutcome) : Engine Bool := do
  perform (.step (.update stepId settled))
  let ctx : RunContext ← perform (.ctx .get)
  perform (.run (.updateVariables ctx.vars))

/-- The run row is in the continuation's hand, live. -/
def Local.holdsLive (l : Local) : Prop := ∃ state, l.own = some state ∧ state.isActive = true

theorem holdsLive_recordOutcome {settled : StepOutcome} (h : OnCourse d l) :
    Ensures env (fun l' updated => OnCourse d l' ∧ (updated = true → l'.holdsLive))
      (recordOutcome stepId settled) l := by
  refine obeys_perform_bind trivial fun _ _ _ => obeys_perform_bind trivial fun _ ctx _ => ?_
  refine ⟨trivial, fun v updated hc => ⟨⟨h.cancelled, h.workflowDef⟩, ?_⟩⟩
  rintro rfl
  obtain ⟨row, rfl, hactive⟩ := (Option.any_eq_true ..).mp hc.2.symm
  exact ⟨row.state, rfl, hactive⟩

/-- One execution of a claimed node: what its executor returned, what was made of it, whether
the write-back found the run live, and the notes before the rest of the call and after it. -/
inductive Passes (env : Services) (i budget : ℕ) (isDryRun : Bool) (nodeId : String)
    (node : NodeSpec) (stepId : ℕ) (l : Local) (w : World) (outcome settled : StepOutcome)
    (updated : Bool) (before after : Local) (w' : World) : Prop
  | intro (l₁ l₂ : Local) (w₁ w₂ w₃ : World)
      (hexecute : Exec (machine env) i (runExecutor env isDryRun node) l w outcome l₁ w₁)
      (hrecover : Exec (machine env) i (recover (executeNode env budget) node outcome) l₁ w₁
        settled l₂ w₂)
      (hrecord : Exec (machine env) i (recordOutcome stepId settled) l₂ w₂ updated before w₃)
      (hsettle : Exec (machine env) i
        (if updated then settleNode (executeNode env budget) nodeId node settled
          (outcome.state == .failed && node.onError.strategy == .continue) outcome.error
        else return ()) before w₃ () after w')

/-- **Every execution of a claimed node passes through such values.** -/
theorem passes_of_exec {w : World} {dry : Bool}
    (h : Exec (machine env) i (runClaimed env (executeNode env budget) dry nodeId node stepId)
      l w () l' w') :
    ∃ outcome settled updated before,
      Passes env i budget dry nodeId node stepId l w outcome settled updated before l' w' := by
  obtain ⟨outcome, l₁, w₁, hexecute, h⟩ := Exec.of_bind h
  obtain ⟨settled, l₂, w₂, hrecover, h⟩ := Exec.of_bind h
  obtain ⟨updated, before, w₃, hrecord, h⟩ := Exec.of_bind (p := recordOutcome stepId settled) h
  exact ⟨outcome, settled, updated, before, .intro l₁ l₂ w₁ w₂ w₃ hexecute hrecover hrecord h⟩

/-! ## Going on -/

/-- Continuation `i` sees the run in a terminal state. -/
def RunOver (i : ℕ) (w : World) : Prop :=
  ∃ row, w.run.seenBy i = some row ∧ row.state.isTerminal = true

/-- The branch goes on from the node: an edge of it is followed or enqueued; or the run is
over; or nothing was wired on purpose. -/
inductive GoesOn (ended : Prop) (nodeId : String) (raw : NodeDef) (l l' : Local) : Prop
  | followed (e : EdgeDef) (he : e ∈ l.ctx.workflowDef.outgoing nodeId)
      (h : l.ctx.nodeVisitCounts e.toNode < l'.ctx.nodeVisitCounts e.toNode)
  | enqueued (e : EdgeDef) (he : e ∈ l.ctx.workflowDef.outgoing nodeId) (new : List Pending)
      (hnew : l'.pending = l.pending ++ new) (x : Pending) (hx : x ∈ new)
      (htask : x.task = .runWorkflowStep) (hnode : x.nodeId = e.toNode)
      (hedge : x.fromEdge = some e.id)
  | ended (h : ended)
  | listener (hwait : raw.type = .waitForEvent)
      (hnone : l.ctx.workflowDef.outgoing nodeId = [])

theorem GoesOn.imp {ended' : Prop} (h : GoesOn ended nodeId raw l l') (hover : ended → ended') :
    GoesOn ended' nodeId raw l l' := by
  cases h with
  | followed e he h => exact .followed e he h
  | enqueued e he new hnew x hx htask hnode hedge =>
    exact .enqueued e he new hnew x hx htask hnode hedge
  | ended h => exact .ended (hover h)
  | listener hwait hnone => exact .listener hwait hnone

/-- Nothing happens: the branch has stopped, and the run is live. -/
structure Stops (l l' : Local) : Prop where
  visits : l'.ctx.nodeVisitCounts = l.ctx.nodeVisitCounts
  pending : ∃ new, l'.pending = l.pending ++ new ∧ ∀ x ∈ new, x.fromEdge = none
  live : l'.holdsLive

theorem Stops.not_goesOn (h : Stops l l') (hlink : Link i l' w')
    (hwired : ¬(raw.type = .waitForEvent ∧ l.ctx.workflowDef.outgoing nodeId = [])) :
    ¬GoesOn (RunOver i w') nodeId raw l l' := by
  intro hgoes
  cases hgoes with
  | followed e he hlt =>
    rw [h.visits] at hlt
    exact lt_irrefl _ hlt
  | enqueued e he new hnew x hx htask hnode hedge =>
    obtain ⟨new', hnew', hplain⟩ := h.pending
    obtain rfl := append_cancel_left (hnew.symm.trans hnew')
    simp [hplain x hx] at hedge
  | ended hover =>
    obtain ⟨row, hrow, hterm⟩ := hover
    obtain ⟨state, hown, hactive⟩ := h.live
    have hstate := hlink.sees.own state hown
    rw [hrow] at hstate
    cases hstate
    simp [RunState.isActive, hterm] at hactive
  | listener hwait hnone => exact hwired ⟨hwait, hnone⟩

/-- `_fail_run` with a live run in hand ends it. -/
theorem ended_failRun {reason : String} (h : l.holdsLive) :
    Ensures env (fun l' _ => l'.ended = true) (failRun reason) l := by
  obtain ⟨state, hown, hactive⟩ := h
  refine obeys_perform_bind trivial fun _ _ _ => obeys_perform_bind trivial fun v changed hc => ?_
  have hchanged : changed = true := by
    obtain ⟨row, rfl, rfl⟩ := Option.map_eq_some_iff.mp (hc.1.own state hown)
    have hanswer : changed = validTransition row.state .failed := hc.2
    cases hstate : row.state <;> simp_all [RunState.isActive, RunState.isTerminal, validTransition]
  subst hchanged
  exact obeys_perform_bind trivial fun _ _ _ => obeys_perform_bind trivial fun _ _ _ => rfl

/-! ## Following an edge -/

/-- As long as a context lasts no visit is taken back. -/
theorem visits_record (ho : o.keepsContext = true) (v : Option RunRow) (r : o.Res)
    (nodeId : String) :
    l.ctx.nodeVisitCounts nodeId ≤ (o.record l v r).ctx.nodeVisitCounts nodeId := by
  cases o with
  | ctx o =>
    cases o with
    | create => cases ho
    | visit =>
      simp only [record, CtxOp.record, Function.update_apply]
      split
      · rename_i heq
        rw [heq]
        exact Nat.le_succ _
      · exact le_refl _
    | _ => exact le_refl _
  | run o | step o | redis o | queue o | audit o => cases o <;> exact le_refl _
  | service | diverge => exact le_refl _
  | commit => cases ho

/-- A visit that was counted stays counted through the execution of nodes. -/
theorem kept_visits {n : ℕ} :
    Kept env (fun _ _ => True) fun l => n < l.ctx.nodeVisitCounts nodeId := by
  have hkeeps {l : Local} {o : Op} (ho : o.keepsContext = true)
      (hl : n < l.ctx.nodeVisitCounts nodeId) (v : Option RunRow) (r : o.Res) :
      n < (o.record l v r).ctx.nodeVisitCounts nodeId :=
    lt_of_lt_of_le hl (visits_record ho v r nodeId)
  refine ⟨fun ho hl => ⟨trivial, hkeeps (keepsContext_of_light ho) hl⟩,
    fun hl => ⟨trivial, hkeeps rfl hl⟩, fun node l hl => ?_⟩
  refine obeys_of_uses (fun _ _ _ _ => trivial) (fun _ v _ r ho _ hl => hkeeps ho hl v r)
    (uses_runExecutor node rfl fun _ => keepsContext_of_ofExecutors) hl

theorem runActive_of_holdsLive {v : Option RunRow} (h : l.holdsLive) (hsees : Sees l v) :
    runActive v = true := by
  obtain ⟨state, hown, hactive⟩ := h
  obtain ⟨row, rfl, rfl⟩ := Option.map_eq_some_iff.mp (hsees.own state hown)
  exact hactive

/-- **A node that is executed in a branch in progress is visited.** -/
theorem visited_executeNode {fromEdge : Option String} (hcancelled : l.ctx.cancelled = false)
    (hlive : l.holdsLive) : Ensures env
      (fun l' _ => l.ctx.nodeVisitCounts nodeId < l'.ctx.nodeVisitCounts nodeId)
      (executeNode env (budget + 1) nodeId fromEdge) l := by
  refine obeys_perform_bind trivial fun _ ctx hctx => ?_
  obtain rfl : ctx = l.ctx := hctx.2
  rw [if_neg (by simp [hcancelled])]
  refine obeys_perform_bind trivial fun v run hrun => ?_
  obtain rfl : run = v := hrun.2
  rw [if_pos (runActive_of_holdsLive hlive hrun.1)]
  refine obeys_perform_bind trivial fun _ _ _ => obeys_perform_bind trivial fun _ count _ => ?_
  have hvisited : l.ctx.nodeVisitCounts nodeId <
      Function.update l.ctx.nodeVisitCounts nodeId (l.ctx.nodeVisitCounts nodeId + 1) nodeId := by
    simp
  split
  · exact goes_failRun kept_visits hvisited
  · split
    · exact goes_failRun kept_visits hvisited
    · exact goes_claimNode kept_visits (goes_executeNode kept_visits budget) hvisited

/-- Several edges are enqueued one by one. -/
theorem pending_pendBranches (edges : List EdgeDef) :
    ∀ l, Ensures env (fun l' _ => ∃ new, l'.pending = l.pending ++ new ∧ ∀ e ∈ edges, ∃ x ∈ new,
        x.task = .runWorkflowStep ∧ x.nodeId = e.toNode ∧ x.fromEdge = some e.id)
      (pendBranches edges) l := by
  induction edges with
  | nil => exact fun l => ⟨[], by simp, by simp⟩
  | cons edge rest ih =>
    intro l
    refine obeys_perform_bind trivial fun v r _ => ?_
    refine Obeys.mono (fun _ _ _ => trivial) (fun l' _ h => ?_) (ih _)
    obtain ⟨new, hnew, hrest⟩ := h
    refine ⟨_ :: new, hnew.trans (append_assoc ..), fun e he => ?_⟩
    rcases mem_cons.mp he with rfl | he
    · exact ⟨_, mem_cons_self, rfl, rfl, rfl⟩
    · obtain ⟨x, hx, hspec⟩ := hrest e he
      exact ⟨x, mem_cons_of_mem _ hx, hspec⟩

theorem mem_matchingEdges {e : EdgeDef} (h : e ∈ matchingEdges d nodeId port) :
    e ∈ d.outgoing nodeId := by
  unfold matchingEdges at h
  split at h
  · exact h
  · exact (mem_filter.mp h).1

/-- `_advance_from` says whether an edge matched; then the branch goes on. -/
theorem goesOn_advanceFrom (hcancelled : l.ctx.cancelled = false) (hlive : l.holdsLive) :
    Ensures env (fun l' advanced => if matchingEdges l.ctx.workflowDef nodeId port = []
        then advanced = false ∧ l' = l
        else advanced = true ∧ ∀ ended raw, GoesOn ended nodeId raw l l')
      (advanceFrom (executeNode env (budget + 1)) nodeId port) l := by
  refine obeys_perform_bind trivial fun v ctx hctx => ?_
  obtain rfl : ctx = l.ctx := hctx.2
  have hmem : ∀ e ∈ matchingEdges l.ctx.workflowDef nodeId port,
      e ∈ l.ctx.workflowDef.outgoing nodeId := fun e he => mem_matchingEdges he
  generalize matchingEdges l.ctx.workflowDef nodeId port = edges at hmem ⊢
  cases edges with
  | nil => exact ⟨rfl, rfl⟩
  | cons edge rest =>
    have hedge := hmem edge mem_cons_self
    cases rest with
    | nil =>
      refine obeys_bind (visited_executeNode hcancelled hlive) fun l' _ hvisited => ?_
      exact ⟨rfl, fun _ _ => .followed edge hedge hvisited⟩
    | cons =>
      refine obeys_bind (pending_pendBranches _ l) fun l' _ h => ?_
      obtain ⟨new, hnew, hall⟩ := h
      obtain ⟨x, hx, htask, hnode, hfrom⟩ := hall edge mem_cons_self
      exact ⟨rfl, fun _ _ => .enqueued edge hedge new hnew x hx htask hnode hfrom⟩

/-! ## Ports -/

/-- What the linter leaves to be required of the port a node completes on. -/
def PortWired (d : Definition) (nodeId : String) (raw : NodeDef) (port : String) : Prop :=
  match raw.type with
  | .trigger | .parallel | .setVariable | .end => True
  | .agentInvocation | .instruct | .subagentSpawn | .approvalGate =>
    (parseNode raw).onError.strategy ≠ .continue ∨ ∃ e ∈ d.outgoing nodeId, e.port = port
  | .condition | .join => ∃ e ∈ d.outgoing nodeId, e.port = port
  | .waitForEvent => d.outgoing nodeId = [] ∨ ∃ e ∈ d.outgoing nodeId, e.port = port

section Raw

variable (hraw : d.nodesById nodeId = some raw)

include hraw

theorem matchingEdges_eq_nil_iff (htype : raw.type ≠ .parallel) :
    matchingEdges d nodeId port = [] ↔ ¬∃ e ∈ d.outgoing nodeId, e.port = port := by
  simp [matchingEdges, hraw, htype]

omit hraw in
/-- A strategy that is not parsed as `continue` is not written so. -/
theorem strategy_ne_continue (h : (parseNode raw).onError.strategy ≠ .continue) :
    (raw.onErrorRaw.getStr? "strategy").getD "fail" ≠ "continue" := by
  intro hraw
  cases hs : raw.onErrorRaw.getStr? "strategy" with
  | none => simp [hs] at hraw
  | some strategy =>
    obtain rfl : strategy = "continue" := by simpa [hs] using hraw
    exact h (by simp [parseNode, hs, OnErrorStrategy.ofValue?])

/-- A node with the `default` port alone has an edge on it. -/
theorem exists_default_edge (hvalid : lintValid lint d = true) (hwait : raw.type ≠ .waitForEvent)
    (hend : raw.type ≠ .end) (hports : Linter.allowedPorts raw = ["default"]) :
    ∃ e ∈ d.outgoing nodeId, e.port = "default" := by
  obtain hout | ⟨htype, -⟩ := outgoing_ne_nil hvalid hraw hend
  · obtain ⟨e, he⟩ := exists_mem_of_ne_nil _ hout
    have hport := port_mem_allowedPorts hvalid hraw hend he
    rw [hports] at hport
    exact ⟨e, he, mem_singleton.mp hport⟩
  · exact absurd htype hwait

/-- **On a lint-valid definition a completed node finds an edge**, if its port is wired as
the linter leaves to be required. -/
theorem matchingEdges_ne_nil (hvalid : lintValid lint d = true) (hend : raw.type ≠ .end)
    (hport : ∀ p, completionPort raw.type = some p → port = p)
    (hwired : PortWired d nodeId raw port) :
    matchingEdges d nodeId port ≠ [] ∨ raw.type = .waitForEvent ∧ d.outgoing nodeId = [] := by
  have hedge : raw.type ≠ .parallel → (∃ e ∈ d.outgoing nodeId, e.port = port) →
      matchingEdges d nodeId port ≠ [] := by
    intro htype h hnone
    exact (matchingEdges_eq_nil_iff hraw htype).mp hnone h
  have hmulti : raw.type ≠ .parallel → port ∈ Linter.multiPortNodes raw.type →
      ((parseNode raw).onError.strategy ≠ .continue ∨ ∃ e ∈ d.outgoing nodeId, e.port = port) →
      matchingEdges d nodeId port ≠ [] := by
    intro htype hmem h
    refine hedge htype (h.elim (fun hstrategy => ?_) id)
    exact exists_edge_of_multiPort hvalid hraw (strategy_ne_continue hstrategy) hmem
  cases htype : raw.type with
  | trigger | setVariable =>
    obtain rfl := hport "default" (by simp [htype, completionPort])
    exact .inl (hedge (by simp [htype]) (exists_default_edge hraw hvalid (by simp [htype]) hend
      (by simp [Linter.allowedPorts, htype])))
  | parallel =>
    obtain hout | ⟨hwait, -⟩ := outgoing_ne_nil hvalid hraw hend
    · exact .inl (by simpa [matchingEdges, hraw, htype] using hout)
    · simp [htype] at hwait
  | agentInvocation | instruct | subagentSpawn =>
    obtain rfl := hport "success" (by simp [htype, completionPort])
    simp only [PortWired, htype] at hwired
    exact .inl (hmulti (by simp [htype]) (by simp [htype, Linter.multiPortNodes]) hwired)
  | approvalGate =>
    obtain rfl := hport "rejected" (by simp [htype, completionPort])
    simp only [PortWired, htype] at hwired
    exact .inl (hmulti (by simp [htype]) (by simp [htype, Linter.multiPortNodes]) hwired)
  | condition | join =>
    simp only [PortWired, htype] at hwired
    exact .inl (hedge (by simp [htype]) hwired)
  | waitForEvent =>
    simp only [PortWired, htype] at hwired
    exact hwired.elim (fun hnone => .inr ⟨rfl, hnone⟩) fun h => .inl (hedge (by simp [htype]) h)
  | «end» => exact absurd htype hend

/-- A port that is not wired has no edge. -/
theorem matchingEdges_eq_nil (hwired : ¬PortWired d nodeId raw port) :
    matchingEdges d nodeId port = [] ∧
      ¬(raw.type = .waitForEvent ∧ d.outgoing nodeId = []) := by
  cases htype : raw.type <;> simp only [PortWired, htype] at hwired
  all_goals first
    | exact absurd trivial hwired
    | refine ⟨(matchingEdges_eq_nil_iff hraw (by simp [htype])).mpr ?_, ?_⟩ <;> simp_all

end Raw

/-! ## The end of a call -/

/-- A signal for waiting siblings is no edge. -/
theorem pending_signalAssignment : Ensures env (fun l' _ => l'.ctx = l.ctx ∧ l'.own = l.own ∧
        ∃ new, l'.pending = l.pending ++ new ∧ ∀ x ∈ new, x.fromEdge = none)
      (signalAssignment nodeId node outcome) l := by
  unfold signalAssignment
  split
  · exact ⟨trivial, fun _ _ _ => ⟨rfl, rfl, [_], rfl, by simp⟩⟩
  · exact ⟨rfl, rfl, [], by simp, by simp⟩

theorem GoesOn.of_signal {l₁ : Local} (h : GoesOn ended nodeId raw l₁ l') (hctx : l₁.ctx = l.ctx)
    {new : List Pending} (hnew : l₁.pending = l.pending ++ new) : GoesOn ended nodeId raw l l' := by
  cases h with
  | followed e he h => exact .followed e (hctx ▸ he) (hctx ▸ h)
  | enqueued e he new' hnew' x hx htask hnode hedge =>
    refine .enqueued e (hctx ▸ he) (new ++ new') ?_ x (mem_append_right _ hx) htask hnode hedge
    rw [hnew', hnew, append_assoc]
  | ended h => exact .ended h
  | listener hwait hnone => exact .listener hwait (hctx ▸ hnone)

theorem hasOutgoing_eq_false (h : hasOutgoing d nodeId = false) : d.outgoing nodeId = [] := by
  simpa [hasOutgoing, Definition.outgoing] using h

/-- **Following the edges**: the branch goes on if an edge matches, or if an error is
continued. -/
theorem goesOn_followEdges {continued : Bool} (hcancelled : l.ctx.cancelled = false)
    (hlive : l.holdsLive) (h : matchingEdges l.ctx.workflowDef nodeId outcome.port ≠ [] ∨
      (raw.type = .waitForEvent ∧ l.ctx.workflowDef.outgoing nodeId = []) ∨
      (continued = true ∧ l.ctx.workflowDef.outgoing nodeId ≠ [])) :
    Ensures env (fun l' _ => GoesOn (l'.ended = true) nodeId raw l l')
      (followEdges (executeNode env (budget + 1)) nodeId outcome continued error) l := by
  refine obeys_bind (goesOn_advanceFrom hcancelled hlive) fun l₁ advanced hadvanced => ?_
  refine obeys_perform_bind trivial fun _ ctx hctx => ?_
  obtain rfl : ctx = l₁.ctx := hctx.2
  split at hadvanced
  · rename_i hnone
    obtain ⟨rfl, rfl⟩ := hadvanced
    obtain hmatch | ⟨hwait, hout⟩ | ⟨rfl, hout⟩ := h
    · exact absurd hnone hmatch
    · have hno : hasOutgoing l₁.ctx.workflowDef nodeId = false := by
        simpa [hasOutgoing, Definition.outgoing] using hout
      rw [if_neg (by simp [hno])]
      exact .listener hwait hout
    · have hyes : hasOutgoing l₁.ctx.workflowDef nodeId = true := by
        cases hno : hasOutgoing l₁.ctx.workflowDef nodeId with
        | true => rfl
        | false => exact absurd (hasOutgoing_eq_false hno) hout
      rw [if_pos (by simp [hyes])]
      exact Obeys.mono (fun _ _ _ => trivial) (fun _ _ h => .ended h) (ended_failRun hlive)
  · obtain ⟨rfl, hgoes⟩ := hadvanced
    rw [if_neg (by simp)]
    exact hgoes _ _

/-- Without a matching edge and without an error to continue, the branch stops. -/
theorem stops_followEdges (hcancelled : l.ctx.cancelled = false) (hlive : l.holdsLive)
    (h : matchingEdges l.ctx.workflowDef nodeId outcome.port = []) :
    Ensures env (fun l' _ => l' = l)
      (followEdges (executeNode env (budget + 1)) nodeId outcome false error) l := by
  refine obeys_bind (goesOn_advanceFrom hcancelled hlive) fun l₁ advanced hadvanced => ?_
  rw [if_pos h] at hadvanced
  obtain ⟨rfl, rfl⟩ := hadvanced
  exact obeys_perform_bind trivial fun _ ctx _ => rfl

section Settle

variable {settled : StepOutcome} (hvalid : lintValid lint l.ctx.workflowDef = true)
  (hraw : l.ctx.workflowDef.nodesById nodeId = some raw) (hend : raw.type ≠ .end)
  (hcancelled : l.ctx.cancelled = false) (hlive : l.holdsLive)

include hraw hend hcancelled hlive

include hvalid in
/-- **A node that is resumed goes on**, at whatever port. -/
theorem goesOn_followResumed : Ensures env (fun l' _ => GoesOn (l'.ended = true) nodeId raw l l')
    (followResumed env nodeId port) l := by
  refine obeys_perform_bind trivial fun _ _ _ => obeys_perform_bind trivial fun _ ctx hctx => ?_
  obtain rfl : ctx = l.ctx := hctx.2
  refine obeys_bind (goesOn_advanceFrom hcancelled hlive) fun l₁ advanced hadvanced => ?_
  split at hadvanced
  · obtain ⟨rfl, rfl⟩ := hadvanced
    cases hout : hasOutgoing l.ctx.workflowDef nodeId with
    | true =>
      exact Obeys.mono (fun _ _ h => h) (fun _ _ h => .ended h) (ended_failRun hlive)
    | false =>
      obtain hne | ⟨hwait, hnone⟩ := outgoing_ne_nil hvalid hraw hend
      · exact absurd (hasOutgoing_eq_false hout) hne
      · exact .listener hwait hnone
  · obtain ⟨rfl, hgoes⟩ := hadvanced
    exact (hgoes (l₁.ended = true) raw).of_signal rfl (append_nil _).symm

variable (hrecovers : Recovers (parseNode raw) outcome settled) (hpark : settled.park = false)
  (hskip : settled.skipEdges = false)

include hrecovers hpark hskip

include hvalid in
/-- **A finished node goes on**, after an error or with its port wired. -/
theorem goesOn_settleNode (hemits : Emits (parseNode raw) outcome)
    (h : outcome.state = .failed ∨ PortWired l.ctx.workflowDef nodeId raw outcome.port) :
    Ensures env (fun l' _ => GoesOn (l'.ended = true) nodeId raw l l')
      (settleNode (executeNode env (budget + 1)) nodeId (parseNode raw) settled
        (outcome.state == .failed && (parseNode raw).onError.strategy == .continue)
        outcome.error) l := by
  have hout := outgoing_ne_nil hvalid hraw hend
  have htype : (parseNode raw).type ≠ .end := hend
  refine obeys_bind pending_signalAssignment fun l₁ _ hsignal => ?_
  obtain ⟨hctx, hown, new, hnew, -⟩ := hsignal
  have hcancelled₁ : l₁.ctx.cancelled = false := hctx ▸ hcancelled
  have hlive₁ : l₁.holdsLive := by
    obtain ⟨state, hstate, hactive⟩ := hlive
    exact ⟨state, hown.trans hstate, hactive⟩
  rw [if_neg (by simp [hpark]), if_neg (by simp [hskip]), if_neg htype]
  refine Obeys.mono (fun _ _ h => h)
    (fun l' _ (h : GoesOn (l'.ended = true) nodeId raw l₁ l') => h.of_signal hctx hnew) ?_
  rw [← hctx] at hout h
  cases hrecovers with
  | kept =>
    by_cases hfailed : outcome.state = .failed
    · rw [if_pos hfailed]
      exact Obeys.mono (fun _ _ _ => trivial) (fun _ _ h => .ended h) (ended_failRun hlive₁)
    rw [if_neg hfailed]
    have hport : ∀ p, completionPort raw.type = some p → outcome.port = p := by
      obtain hf | hp | hs | hport := hemits
      · exact absurd hf hfailed
      · simp [hpark] at hp
      · simp [hskip] at hs
      · exact hport
    obtain hmatch | hlisten := matchingEdges_ne_nil (hctx ▸ hraw) (hctx ▸ hvalid) hend hport
      (h.resolve_left hfailed)
    · exact goesOn_followEdges hcancelled₁ hlive₁ (.inl hmatch)
    · exact goesOn_followEdges hcancelled₁ hlive₁ (.inr (.inl hlisten))
  | continued hfailed hstrategy =>
    refine goesOn_followEdges hcancelled₁ hlive₁ (.inr ?_)
    obtain hout | hlisten := hout
    · exact .inr ⟨by simp [hfailed, hstrategy], hout⟩
    · exact .inl hlisten
  | parked _ h =>
    simp [hpark] at h
  | replaced _ h =>
    simp [hskip] at h

/-- **A completed node whose port is not wired stops.** -/
theorem stops_settleNode (hdone : outcome.state ≠ .failed)
    (hwired : ¬PortWired l.ctx.workflowDef nodeId raw outcome.port) :
    Ensures env (fun l' _ => Stops l l')
      (settleNode (executeNode env (budget + 1)) nodeId (parseNode raw) settled
        (outcome.state == .failed && (parseNode raw).onError.strategy == .continue)
        outcome.error) l := by
  have htype : (parseNode raw).type ≠ .end := hend
  refine obeys_bind pending_signalAssignment fun l₁ _ hsignal => ?_
  obtain ⟨hctx, hown, new, hnew, hplain⟩ := hsignal
  have hlive₁ : l₁.holdsLive := by
    obtain ⟨state, hstate, hactive⟩ := hlive
    exact ⟨state, hown.trans hstate, hactive⟩
  rw [if_neg (by simp [hpark]), if_neg (by simp [hskip]), if_neg htype]
  cases hrecovers with
  | kept =>
    have hcontinued : (outcome.state == .failed &&
        (parseNode raw).onError.strategy == .continue) = false := by
      simp [hdone]
    rw [if_neg hdone, hcontinued]
    have hnone := (matchingEdges_eq_nil hraw hwired).1
    rw [← hctx] at hnone
    refine Obeys.mono (fun _ _ _ => trivial) (fun l' _ h => ?_)
      (stops_followEdges (hctx ▸ hcancelled) hlive₁ hnone)
    subst h
    exact ⟨by rw [hctx], ⟨new, hnew, hplain⟩, hlive₁⟩
  | continued hfailed => exact absurd hfailed hdone
  | parked _ h =>
    simp [hpark] at h
  | replaced _ h =>
    simp [hskip] at h

end Settle

variable {settled : StepOutcome} {w : World}

theorem runOver_of_ended (hlink : Link i l w) (h : l.ended = true) : RunOver i w := by
  obtain ⟨state, hstate, hterm⟩ := (Option.any_eq_true ..).mp h
  obtain ⟨row, hrow, rfl⟩ := Option.map_eq_some_iff.mp (hlink.sees.own state hstate)
  exact ⟨row, hrow, hterm⟩

/-- **When a finished node goes on.** -/
theorem goesOn_iff_of_passes {updated dry : Bool}
    {before : Local} (hvalid : lintValid lint d = true) (hraw : d.nodesById nodeId = some raw)
    (hend : raw.type ≠ .end) (hcourse : OnCourse d l) (hlink : Link i l w)
    (h : Passes env i (budget + 1) dry nodeId (parseNode raw) stepId l w outcome settled updated
      before l' w')
    (hupdated : updated = true) (hpark : settled.park = false) (hskip : settled.skipEdges = false) :
    GoesOn (RunOver i w') nodeId raw before l' ↔
      outcome.state = .failed ∨ PortWired d nodeId raw outcome.port := by
  obtain ⟨l₁, l₂, w₁, w₂, w₃, hexecute, hrecover, hrecord, hsettle⟩ := h
  obtain ⟨⟨⟨hemits, -⟩, hcourse₁⟩, hlink₁⟩ := hexecute.post hlink
    ((hands_runExecutor (parseNode raw)).and (onCourse_runExecutor hcourse))
  obtain ⟨⟨hrecovers, hcourse₂⟩, hlink₂⟩ := hrecover.post hlink₁ (recovers_recover hcourse₁)
  obtain ⟨⟨⟨hcancelled, hdef⟩, hlive⟩, hlink₃⟩ := hrecord.post hlink₂
    (holdsLive_recordOutcome (hcourse₂ hpark hskip))
  rw [if_pos hupdated] at hsettle
  subst hdef
  by_cases hgoes :
      outcome.state = .failed ∨ PortWired before.ctx.workflowDef nodeId raw outcome.port
  · refine ⟨fun _ => hgoes, fun _ => ?_⟩
    obtain ⟨hgoes, hlink₄⟩ := hsettle.post hlink₃
      (goesOn_settleNode hvalid hraw hend hcancelled (hlive hupdated) hrecovers hpark hskip hemits
        hgoes)
    exact hgoes.imp (runOver_of_ended hlink₄)
  · refine ⟨fun h => absurd h ?_, fun h => absurd h hgoes⟩
    obtain ⟨hdone, hwired⟩ := not_or.mp hgoes
    obtain ⟨hstops, hlink₄⟩ := hsettle.post hlink₃
      (stops_settleNode hraw hend hcancelled (hlive hupdated) hrecovers hpark hskip hdone hwired)
    exact hstops.not_goesOn hlink₄ (matchingEdges_eq_nil hraw hwired).2

/-- **Which nodes of a lint-valid definition stall.**  In every pool reached by any schedule
of any run, let any continuation whose context has a lint-valid definition run a node it has
claimed, which is no end node, among all the others.  If the write-back finds the run live
and the node is neither parked nor told to skip its edges, the branch goes on exactly if
the executor failed or the port it completed on is wired.  A node that is resumed always
goes on. -/
theorem lint_valid_node_goes_on_iff (env : Services) (lint : LintEnv) (start : Start)
    (ms : List RunMove) (p : RunPool) (hrun : run (machine env) ms (initialPool env start) = some p)
    (i : ℕ) (t : Task Op Op.Res Local) (ht : p.tasks[i]? = some t)
    (hcancelled : t.loc.ctx.cancelled = false)
    (hvalid : lintValid lint t.loc.ctx.workflowDef = true) (nodeId : String) (raw : NodeDef)
    (hraw : t.loc.ctx.workflowDef.nodesById nodeId = some raw) (hend : raw.type ≠ .end)
    (budget : ℕ) :
    (∀ stepId l' w',
      Exec (machine env) i
        (runClaimed env (executeNode env (budget + 1)) t.loc.ctx.isDryRun nodeId (parseNode raw)
          stepId) t.loc p.world () l' w' →
      (∃ outcome settled updated before, Passes env i (budget + 1) t.loc.ctx.isDryRun nodeId
        (parseNode raw) stepId t.loc p.world outcome settled updated before l' w') ∧
      ∀ outcome settled updated before, Passes env i (budget + 1) t.loc.ctx.isDryRun nodeId
        (parseNode raw) stepId t.loc p.world outcome settled updated before l' w' →
        updated = true → settled.park = false → settled.skipEdges = false →
        (GoesOn (RunOver i w') nodeId raw before l' ↔ outcome.state = .failed ∨
          PortWired t.loc.ctx.workflowDef nodeId raw outcome.port)) ∧
    ∀ port l' w', t.loc.holdsLive →
      Exec (machine env) i (followResumed env nodeId port) t.loc p.world () l' w' →
      GoesOn (RunOver i w') nodeId raw t.loc l' := by
  have hsound := (run_invariant_of_sound (fun _ => True) (fun _ _ _ _ _ _ _ => trivial)
    trivial (allSteps_true _ ms _) hrun).1
  have hlink : Link i t.loc p.world := hsound.link_of_getElem? ht
  constructor
  · intro stepId l' w' hexec
    refine ⟨passes_of_exec hexec, ?_⟩
    intro outcome settled updated before hpasses hupdated hpark hskip
    exact goesOn_iff_of_passes hvalid hraw hend ⟨hcancelled, rfl⟩ hlink hpasses hupdated hpark hskip
  · intro port l' w' hlive hexec
    obtain ⟨hgoes, hlink'⟩ := hexec.post hlink
      (goesOn_followResumed hvalid hraw hend hcancelled hlive)
    exact hgoes.imp (runOver_of_ended hlink')

/-- A condition with a branch whose port has no edge. -/
def unwiredBranch : Definition where
  entryNodeId := "t"
  nodes := [triggerNode, ⟨"c", .condition, [("branches", .arr [.obj
    [("when", .str "\x7b\x7b urgent \x7d\x7d"), ("port", .str "yes")]]),
    ("default_port", .str "no")]⟩, endNode "e"]
  edges := [⟨"e1", "t", "c", none, none⟩, ⟨"e2", "c", "e", some "no", none⟩]
  vars := [("urgent", [("type", .str "boolean"), ("default", .bool true)])]

/-- The branch holds. -/
def takesBranch : List RunMove := turns 0 21 ++ [.step 0 (.now 0)] ++ turns 0 8

/-- The definition is accepted, and its run hangs: everybody is done, nothing is queued and
every step has succeeded, but the run is `RUNNING`. -/
theorem unwired_branch_stalls :
    Accepted plainEnv unwiredBranch ∧
    ∃ p row, runManually unwiredBranch takesBranch = some p ∧
      p.world.run.committed = some row ∧ row.state = .running ∧
      (∀ t ∈ p.tasks, t.finished = true) ∧ p.world.queue = [] ∧
      ∀ c ∈ p.world.steps, ∃ s, c.committed = some s ∧ s.state = .succeeded := by
  simp only [exists_and_left]
  exact ⟨⟨by decide +kernel, by decide +kernel⟩, by decide +kernel⟩

/-- Run a claimed trigger of that run. -/
def callTrigger (raw : NodeDef) : Engine Unit :=
  runClaimed plainServices (executeNode plainServices 3) false "t" (parseNode raw) 0

/-- The trigger goes on. -/
theorem trigger_goes_on :
    ∃ p t raw l' w', runManually unwiredBranch (turns 0 9) = some p ∧ p.tasks[0]? = some t ∧
      t.loc.ctx.workflowDef.nodesById "t" = some raw ∧ raw.type = .trigger ∧
      Exec (machine plainServices) 0 (callTrigger raw) t.loc p.world () l' w' ∧
      ∀ outcome settled before, Passes plainServices 0 3 false "t" (parseNode raw) 0
        t.loc p.world outcome settled true before l' w' → settled.park = false →
        settled.skipEdges = false → GoesOn (RunOver 0 w') "t" raw before l' := by
  obtain ⟨p, hp, t, ht, raw, hraw, hcancelled, hdry, hvalid, htype, p', hp', t', ht', hdone⟩ :
      ∃ p ∈ runManually unwiredBranch (turns 0 9), ∃ t ∈ p.tasks[0]?,
        ∃ raw ∈ t.loc.ctx.workflowDef.nodesById "t", t.loc.ctx.cancelled = false ∧
          t.loc.ctx.isDryRun = false ∧
          lintValid plainEnv t.loc.ctx.workflowDef = true ∧ raw.type = .trigger ∧
          ∃ p' ∈ run (machine plainServices) (turns 0 12 ++ [.step 0 (.now 0)] ++ turns 0 6)
            ⟨p.world, [⟨t.loc, callTrigger raw⟩]⟩, ∃ t' ∈ p'.tasks[0]?, t'.finished = true := by
    decide +kernel
  have hexec := exec_of_run hdone _ hp' rfl ht'
  refine ⟨p, t, raw, t'.loc, p'.world, hp, ht, hraw, htype, hexec, ?_⟩
  intro outcome settled before hpasses hpark hskip
  rw [← hdry] at hpasses
  rw [callTrigger, ← hdry] at hexec
  have hiff := ((lint_valid_node_goes_on_iff plainServices plainEnv
    ⟨unwiredBranch, "manual", [], false⟩ (turns 0 9) p hp 0 t ht hcancelled hvalid "t" raw hraw
    (by simp [htype]) 2).1 0 t'.loc p'.world hexec).2 outcome settled true before hpasses rfl hpark
    hskip
  exact hiff.mpr (.inr (by simp [PortWired, htype]))

end Smap.Workflow
