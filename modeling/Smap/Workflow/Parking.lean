import Smap.Workflow.Variables

/-!
# Parked branches

`WAITING` is one column for all branches of a run.  The branch that parks sets it, the
branch that resumes sets `RUNNING`, and a branch that comes to a dead end — a join it does
not complete, a port without an edge — leaves the column as it is.  If it has resumed and
a sibling is still parked, nobody ever sets `WAITING` again, and the sibling cannot be
resumed.

The main result, `parked_branch_waits`, says that this is the only way: in a run in which
no branch comes to a dead end, with the run `RUNNING`, while a step is open and nobody
else is at work, every open step of a live run at rest finds the run `WAITING`.
-/

namespace Smap.Workflow

open Program RowVersions Versioned List Local RunOp StepRow Bool

variable {env : Services}

/-! ## Work in progress -/

/-- The continuation has collected a job that runs a node. -/
def Local.collectedNode (l : Local) : Bool := l.pending.any fun e => e.job.runsNode

/-- The continuation may be executing nodes, or has nodes to send off. -/
def Local.works (l : Local) : Bool := l.active || l.collectedNode

/-- A continuation is at work on nodes and not done. -/
def working (t : Task Op Op.Res Local) : Bool := !t.finished && t.loc.works

/-- A node is executing, or a `run_workflow_step` or `retry_workflow_node` job is queued
or about to be. -/
def busy (p : RunPool) : Bool := p.tasks.any working || p.world.queue.any Job.runsNode

/-- The same, apart from one continuation. -/
def busyBeside (i : ℕ) (p : RunPool) : Bool :=
  (p.tasks.eraseIdx i).any working || p.world.queue.any Job.runsNode

/-- A step is open in the eyes of a transaction. -/
def seesOpenStep (i : ℕ) (w : World) : Bool :=
  w.steps.any fun c => (c.seenBy i).any isOpen

/-- The continuation commits at a dead end: it has executed nodes, and neither parked, nor
asked for an end of the run, nor collected a node to run. -/
def atDeadEnd (t : Task Op Op.Res Local) : Bool :=
  aboutToCommit t && t.loc.active && !t.loc.settled && !t.loc.collectedNode

/-- A continuation that commits at a dead end with the run `RUNNING` leaves no step open,
or somebody else is at work. -/
def deadEndsAlone (m : RunMove) (p : RunPool) : Bool :=
  match m with
  | .env _ => true
  | .step i _ =>
    match p.tasks[i]? with
    | none => true
    | some t =>
      !(atDeadEnd t && (p.world.run.seenBy i).any fun row => row.state == .running) ||
        !seesOpenStep i p.world || busyBeside i p

/-! ## Nobody forgets the jobs it has collected -/

/-- A continuation that only its end matters of leaves no collected job behind. -/
abbrev Drains (env : Services) (p : Engine Unit) (l : Local) : Prop :=
  Obeys (discipline env) (fun _ _ => True) (fun l' _ => l'.pending = []) p l

variable {i : ℕ} {p p' : RunPool} {t : Task Op Op.Res Local} {w : World} {o : Op} {input : Input}
  {r : o.Res} {m : RunMove}

theorem drains_started (e : Outside) (w w' : World) (new : List (Local × Engine Unit))
    (h : (machine env).env e w = some (w', new)) : ∀ t ∈ new, Drains env t.2 t.1 := fun t ht =>
  (quits_started e w w' new h t ht).mono (fun _ _ _ => trivial) fun _ _ h => h.2

/-- Nobody who is done has a collected job left. -/
abbrev Drained (env : Services) (p : RunPool) : Prop :=
  Good (discipline env) (fun _ _ => True) (fun l _ => l.pending = []) p

theorem drained_initialPool (start : Start) : Drained env (initialPool env start) := by
  refine ⟨(sound_initialPool start).linked, fun t ht => ?_⟩
  exact (quits_initialPool start t ht).mono (fun _ _ _ => trivial) fun _ _ h => h.2

/-- **Who is at work is not done.** -/
theorem working_of_works (hsound : Sound env p) (hdrained : Drained env p) (ht : t ∈ p.tasks)
    (hworks : t.loc.works = true) : working t = true := by
  obtain ⟨i, hi⟩ := getElem?_of_mem ht
  cases hdone : t.finished with
  | false => simp [working, hdone, hworks]
  | true =>
    have hactive : t.loc.active = false := (hsound.post_of_finished hi hdone).1
    have hpending : t.loc.pending = [] := hdrained.post_of_finished hi hdone
    simp [works, collectedNode, hactive, hpending] at hworks

/-! ## What becomes of a step row -/

section Cells

variable {j id : ℕ} {cs : List StepCell} {c' : StepCell}

theorem active_of_claimed (hallowed : Allowed l o) (hr : o.claimed r = some id) :
    l.active = true := by
  fun_cases Op.claimed o r <;> simp_all [Op.claimed, Allowed]

variable {s : StepRow}

/-- Only a step that is claimed and one that is recorded are drafted open. -/
theorem CellStep.isOpen_draft (h : CellStep j o r cs id c') (hclaimed : o.claimed r ≠ some id)
    (hupdate : ∀ outcome, o ≠ .step (.update id outcome))
    (hdrafts : ∀ c ∈ cs, ∀ s, c.draftOf j = some s → s.isOpen = false)
    (hs : c'.draftOf j = some s) : s.isOpen = false := by
  have hclosing {c : StepCell} {b p f} (hold : cs[id]? = some c)
      (h : c.update j p f (fun _ _ => rfl) = some (b, c')) (hclosed : ∀ s, (f s).isOpen = false) :
      s.isOpen = false := by
    obtain ⟨-, rfl, -⟩ | ⟨-, -, -, s₀, -, -, hdraft⟩ := update_eq_some h
    · exact hdrafts _ (mem_of_getElem? hold) s hs
    · rw [draftOf_eq_some.mpr hdraft] at hs
      cases hs
      exact hclosed s₀
  cases h with
  | same hold => exact hdrafts c' (mem_of_getElem? hold) s hs
  | committed c hold ho hc' => simp [hc', draftOf_commit] at hs
  | inserted s' hr => exact absurd hr hclaimed
  | updated c hold outcome ho => exact absurd ho (hupdate outcome)
  | sealed c hold nodeId state port ho b h => exact hclosing hold h (isOpen_close state port)
  | swept c hold ho b h => exact hclosing hold h (isOpen_close .cancelled none)

end Cells

/-! ## What each continuation keeps true -/

/-- The row a continuation leaves behind: if it has executed nodes and settled, the row is
not `RUNNING` by its hand; if it has executed none, it has neither made the row `RUNNING`
nor opened a step. -/
structure AtRest (i : ℕ) (l : Local) (w : World) : Prop where
  settled : l.active = true → l.settled = true →
    (∃ s, l.own = some s ∧ s ≠ .running) ∨
      ∃ r, w.run.committed = some r ∧ r.state.isTerminal = true
  own : l.active = false → l.own = some .running →
    w.run.committed.map RunRow.state = some .running
  drafts : l.active = false → ∀ c ∈ w.steps, ∀ s, c.draftOf i = some s → s.isOpen = false

namespace AtRest

variable {i j : ℕ} {l l' : Local} {w w' : World}

theorem blank (i : ℕ) (w : World)
    (h : ∀ c ∈ w.steps, ∀ s, c.draftOf i = some s → s.isOpen = false) :
    AtRest i blank w :=
  ⟨nofun, nofun, fun _ => h⟩

variable {runId : String} {o : Op} {input : Input} {r : o.Res}

variable (h : AtRest i l w)

include h

/-- **The others keep it so.** -/
theorem others (hji : j ≠ i) (hlink : Link i l w) (hact : o.act runId j input l' w = some (r, w')) :
    AtRest i l w' := by
  obtain ⟨hevolves, huntouched⟩ := Link.act_run hact
  refine ⟨fun hactive hsettled => ?_, fun hactive hown => ?_, fun hactive c' hc' s hs => ?_⟩
  · obtain hown | ⟨row, hrow, hterminal⟩ := h.settled hactive hsettled
    · exact .inl hown
    · obtain ⟨row', hrow', hsame⟩ := hevolves row hrow
      exact .inr ⟨row', hrow', by rw [hsame hterminal]; exact hterminal⟩
  · have hdraft : (w.run.draftOf i).isSome = true := by
      have hsome := hlink.own
      rw [hown] at hsome
      obtain ⟨row, hrow, -⟩ := Option.map_eq_some_iff.mp hsome.symm
      rw [hrow]
      rfl
    rw [(huntouched i hji).2 hdraft]
    exact h.own hactive hown
  · obtain ⟨c, hc, hs'⟩ := draftOf_of_act hji hact hc' hs
    exact h.drafts hactive c hc s hs'

/-- Notes and operations that touch neither rows nor the notes about them. -/
theorem congr (hrun : w'.run = w.run) (hsteps : w'.steps = w.steps) (hactive : l'.active = l.active)
    (hsettled : l'.settled = l.settled) (hown : l'.own = l.own) : AtRest i l' w' := by
  refine ⟨?_, ?_, ?_⟩
  · rw [hactive, hsettled, hown, hrun]
    exact h.settled
  · rw [hactive, hown, hrun]
    exact h.own
  · rw [hactive, hsteps]
    exact h.drafts

omit h in
/-- Asking for a state, with the row in hand or a look at it before. -/
theorem settled_updateState {target : RunState} {changed : Bool} {v : Option RunRow}
    (htarget : target ≠ .running) (hsees : Sees l v)
    (hok : Allowed l (.run (.updateState target))) (hactive : l.active = true)
    (hanswer : changed = v.any fun r => validTransition r.state target)
    (hcommitted : l.own = none → v = w.run.committed) :
    (∃ s, (record l v (.updateState target) changed).own = some s ∧ s ≠ .running) ∨
      ∃ r, w.run.committed = some r ∧ r.state.isTerminal = true := by
  cases changed with
  | true => exact .inl ⟨target, rfl, htarget⟩
  | false =>
    -- refused: the row is terminal, or `WAITING` and asked for `WAITING` or `SUCCEEDED`
    cases hown : l.own with
    | some s =>
      refine .inl ⟨s, hown, fun hs => ?_⟩
      obtain ⟨row, rfl, hrow⟩ := Option.map_eq_some_iff.mp (hsees.own s hown)
      rw [Option.any_some, hrow, hs] at hanswer
      cases target with
      | running => exact htarget rfl
      | _ => cases hanswer
    | none =>
      have hseen : l.seen = true := by
        cases target with
        | running => exact absurd rfl htarget
        | waiting | succeeded => simp [Allowed, hown] at hok
        | failed | cancelled => exact hok hactive
      obtain ⟨row, rfl⟩ := Option.isSome_iff_exists.mp (hsees.seen hseen)
      refine .inr ⟨row, (hcommitted hown).symm, ?_⟩
      rw [Option.any_some] at hanswer
      cases hstate : row.state with
      | running =>
        rw [hstate] at hanswer
        cases target with
        | running => exact absurd rfl htarget
        | _ => cases hanswer
      | waiting =>
        rw [hstate] at hanswer
        cases target with
        | running => exact absurd rfl htarget
        | waiting | succeeded => simp [Allowed, hown] at hok
        | failed | cancelled => cases hanswer
      | _ => rfl

theorem runOp {o : RunOp} {r : o.Res} {c : RunCell} (hlink : Link i l w) (hok : Allowed l (.run o))
    (hact : o.act i w.run = some (r, c)) :
    AtRest i (o.record l (w.run.seenBy i) r) { w with run := c } := by
  have hsees := hlink.sees
  cases o with
  | insert =>
    obtain ⟨c₁, hc, -⟩ := Option.map_eq_some_iff.mp hact
    obtain ⟨hcommitted, hdraft, -⟩ := insert_eq_some hc
    have hown : l.own = none := by
      rw [hlink.own, draftOf_of_draft_eq_none hdraft]
      rfl
    have hactive : l.active = true := hok
    refine ⟨fun _ hsettled => ?_, fun hinactive => ?_, fun hinactive => ?_⟩
    · obtain ⟨s, hs, -⟩ | ⟨row', hrow', -⟩ := h.settled hactive hsettled
      · simp [hown] at hs
      · simp [hcommitted] at hrow'
    · exact absurd (hactive.symm.trans hinactive) nofun
    · exact absurd (hactive.symm.trans hinactive) nofun
  | get =>
    cases hact
    exact h.congr rfl rfl rfl rfl rfl
  | updateState target =>
    rw [act] at hact
    have hanswer := update_answer hact
    have hsame : c.committed = w.run.committed := by
      obtain ⟨-, rfl, -⟩ | ⟨-, -, hsame, -⟩ := update_eq_some hact
      · rfl
      · exact hsame
    by_cases htarget : target = .running
    · subst htarget
      have hunsettled : l.settled = false := hok
      refine ⟨fun _ hsettled => ?_, fun hinactive hown => ?_, fun hinactive => ?_⟩
      · simp [record, hunsettled] at hsettled
      · cases r with
        | true => simp [record] at hinactive
        | false =>
          simp only [record, Bool.false_and, Bool.or_false] at hinactive
          exact hsame.symm ▸ h.own hinactive hown
      · refine h.drafts ?_
        simp only [record, or_eq_false_iff] at hinactive
        exact hinactive.1
    · have hactive' : (record l (w.run.seenBy i) (.updateState target) r).active =
          l.active := by
        simp [record, htarget]
      refine ⟨fun hactive _ => ?_, fun hinactive hown => ?_, fun hinactive => ?_⟩
      · rw [hactive'] at hactive
        have hsettled := settled_updateState htarget hsees hok hactive hanswer
          hlink.seenBy_of_own_eq_none
        rwa [← hsame] at hsettled
      · rw [hactive'] at hinactive
        cases r with
        | true => exact absurd (Option.some.inj hown) htarget
        | false => exact hsame.symm ▸ h.own hinactive hown
      · rw [hactive'] at hinactive
        exact h.drafts hinactive
  | updateVariables =>
    rw [act] at hact
    obtain ⟨rfl, rfl, -⟩ | ⟨rfl, -, hsame, row, hs, -, -⟩ := update_eq_some hact
    · exact h.congr rfl rfl rfl rfl rfl
    refine ⟨fun hactive hsettled => ?_, fun hinactive hown => ?_, h.drafts⟩
    · obtain ⟨s, hown, hs'⟩ | hterminal := h.settled hactive hsettled
      · exact .inl ⟨s, hsees.own s hown, hs'⟩
      · exact .inr (hsame.symm ▸ hterminal)
    · have hown' : (w.run.seenBy i).map RunRow.state = some .running := hown
      cases howned : l.own with
      | some s =>
        rw [hsees.own s howned] at hown'
        cases hown'
        exact hsame.symm ▸ h.own hinactive howned
      | none =>
        rw [hlink.seenBy_of_own_eq_none howned] at hown'
        exact hsame.symm ▸ hown'

theorem stepOp {o : StepOp} {r : o.Res} {cs : List StepCell} (hok : Allowed l (.step o))
    (hact : o.act i w = some (r, cs)) : AtRest i (o.record l r) { w with steps := cs } := by
  have hactive' : (o.record l r).active = l.active := by cases o <;> rfl
  have hsettled' : (o.record l r).settled = l.settled := by cases o <;> rfl
  have hown' : (o.record l r).own = l.own := by cases o <;> rfl
  refine ⟨?_, ?_, fun hinactive c' hc' s hs => ?_⟩
  · rw [hactive', hsettled', hown']
    exact h.settled
  · rw [hactive', hown']
    exact h.own
  · rw [hactive'] at hinactive
    obtain ⟨id, hid⟩ := getElem?_of_mem hc'
    refine (cellStep_of_stepOp hact hid).isOpen_draft ?_ ?_ (h.drafts hinactive) hs
    · intro hr
      simp [active_of_claimed hok hr] at hinactive
    · rintro outcome ⟨⟩
      exact absurd (hinactive.symm.trans hok.1) nofun

/-- **A continuation keeps it so itself.** -/
theorem step (hlink : Link i l w) (hok : Allowed l o)
    (hact : o.act runId i input l w = some (r, w')) :
    AtRest i (o.record l (w.run.seenBy i) r) w' := by
  cases effect_of_act hact with
  | run o r c hrun => exact h.runOp hlink hok hrun
  | step o r cs hsteps => exact h.stepOp hok hsteps
  | commit =>
    refine ⟨nofun, nofun, fun _ c' hc' s hs => ?_⟩
    obtain ⟨c, hc, rfl⟩ := mem_map.mp hc'
    simp [draftOf_commit] at hs
  | ctx o => cases o <;> exact h.congr rfl rfl rfl rfl rfl
  | redis o | queue o | audit o => cases o <;> exact h.congr (by simp) (by simp) rfl rfl rfl
  | service => exact h.congr rfl rfl rfl rfl rfl

end AtRest

/-- Every continuation, and every one still to come, keeps its part. -/
abbrev AllAtRest (p : RunPool) : Prop := ∀ i, AtRest i (p.locOf blank i) p.world

theorem allAtRest_step (hsound : Sound env p) (h : AllAtRest p)
    (hstep : step (machine env) m p = some p') : AllAtRest p' := by
  refine locals_step hstep ?_ ?_ ?_ ?_ h
  · intro i t o k input r w _ ht hprog hrest hact
    exact hrest.step (hsound.link_of_getElem? ht) (hsound.ok_of_prog ht hprog) hact
  · intro i j t o k input r w hji ht hprog hrest hact
    exact hrest.others hji (hsound.linked i) hact
  · intro i e w new hrest henv
    exact hrest.congr (Outside.act_rows henv).1 (Outside.act_rows henv).2 rfl rfl rfl
  · intro i e w new hrest henv t ht
    have hdrafts := hrest.drafts rfl
    rw [← (Outside.act_rows henv).2] at hdrafts
    obtain ⟨job, rfl, -⟩ | rfl | ⟨reason, rfl⟩ | rfl := Outside.act_starts henv ht
    · exact ⟨nofun, nofun, fun _ => hdrafts⟩
    · exact AtRest.blank i w hdrafts
    · exact AtRest.blank i w hdrafts
    · exact AtRest.blank i w hdrafts

theorem allAtRest_initialPool (start : Start) : AllAtRest (initialPool env start) := by
  intro i
  have hdrafts : ∀ c ∈ (initialPool env start).world.steps, ∀ s,
      c.draftOf i = some s → s.isOpen = false := by
    intro c hc
    cases hc
  cases i with
  | zero => exact ⟨nofun, nofun, fun _ => hdrafts⟩
  | succ => exact AtRest.blank _ _ hdrafts

/-! ## A running run with an open step is at work -/

/-- Nodes are executing, collected or queued. -/
def Scheduled (p : RunPool) : Prop :=
  (∃ t ∈ p.tasks, t.loc.works = true) ∨ ∃ job ∈ p.world.queue, job.runsNode = true

/-- Some step is open, for everybody to see. -/
def OpenStep (w : World) : Prop := ∃ c ∈ w.steps, ∃ s, c.committed = some s ∧ s.isOpen = true

/-- A `RUNNING` run with an open step is at work. -/
def Attended (p : RunPool) : Prop :=
  p.world.run.committed.map RunRow.state = some .running → OpenStep p.world → Scheduled p

section Frame

variable {runId : String} {i : ℕ} {o : Op} {input : Input} {l : Local} {w w' : World} {r : o.Res}

variable (h : o.act runId i input l w = some (r, w'))

include h

/-- No operation takes a job off the queue. -/
theorem queue_of_act {job : Job} (hjob : job ∈ w.queue) : job ∈ w'.queue := by
  cases effect_of_act h with
  | queue o => cases o <;> exact mem_append_left _ hjob
  | redis | audit => simpa using hjob
  | ctx | run | step | service | commit => exact hjob

/-- Only a commit changes what is committed. -/
theorem committed_of_act (ho : o ≠ .commit) :
    w'.run.committed = w.run.committed ∧ (OpenStep w' → OpenStep w) := by
  constructor
  · cases effect_of_act h with
    | run o r c hact =>
      cases o with
      | insert =>
        obtain ⟨c₁, hc, ⟨⟩⟩ := Option.map_eq_some_iff.mp hact
        obtain ⟨hnone, -, hnone', -⟩ := insert_eq_some hc
        exact hnone'.trans hnone.symm
      | get =>
        cases hact
        rfl
      | updateState | updateVariables =>
        rw [act] at hact
        exact committed_update hact
    | commit => exact absurd rfl ho
    | _ => simp
  · rintro ⟨c', hc', s, hs, hopen⟩
    obtain ⟨id, hid⟩ := getElem?_of_mem hc'
    obtain ⟨c, hc, hs'⟩ := (cellStep_of_act h hid).committed_eq ho hs
    exact ⟨c, mem_of_getElem? hc, s, hs', hopen⟩

/-- Only a commit ends the work of a continuation; a job it sends is in the queue. -/
theorem works_of_act (ho : o ≠ .commit) (v : Option RunRow) (hworks : l.works = true) :
    (o.record l v r).works = true ∨ ∃ job ∈ w'.queue, job.runsNode = true := by
  have same : ∀ {l' : Local}, l'.active = l.active → l'.pending = l.pending →
      l'.works = true ∨ ∃ job ∈ w'.queue, job.runsNode = true := by
    intro l' hactive hpending
    refine .inl ?_
    rw [works, collectedNode, hactive, hpending]
    exact hworks
  cases effect_of_act h with
  | ctx o =>
    cases o with
    | pend =>
      refine .inl ?_
      simp only [works, collectedNode, Op.record, CtxOp.record, pend,
        any_append, or_eq_true] at hworks ⊢
      exact hworks.imp_right .inl
    | _ => exact same rfl rfl
  | run o =>
    cases o with
    | updateState =>
      refine .inl ?_
      simp only [works, collectedNode, Op.record, record, or_eq_true] at hworks ⊢
      exact hworks.imp_left .inl
    | _ => exact same rfl rfl
  | step o | redis o | audit o => cases o <;> exact same rfl rfl
  | queue o =>
    cases o with
    | enqueueJob => exact same rfl rfl
    | dispatchNext =>
      simp only [works, collectedNode, or_eq_true] at hworks
      obtain hactive | hcollected := hworks
      · refine .inl ?_
        simp [works, Op.record, QueueOp.record, hactive]
      cases hpending : l.pending with
      | nil => simp [hpending] at hcollected
      | cons e =>
        rw [hpending, any_cons, or_eq_true] at hcollected
        obtain hfirst | hrest := hcollected
        · exact .inr ⟨e.job, by simp [QueueOp.act, hpending], hfirst⟩
        · refine .inl ?_
          simp [works, collectedNode, Op.record, QueueOp.record, hpending, hrest]
  | service => exact same rfl rfl
  | commit => exact absurd rfl ho

end Frame

/-- The work goes on past an operation that is not a commit. -/
theorem scheduled_of_act {v : Option RunRow} {rest : Engine Unit} (ht : p.tasks[i]? = some t)
    (hact : o.act env.runId i input t.loc p.world = some (r, w)) (ho : o ≠ .commit)
    (h : Scheduled p) : Scheduled ⟨w, p.tasks.set i ⟨o.record t.loc v r, rest⟩⟩ := by
  have hi := (List.getElem?_eq_some_iff.mp ht).1
  obtain ⟨u, hu, hworks⟩ | ⟨job, hjob, hruns⟩ := h
  · obtain rfl | hkept := eq_or_mem_set ht _ hu
    · obtain hworks' | hqueued := works_of_act hact ho v hworks
      · exact .inl ⟨_, mem_set hi _, hworks'⟩
      · exact .inr hqueued
    · exact .inl ⟨u, hkept, hworks⟩
  · exact .inr ⟨job, queue_of_act hact hjob, hruns⟩

/-- Work of somebody else survives whatever happens to one continuation. -/
theorem scheduled_of_busyBeside {t' : Task Op Op.Res Local} (h : busyBeside i p = true)
    (hqueue : w.queue = p.world.queue) : Scheduled ⟨w, p.tasks.set i t'⟩ := by
  simp only [busyBeside, or_eq_true, any_eq_true] at h
  obtain ⟨u, hu, hworking⟩ | ⟨job, hjob, hruns⟩ := h
  · obtain ⟨j, hji, hj⟩ := mem_eraseIdx_iff_getElem?.mp hu
    simp only [working, and_eq_true] at hworking
    refine .inl ⟨u, mem_of_getElem? (i := j) ?_, hworking.2⟩
    rw [getElem?_set_ne (Ne.symm hji)]
    exact hj
  · exact .inr ⟨job, hqueue ▸ hjob, hruns⟩

/-- A move from outside ends no work: a job that runs a node starts a continuation. -/
theorem scheduled_of_env {e : Outside} {new : List (Local × Engine Unit)}
    (henv : e.act env p.world = some (w, new)) (h : Scheduled p) :
    Scheduled ⟨w, p.tasks ++ new.map fun t => ⟨t.1, t.2⟩⟩ := by
  obtain ⟨u, hu, hworks⟩ | ⟨job, hjob, hruns⟩ := h
  · exact .inl ⟨u, mem_append_left _ hu, hworks⟩
  · obtain hqueued | hstarted := Outside.act_queue henv hjob
    · exact .inr ⟨job, hqueued, hruns⟩
    · refine .inl ⟨⟨ofJob job, jobProgram env job⟩, ?_, ?_⟩
      · exact mem_append_right _ (mem_map_of_mem hstarted)
      · simp [works, ofJob, hruns]

/-- **A commit leaves a running run with an open step attended**, if a commit at a dead
end does. -/
theorem attended_commit {k : Unit → Engine Unit} (ht : p.tasks[i]? = some t)
    (hprog : t.prog = .op .commit k) (hlink : Link i t.loc p.world) (hrest : AtRest i t.loc p.world)
    (hcond : deadEndsAlone (.step i input) p = true) (h : Attended p) :
    Attended ⟨{ p.world with run := p.world.run.commit i,
                             steps := p.world.steps.map fun c => c.commit i },
      p.tasks.set i ⟨Op.record t.loc (p.world.run.seenBy i) .commit (), k ()⟩⟩ := by
  have hi := (List.getElem?_eq_some_iff.mp ht).1
  intro hrunning hopen
  obtain ⟨c', hc', s, hs, hopen⟩ := hopen
  obtain ⟨c, hc, rfl⟩ := mem_map.mp hc'
  simp only [committed_commit] at hrunning hs
  by_cases hcollected : t.loc.collectedNode = true
  · -- it has nodes to send off
    refine .inl ⟨_, mem_set hi _, ?_⟩
    simpa [Op.record, works, collectedNode] using hcollected
  · cases hactive : t.loc.active with
    | true =>
      cases hsettled : t.loc.settled with
      | true =>
        -- it parked or ended the run, so the row it leaves is not `RUNNING`
        obtain ⟨state, hown, hstate⟩ | ⟨row, hrow, hterminal⟩ :=
          hrest.settled hactive hsettled
        · rw [hlink.sees.own state hown] at hrunning
          exact absurd (Option.some.inj hrunning) hstate
        obtain ⟨row', hrow', hsame⟩ := evolves_commit p.world.run i row hrow
        rw [committed_commit] at hrow'
        rw [hrow', hsame hterminal] at hrunning
        have hstate : row.state = .running := Option.some.inj hrunning
        rw [hstate] at hterminal
        cases hterminal
      | false =>
        -- a dead end: the condition
        refine scheduled_of_busyBeside ?_ rfl
        obtain ⟨row, hrow, hstate⟩ := Option.map_eq_some_iff.mp hrunning
        have hdead : atDeadEnd t = true := by
          simp [atDeadEnd, aboutToCommit, hprog, hactive, hsettled, hcollected]
        have hsees : seesOpenStep i p.world = true := by
          simp only [seesOpenStep, any_eq_true, Option.any_eq_true]
          exact ⟨c, hc, s, hs, hopen⟩
        simpa [deadEndsAlone, ht, hdead, hrow, hstate, hsees] using hcond
    | false =>
      -- it executed nothing: the row was `RUNNING` and the step open before
      have hbefore : p.world.run.committed.map RunRow.state = some .running := by
        cases hdraft : p.world.run.draftOf i with
        | none => rwa [seenBy_of_draftOf_eq_none hdraft] at hrunning
        | some row =>
          refine hrest.own hactive ?_
          rw [hlink.own, hdraft]
          rwa [seenBy_of_draftOf hdraft] at hrunning
      have hstep : OpenStep p.world := by
        cases hdraft : c.draftOf i with
        | none =>
          rw [seenBy_of_draftOf_eq_none hdraft] at hs
          exact ⟨c, hc, s, hs, hopen⟩
        | some s' =>
          rw [seenBy_of_draftOf hdraft] at hs
          obtain rfl := Option.some.inj hs
          rw [hrest.drafts hactive c hc s' hdraft] at hopen
          cases hopen
      obtain ⟨u, hu, hworks⟩ | ⟨job, hjob, hruns⟩ := h hbefore hstep
      · obtain rfl | hkept := eq_or_mem_set ht _ hu
        · simp [works, hactive, hcollected] at hworks
        · exact .inl ⟨u, hkept, hworks⟩
      · exact .inr ⟨job, hjob, hruns⟩

theorem attended_step (hsound : Sound env p) (hrest : AllAtRest p) (h : Attended p)
    (hcond : deadEndsAlone m p = true) (hstep : step (machine env) m p = some p') :
    Attended p' := by
  obtain ⟨i, input, t, o, k, r, w, ht, hprog, hact⟩ | ⟨e, w, new, henv⟩ := isStep_of_step hstep
  · by_cases ho : o = .commit
    · subst ho
      cases hact
      have hrest' := hrest i
      rw [Pool.locOf_of_getElem? ht] at hrest'
      exact attended_commit ht hprog (hsound.link_of_getElem? ht) hrest' hcond h
    · obtain ⟨hcommitted, hopen⟩ := committed_of_act hact ho
      intro hrunning hopen'
      rw [hcommitted] at hrunning
      exact scheduled_of_act ht hact ho (h hrunning (hopen hopen'))
  · obtain ⟨hrun, hsteps⟩ := Outside.act_rows henv
    intro hrunning hopen
    obtain ⟨c, hc, hs⟩ := hopen
    exact scheduled_of_env henv (h (hrun ▸ hrunning) ⟨c, hsteps ▸ hc, hs⟩)

/-- **A parked branch stays resumable.**  In every run of every workflow, under every
schedule in which no continuation commits at a dead end, with the run `RUNNING`, while it
leaves a step open and nobody else is at work: whenever a step of a live run is open, and
no node is executing and none is queued, the run is `WAITING`. -/
theorem parked_branch_waits (env : Services) (start : Start) (ms : List RunMove)
    (hall : AllSteps (machine env) (fun m p => deadEndsAlone m p = true) ms (initialPool env start))
    (p : RunPool) (hrun : run (machine env) ms (initialPool env start) = some p)
    (row : RunRow) (hrow : p.world.run.committed = some row)
    (hlive : row.state.isTerminal = false) (c : StepCell) (hc : c ∈ p.world.steps)
    (s : StepRow) (hs : c.committed = some s) (hopen : s.isOpen = true)
    (hidle : busy p = false) : row.state = .waiting := by
  obtain ⟨hsound, hrest, hattended⟩ := run_invariant_of_sound
    (fun p => AllAtRest p ∧ Attended p)
    (fun m p p' hsound h hcond hstep =>
      ⟨allAtRest_step hsound h.1 hstep, attended_step hsound h.1 h.2 hcond hstep⟩)
    ⟨allAtRest_initialPool start, fun h => by cases h⟩ hall hrun
  have hdrained := (Good.run_invariant (fun _ => True) drains_started
    (fun _ _ _ _ _ _ _ => trivial) (allSteps_true _ ms _) (drained_initialPool start) trivial
    hrun).1
  cases hstate : row.state with
  | waiting => rfl
  | running =>
    have hscheduled := hattended (by rw [hrow, Option.map_some, hstate]) ⟨c, hc, s, hs, hopen⟩
    simp only [busy, or_eq_false_iff, any_eq_false] at hidle
    obtain ⟨t, ht, hworks⟩ | ⟨job, hjob, hruns⟩ := hscheduled
    · exact absurd (working_of_works hsound hdrained ht hworks) (hidle.1 t ht)
    · exact absurd hruns (hidle.2 job hjob)
  | succeeded | failed | cancelled => rw [hstate] at hlive; cases hlive

/-- Two timers side by side, joined before the end. -/
def twoTimers : Definition where
  entryNodeId := "t"
  nodes := [triggerNode, ⟨"p", .parallel, []⟩, timerNode "a", timerNode "b", allJoin "j",
    endNode "e"]
  edges := [⟨"e1", "t", "p", none, none⟩, ⟨"e2", "p", "a", none, none⟩,
    ⟨"e3", "p", "b", none, none⟩, ⟨"e4", "a", "j", none, none⟩,
    ⟨"e5", "b", "j", none, none⟩, ⟨"e6", "j", "e", none, none⟩]

/-- Both timers park. -/
def bothPark : List RunMove :=
  turns 0 32 ++ deliver 0 ++ turns 1 19 ++ deliver 0 ++ turns 2 19

/-- The first timer elapses; its branch resumes and stops at the join. -/
def firstElapses : List RunMove := bothPark ++ deliver 0 ++ turns 3 22

/-- The second branch is parked with its claim in place, everybody is done, no node is
queued, and the run is `RUNNING`. -/
theorem second_timer_parked_in_running :
    ∃ p row c s claim, runManually twoTimers firstElapses = some p ∧
      p.world.run.committed = some row ∧ row.state = .running ∧
      c ∈ p.world.steps ∧ c.committed = some s ∧ s.nodeId = "b" ∧ s.isOpen = true ∧
      p.world.claims (.wait "b") = some claim ∧
      (∀ t ∈ p.tasks, t.finished = true) ∧ p.world.queue = [.workflowEventResume "b" 0] := by
  obtain ⟨p, hp, ⟨row, hrow, hrunning⟩, ⟨c, hc, s, hs, hnode, hopen⟩, ⟨claim, hclaim⟩, hrest⟩ :
      ∃ p ∈ runManually twoTimers firstElapses,
        (∃ row ∈ p.world.run.committed, row.state = .running) ∧
        (∃ c ∈ p.world.steps, ∃ s ∈ c.committed, s.nodeId = "b" ∧ s.isOpen = true) ∧
        (∃ claim ∈ p.world.claims (.wait "b"), True) ∧
        (∀ t ∈ p.tasks, t.finished = true) ∧ p.world.queue = [.workflowEventResume "b" 0] := by
    decide +kernel
  exact ⟨p, row, c, s, claim, hp, hrow, hrunning, hc, hs, hnode, hopen, hclaim.1, hrest⟩

/-- The first timer parks and elapses, and its branch comes to a dead end at the join, before
the second branch is taken up. -/
def elapsesEarly : List RunMove := turns 0 32 ++ deliver 0 ++ turns 1 19 ++ deliver 1 ++ turns 2 20

/-- It commits, and the second branch parks. -/
def parksLate : List RunMove := elapsesEarly ++ turns 2 2 ++ deliver 0 ++ turns 3 19

/-- The sibling that resumed leaves the run to the branch that is queued, and when that has
parked, the run is `WAITING`. -/
theorem late_timer_waits :
    (∃ p t, runManually twoTimers elapsesEarly = some p ∧ p.tasks[2]? = some t ∧
      atDeadEnd t = true) ∧
    ∃ p row, runManually twoTimers parksLate = some p ∧ p.world.run.committed = some row ∧
      row.state = .waiting := by
  obtain ⟨p₁, hp₁, t, ht, hdead⟩ :
      ∃ p ∈ runManually twoTimers elapsesEarly, ∃ t ∈ p.tasks[2]?, atDeadEnd t = true := by
    decide +kernel
  refine ⟨⟨p₁, t, hp₁, ht, hdead⟩, ?_⟩
  obtain ⟨p, hp, ⟨row, hrow, hlive⟩, ⟨c, hc, s, hs, hopen⟩, hidle⟩ :
      ∃ p ∈ runManually twoTimers parksLate,
        (∃ row ∈ p.world.run.committed, row.state.isTerminal = false) ∧
        (∃ c ∈ p.world.steps, ∃ s ∈ c.committed, s.isOpen = true) ∧ busy p = false := by
    decide +kernel
  refine ⟨p, row, hp, hrow, ?_⟩
  exact parked_branch_waits plainServices ⟨twoTimers, "manual", [], false⟩ parksLate
    (by decide +kernel) p hp row hrow hlive c hc s hs hopen hidle

end Smap.Workflow
