import Mathlib.Algebra.Order.BigOperators.Group.Finset
import Smap.Workflow.Terminal
import Smap.Workflow.WaitClaims

/-!
# The loop guard

Within one continuation the guard holds: a node is entered at most `max_visits_per_node`
times, only nodes of the definition are entered, no executor is called without an entry, and
the recursion of `_execute_node` ends before its budget does.  So every call of the engine
ends, after at most so many calls of executors as there are node ids times the guard.

The visit counts live in the `RunContext`, and every continuation builds a new one: a loop
that passes through a park, a retry or a fan-out starts counting again.  Over a whole run
the guard holds if no node is entered by two continuations.
-/

namespace Smap.Workflow

open Program RowVersions Pool List Books Local

/-- The nodes a continuation has entered are nodes of its definition, each entered no more
often than the guard admits, and its executor called no more often than it was entered. -/
structure WithinGuard (l : Local) : Prop where
  counted : ∀ nodeId, l.entered.count nodeId ≤ l.ctx.workflowDef.maxVisitsPerNode
  known : ∀ nodeId ∈ l.entered, nodeId ∈ l.ctx.workflowDef.nodes.map NodeDef.id
  called : ∀ nodeId, l.executed.count nodeId ≤ l.entered.count nodeId

/-- No operation but the start of a context changes the definition, and only a claimed step
adds to the nodes that were entered. -/
theorem entered_of_record (o : Op) (l : Local) (v : Option RunRow) (r : o.Res) :
    (∃ d vars payload dry, o = .ctx (.create d vars payload dry)) ∨
      (o.record l v r).ctx.workflowDef = l.ctx.workflowDef ∧
        ((o.record l v r).entered = l.entered ∨
          ∃ nodeId config, o = .step (.insertIfRunActive nodeId config) ∧
            (o.record l v r).entered = nodeId :: l.entered) := by
  cases o with
  | ctx o =>
    cases o with
    | create d vars payload dry => exact .inl ⟨d, vars, payload, dry, rfl⟩
    | _ => exact .inr ⟨rfl, .inl rfl⟩
  | run o | redis o | queue o | audit o => cases o <;> exact .inr ⟨rfl, .inl rfl⟩
  | step o =>
    cases o with
    | insertIfRunActive nodeId config =>
      refine .inr ⟨rfl, ?_⟩
      simp only [Op.record, StepOp.record]
      split
      · exact .inr ⟨nodeId, config, rfl, rfl⟩
      · exact .inl rfl
    | _ => exact .inr ⟨rfl, .inl rfl⟩
  | service | commit | diverge => exact .inr ⟨rfl, .inl rfl⟩

variable {l : Local} {d : Definition} {nodeId runId : String} {x : Booked} {o : Op} {env : Services}
  {m : RunMove} {q q' : BookPool} {guard i : ℕ} {input : Input} {w w' : World} {r : o.Res}
  {e : Outside}

theorem WithinGuard.of_entered_eq_nil (h : l.entered = [])
    (hcalled : ∀ nodeId, l.executed.count nodeId ≤ l.entered.count nodeId) : WithinGuard l := by
  refine ⟨fun nodeId => ?_, fun nodeId hmem => ?_, hcalled⟩
  · simp [h]
  · simp [h] at hmem

theorem mem_ids_of_nodesById (h : (d.nodesById nodeId).isSome = true) :
    nodeId ∈ d.nodes.map NodeDef.id := by
  obtain ⟨raw, hraw⟩ := Option.isSome_iff_exists.mp h
  rw [← Definition.id_of_nodesById hraw]
  exact mem_map_of_mem (Definition.mem_of_nodesById hraw)

/-- An executor is called for a step that was claimed before. -/
theorem called_record (hok : Proper x o)
    (h : ∀ nodeId, x.1.executed.count nodeId ≤ x.1.entered.count nodeId) (v : Option RunRow)
    (r : o.Res) (nodeId : String) :
    (o.record x.1 v r).executed.count nodeId ≤ (o.record x.1 v r).entered.count nodeId := by
  cases o with
  | ctx o =>
    cases o with
    | invoke called type =>
      have hclaimed : x.1.executed.count called < x.1.entered.count called := hok
      change (called :: x.1.executed).count nodeId ≤ x.1.entered.count nodeId
      rw [count_cons]
      split
      · rename_i hcalled
        obtain rfl : called = nodeId := by simpa using hcalled
        exact hclaimed
      · exact h nodeId
    | _ => exact h nodeId
  | step o =>
    cases o with
    | insertIfRunActive =>
      simp only [Op.record, StepOp.record]
      split
      · exact (h nodeId).trans (count_le_count_cons ..)
      · exact h nodeId
    | _ => exact h nodeId
  | run o | redis o | queue o | audit o => cases o <;> exact h nodeId
  | service | commit | diverge => exact h nodeId

/-- What a continuation does keeps it within the guard. -/
theorem withinGuard_record (hok : Proper x o) (h : WithinGuard x.1) (v : Option RunRow)
    (r : o.Res) : WithinGuard (o.record x.1 v r) := by
  have hcalled := called_record hok h.called v r
  obtain ⟨d, vars, payload, dry, rfl⟩ | ⟨hdef, hsame | ⟨nodeId, config, rfl, hentered⟩⟩ :=
    entered_of_record o x.1 v r
  · exact WithinGuard.of_entered_eq_nil hok.2 hcalled
  · refine ⟨?_, ?_, hcalled⟩
    · rw [hdef, hsame]
      exact h.counted
    · rw [hdef, hsame]
      exact h.known
  · obtain ⟨hnode, hvisited, hadmitted⟩ := hok
    refine ⟨?_, ?_, hcalled⟩
    · intro n
      rw [hdef, hentered, count_cons]
      split
      · rename_i hn
        obtain rfl : nodeId = n := by simpa using hn
        omega
      · exact h.counted n
    · intro n hn
      rw [hentered] at hn
      obtain rfl | hn := mem_cons.mp hn
      · exact mem_ids_of_nodesById hnode
      · exact h.known n hn

theorem withinGuard_step (hq : Conducted env q) (hinv : ∀ t ∈ q.tasks, WithinGuard t.loc.1)
    (h : step (bookMachine env) m q = some q') : ∀ t ∈ q'.tasks, WithinGuard t.loc.1 := by
  intro u hu
  obtain ⟨i, input, t, o, k, r, w, ht, hprog, hact⟩ | ⟨e, w, new, henv⟩ := isStep_of_step h
  · obtain hu | rfl := mem_or_eq_of_mem_set hu
    · exact hinv u hu
    · exact withinGuard_record (hq.ok_of_prog ht hprog) (hinv t (mem_of_getElem? ht)) ..
  · obtain hu | hu := mem_append.mp hu
    · exact hinv u hu
    · obtain ⟨s, hs, rfl⟩ := mem_map.mp hu
      obtain ⟨new', henv', rfl⟩ := env_withHistory bookkeeping henv
      obtain ⟨s', hs', rfl⟩ := mem_map.mp hs
      obtain ⟨job, rfl, -⟩ | rfl | ⟨reason, rfl⟩ | rfl := Outside.act_starts henv' hs'
      all_goals exact WithinGuard.of_entered_eq_nil rfl fun _ => Nat.le_refl 0

variable {start : Start} {ms : List RunMove} {p : RunPool}

/-- **One continuation**, in every pool of any run: it is within the guard, and the budget of
its recursion lasts. -/
theorem withinGuard_of_run (hrun : run (machine env) ms (initialPool env start) = some p) :
    ∀ t ∈ p.tasks, WithinGuard t.loc ∧ ∀ k, t.prog ≠ .op .diverge k := by
  have hinit : ∀ t ∈ (bookInitial env start).tasks, WithinGuard t.loc.1 := by
    intro t ht
    obtain rfl := mem_singleton.mp ht
    exact WithinGuard.of_entered_eq_nil rfl fun _ => Nat.le_refl 0
  obtain ⟨q, -, rfl, hq, hinv⟩ := run_invariant_of_conducted
    (fun q => ∀ t ∈ q.tasks, WithinGuard t.loc.1)
    (fun m q q' hq hinv _ h => withinGuard_step hq hinv h) hinit (allSteps_true _ ms _) hrun
  intro t ht
  obtain ⟨u, hu, rfl⟩ := mem_map.mp ht
  refine ⟨hinv u hu, fun k hprog => ?_⟩
  obtain ⟨i, hi⟩ := getElem?_of_mem hu
  exact hq.ok_of_prog hi hprog

/-- The entries of a continuation, counted node by node. -/
theorem WithinGuard.length_le (h : WithinGuard l) :
    l.entered.length ≤ (l.ctx.workflowDef.nodes.map NodeDef.id).toFinset.card *
      l.ctx.workflowDef.maxVisitsPerNode := by
  have hsub : l.entered.toFinset ⊆ (l.ctx.workflowDef.nodes.map NodeDef.id).toFinset := by
    intro nodeId hmem
    rw [mem_toFinset] at hmem ⊢
    exact h.known nodeId hmem
  calc l.entered.length = ∑ nodeId ∈ l.entered.toFinset, l.entered.count nodeId :=
        (sum_toFinset_count_eq_length l.entered).symm
    _ ≤ l.entered.toFinset.card • l.ctx.workflowDef.maxVisitsPerNode :=
        Finset.sum_le_card_nsmul _ _ _ fun nodeId _ => h.counted nodeId
    _ = l.entered.toFinset.card * l.ctx.workflowDef.maxVisitsPerNode := smul_eq_mul ..
    _ ≤ _ := Nat.mul_le_mul_right _ (Finset.card_le_card hsub)

theorem WithinGuard.length_executed_le (h : WithinGuard l) :
    l.executed.length ≤ l.entered.length :=
  (subperm_ext_iff.mpr fun nodeId _ => h.called nodeId).length_le

/-- **Every call of the engine ends.**  In no pool of any run has a continuation called
executors more often than the definition has ids times the guard.  And in an endless schedule
each continuation comes to rest, though never because the budget of its recursion is used up:
it is done, or some other operation is not answered. -/
theorem engine_calls_end (env : Services) (start : Start) :
    (∀ ms p, run (machine env) ms (initialPool env start) = some p → ∀ t ∈ p.tasks,
      (∀ k, t.prog ≠ .op .diverge k) ∧
      t.loc.executed.length ≤ (t.loc.ctx.workflowDef.nodes.map NodeDef.id).toFinset.card *
        t.loc.ctx.workflowDef.maxVisitsPerNode) ∧
    ∀ (σ : ℕ → RunMove) (π : ℕ → RunPool), π 0 = initialPool env start →
      (∀ n, step (machine env) (σ n) (π n) = some (π (n + 1))) →
      ∀ i, ∃ N, ∀ n, N ≤ n → (∀ input, σ n ≠ .step i input) ∧
        ∀ t, (π n).tasks[i]? = some t → ∀ k, t.prog ≠ .op .diverge k := by
  constructor
  · intro ms p hrun t ht
    obtain ⟨hwithin, hlasts⟩ := withinGuard_of_run hrun t ht
    exact ⟨hlasts, hwithin.length_executed_le.trans hwithin.length_le⟩
  · intro σ π hinit hπ i
    have hlasts (n : ℕ) (t : Task Op Op.Res Local) (ht : (π n).tasks[i]? = some t) :
        ∀ k, t.prog ≠ .op .diverge k :=
      (withinGuard_of_run (hinit ▸ run_of_endless hπ n) t (mem_of_getElem? ht)).2
    by_cases hmoves : ∃ n input, σ n = .step i input
    · obtain ⟨n, input, hn⟩ := hmoves
      have hstep := isStep_of_step (hπ n)
      rw [hn] at hstep
      generalize π (n + 1) = p' at hstep
      obtain ⟨_, _, t, o, k, r, w, ht, hprog, hact⟩ := hstep
      obtain ⟨N, hN⟩ := eventually_still hπ i t.prog n t ht rfl
      exact ⟨N, fun n hn => ⟨hN n hn, hlasts n⟩⟩
    · exact ⟨0, fun n _ => ⟨fun input h => hmoves ⟨n, input, h⟩, hlasts n⟩⟩

/-! ## Over a whole run -/

/-- The node a move is about to enter has been entered by no other continuation. -/
def entersAlone (m : RunMove) (p : RunPool) : Bool :=
  match m, nextOp m p with
  | .step i _, some (.step (.insertIfRunActive nodeId _)) =>
    (List.range p.tasks.length).all fun j =>
      j == i || p.tasks[j]?.all fun t => !t.loc.entered.contains nodeId
  | _, _ => true

/-- A definition that is saved keeps the guard. -/
def SavesGuard (guard : ℕ) (m : RunMove) : Prop :=
  ∀ d, m = .env (.saveWorkflow d) → d.maxVisitsPerNode = guard

/-- What a continuation knows of the guard, when every stored definition has the same:
beyond it, the only terminal state it may have won is `FAILED`. -/
structure GuardedBy (guard : ℕ) (x : Booked) : Prop where
  loaded : ∀ d, x.2.loaded = some d → d.maxVisitsPerNode = guard
  context : x.1.ctx.workflowDef.maxVisitsPerNode = guard ∨ x.1.ctx.workflowDef.nodes = []
  within : WithinGuard x.1
  won : ∀ nodeId, x.1.ctx.workflowDef.maxVisitsPerNode < x.1.ctx.nodeVisitCounts nodeId →
    x.2.won = none ∨ x.2.won = some .failed

theorem GuardedBy.blank (hloaded : x.2.loaded = none) (hctx : x.1.ctx.workflowDef.nodes = [])
    (hentered : x.1.entered = []) (hexecuted : x.1.executed = []) (hwon : x.2.won = none) :
    GuardedBy guard x :=
  ⟨by simp [hloaded], .inr hctx, .of_entered_eq_nil hentered (by simp [hexecuted]),
    fun _ _ => .inl hwon⟩

/-- What the history learns of definitions is what is stored. -/
theorem loaded_of_act (hact : o.act runId i input x.1 w = some (r, w'))
    (hd : (x.2.note x.1 (w.run.seenBy i) o r).loaded = some d) :
    x.2.loaded = some d ∨ d = w.workflow := by
  cases o with
  | service o =>
    cases o with
    | getWorkflow =>
      simp only [Op.act, ServiceOp.answer, Option.map_some, Option.some.injEq,
        Prod.mk.injEq] at hact
      have hr : r = some d := hd
      rw [hr] at hact
      split at hact
      · cases hact.1
      · exact .inr (Option.some.inj hact.1).symm
    | _ => exact .inl hd
  | run o | step o | audit o => cases o <;> exact .inl hd
  | _ => exact .inl hd

/-- Only visits are counted, and only a terminal transition is won. -/
theorem won_of_record (v : Option RunRow) (r : o.Res)
    (hcreate : ∀ d vars payload dry, o ≠ .ctx (.create d vars payload dry)) :
    (∃ nodeId, o = .ctx (.visit nodeId)) ∨
      (o.record x.1 v r).ctx.nodeVisitCounts = x.1.ctx.nodeVisitCounts ∧
        ((x.2.note x.1 v o r).won = x.2.won ∨
          ∃ target, o = .run (.updateState target) ∧ target.isTerminal = true ∧
            o.winsTerminal r = true ∧ (x.2.note x.1 v o r).won = some target) := by
  cases o with
  | ctx o =>
    cases o with
    | create d vars payload dry => exact absurd rfl (hcreate d vars payload dry)
    | visit nodeId => exact .inl ⟨nodeId, rfl⟩
    | _ => exact .inr ⟨rfl, .inl rfl⟩
  | run o =>
    cases o with
    | updateState target =>
      refine .inr ⟨rfl, ?_⟩
      simp only [note]
      split
      · rename_i hwins
        have hterm : target.isTerminal = true := by simp_all
        exact .inr ⟨target, rfl, hterm, hwins, rfl⟩
      · exact .inl rfl
    | _ => exact .inr ⟨rfl, .inl rfl⟩
  | step o | redis o | queue o | audit o | service o => cases o <;> exact .inr ⟨rfl, .inl rfl⟩
  | commit | diverge => exact .inr ⟨rfl, .inl rfl⟩

/-- A continuation's own operations keep it guarded. -/
theorem guardedBy_act (hlink : BookLink i x w) (hok : Proper x o)
    (hstored : w.workflow.maxVisitsPerNode = guard) (h : GuardedBy guard x)
    (hact : o.act runId i input x.1 w = some (r, w')) :
    GuardedBy guard (x.after (w.run.seenBy i) o r) := by
  have hloaded : ∀ d, (x.2.note x.1 (w.run.seenBy i) o r).loaded = some d →
      d.maxVisitsPerNode = guard := by
    intro d hd
    obtain hd | rfl := loaded_of_act hact hd
    · exact h.loaded d hd
    · exact hstored
  have hwithin := withinGuard_record hok h.within (w.run.seenBy i) r
  by_cases hcreate : ∃ d vars payload dry, o = .ctx (.create d vars payload dry)
  · obtain ⟨d, vars, payload, dry, rfl⟩ := hcreate
    refine ⟨hloaded, .inl (h.loaded d hok.1), hwithin, ?_⟩
    intro nodeId hbeyond
    exact absurd hbeyond (Nat.not_lt_zero _)
  · have hdef : (o.record x.1 (w.run.seenBy i) r).ctx.workflowDef = x.1.ctx.workflowDef := by
      obtain hc | ⟨hdef, -⟩ := entered_of_record o x.1 (w.run.seenBy i) r
      · exact absurd hc hcreate
      · exact hdef
    refine ⟨hloaded, by simpa [hdef] using h.context, hwithin, fun nodeId hbeyond => ?_⟩
    obtain ⟨n, rfl⟩ | ⟨hvisits, hwon | ⟨target, rfl, hterm, hwins, hwon⟩⟩ :=
      won_of_record (x := x) (w.run.seenBy i) r
        fun d vars payload dry ho => hcreate ⟨d, vars, payload, dry, ho⟩
    · -- a visit is made only while the run is not known to be over
      have hopen : x.2.finished = false := hok
      cases hwon : x.2.won with
      | none => exact .inl hwon
      | some s =>
        simp [(hlink.won s hwon).2.1] at hopen
    · have hbeyond' : x.1.ctx.workflowDef.maxVisitsPerNode < x.1.ctx.nodeVisitCounts nodeId := by
        simpa [hdef, hvisits] using hbeyond
      rw [hwon]
      exact h.won nodeId hbeyond'
    · -- it wins a terminal state: not knowing the run to be over, it is within the guard
      have hbeyond' : x.1.ctx.workflowDef.maxVisitsPerNode < x.1.ctx.nodeVisitCounts nodeId :=
        hbeyond
      have hchanged : r = true := by
        have hboth : (target.isTerminal && r) = true := hwins
        simpa [hterm] using hboth
      subst hchanged
      have hactive := runActive_of_changed (Link.coherent hact).symm
      have hguard : ¬ Guarded x := by
        intro hg
        have hdead := hlink.runActive_eq_false (by simp [closed, hg nodeId hbeyond'])
        simp [hdead] at hactive
      cases target with
      | failed => exact .inr hwon
      | succeeded | cancelled => exact absurd hok hguard
      | running | waiting => cases hterm

/-- The guard of a whole run, with the same guard in every stored definition. -/
structure RunGuarded (guard : ℕ) (q : BookPool) : Prop where
  stored : q.world.workflow.maxVisitsPerNode = guard
  each : ∀ i, GuardedBy guard (q.locOf (blank, empty) i)
  apart : ∀ i j, i ≠ j → ∀ nodeId ∈ (q.locOf (blank, empty) i).1.entered,
    nodeId ∉ (q.locOf (blank, empty) j).1.entered

/-- What is started from outside has entered nothing. -/
theorem guardedBy_started (guard : ℕ) {new : List (Booked × Engine Unit)}
    (h : (bookMachine env).env e w = some (w', new)) {t : Booked × Engine Unit} (ht : t ∈ new) :
    GuardedBy guard t.1 ∧ t.1.1.entered = [] := by
  obtain ⟨new', henv, rfl⟩ := env_withHistory bookkeeping h
  obtain ⟨t', ht', rfl⟩ := mem_map.mp ht
  obtain ⟨job, rfl, -⟩ | rfl | ⟨reason, rfl⟩ | rfl := Outside.act_starts henv ht'
  all_goals exact ⟨GuardedBy.blank rfl rfl rfl rfl rfl, rfl⟩

/-- The stored definition changes only when it is saved. -/
theorem workflow_of_env {new : List (Local × Engine Unit)}
    (hstored : w.workflow.maxVisitsPerNode = guard)
    (hsaved : ∀ d, e = .saveWorkflow d → d.maxVisitsPerNode = guard)
    (h : e.act env w = some (w', new)) : w'.workflow.maxVisitsPerNode = guard := by
  cases e with
  | deliver =>
    simp only [Outside.act] at h
    split at h
    · cases h
    · cases h
      exact hstored
  | saveWorkflow d =>
    cases h
    exact hsaved d rfl
  | _ =>
    cases h
    exact hstored

/-- A node that is entered alone is entered by one continuation only. -/
theorem apart_of_entersAlone {t : Task Op Op.Res Booked} {config : JsonObject}
    {k : Option ℕ → Engine Unit} (ht : q.tasks[i]? = some t)
    (hprog : t.prog = .op (.step (.insertIfRunActive nodeId config)) k)
    (h : entersAlone (.step i input) q.forget = true) {j : ℕ} (hij : i ≠ j) :
    nodeId ∉ (q.locOf (blank, empty) j).1.entered := by
  have hnext : nextOp (.step i input) q.forget = some (.step (.insertIfRunActive nodeId config)) :=
    nextOp_of_prog (t := t.forget) (by simp [ht]) hprog
  simp only [entersAlone, hnext, all_eq_true, mem_range, Bool.or_eq_true, beq_iff_eq] at h
  cases hu : q.tasks[j]? with
  | none => simp [Pool.locOf, hu, blank]
  | some =>
    have hj := (List.getElem?_eq_some_iff.mp hu).1
    rw [locOf_of_getElem? hu]
    have halone := (h j (by simpa using hj)).resolve_left (fun hji => hij hji.symm)
    simpa [hu, Task.forget] using halone

theorem runGuarded_step (hq : Conducted env q) (hinv : RunGuarded guard q)
    (halone : entersAlone m q.forget = true) (hsaved : SavesGuard guard m)
    (h : step (bookMachine env) m q = some q') : RunGuarded guard q' := by
  have heach : ∀ i, GuardedBy guard (q'.locOf (blank, empty) i) := by
    refine locals_step (R := fun _ x _ => GuardedBy guard x) h ?_ ?_ ?_ ?_ hinv.each
    · intro i t o k input r w _ ht hprog hx hact
      exact guardedBy_act (hq.link_of_getElem? ht) (hq.ok_of_prog ht hprog) hinv.stored hx hact
    · exact fun _ _ _ _ _ _ _ _ _ _ _ hx _ => hx
    · exact fun _ _ _ _ hx _ => hx
    · exact fun _ e w new _ henv t ht => (guardedBy_started guard henv ht).1
  obtain ⟨i, input, t, o, k, r, w, ht, hprog, hact⟩ | ⟨e, w, new, henv⟩ := isStep_of_step h
  · refine ⟨?_, heach, ?_⟩
    · rw [(frame_of_act hact).1]
      exact hinv.stored
    -- the continuation that moves has entered one node more at most
    have hown : ∀ n, n ∈ (o.record t.loc.1 (q.world.run.seenBy i) r).entered →
        ∀ j, i ≠ j → n ∉ (q.locOf (blank, empty) j).1.entered := by
      intro n hn j hij
      have hbefore := hinv.apart i j hij n
      rw [locOf_of_getElem? ht] at hbefore
      obtain ⟨d, vars, payload, dry, rfl⟩ | ⟨-, hsame | ⟨nodeId, config, rfl, hentered⟩⟩ :=
        entered_of_record o t.loc.1 (q.world.run.seenBy i) r
      · exact hbefore hn
      · exact hbefore (hsame ▸ hn)
      · rw [hentered] at hn
        obtain rfl | hn := mem_cons.mp hn
        · exact apart_of_entersAlone ht hprog halone hij
        · exact hbefore hn
    intro a b hab n hn hn'
    by_cases ha : i = a
    · subst ha
      rw [locOf_set_self ht] at hn
      rw [locOf_set_of_ne q.world hab] at hn'
      exact hown n hn b hab hn'
    · rw [locOf_set_of_ne q.world ha] at hn
      by_cases hb : i = b
      · subst hb
        rw [locOf_set_self ht] at hn'
        exact hown n hn' a (Ne.symm hab) hn
      · rw [locOf_set_of_ne q.world hb] at hn'
        exact hinv.apart a b hab n hn hn'
  · obtain ⟨new', henv', -⟩ := env_withHistory bookkeeping henv
    refine ⟨workflow_of_env hinv.stored (fun d he => hsaved d (by rw [he])) henv', heach, ?_⟩
    have hentered : ∀ a n, n ∈ (Pool.locOf (blank, empty)
        ⟨w, q.tasks ++ new.map fun t => ⟨t.1, t.2⟩⟩ a).1.entered →
        n ∈ (q.locOf (blank, empty) a).1.entered := by
      intro a n hn
      obtain hsame | ⟨-, u, hu, hloc⟩ := locOf_append (blank, empty) q.world
        q.tasks (new.map fun t => (⟨t.1, t.2⟩ : Task Op Op.Res Booked)) a
      · rw [hsame] at hn
        exact hn
      · obtain ⟨s, hs, rfl⟩ := mem_map.mp hu
        simp [hloc, (guardedBy_started guard henv hs).2] at hn
    intro a b hab n hn hn'
    exact hinv.apart a b hab n (hentered a n hn) (hentered b n hn')

theorem runGuarded_bookInitial (env : Services) (start : Start) :
    RunGuarded start.definition.maxVisitsPerNode (bookInitial env start) := by
  have hblank :
      ∀ i, ((bookInitial env start).locOf (blank, empty) i).1.entered = [] := by
    intro i
    cases i <;> rfl
  refine ⟨rfl, fun i => ?_, fun i j _ n hn => ?_⟩
  · cases i with
    | zero =>
      refine ⟨fun d hd => ?_, .inr rfl, .of_entered_eq_nil rfl fun _ => Nat.le_refl 0,
        fun _ _ => .inl rfl⟩
      rw [← Option.some.inj hd]
    | succ => exact GuardedBy.blank rfl rfl rfl rfl rfl
  · simp [hblank i] at hn

/-- A won state is remembered. -/
theorem won_eq_none_of_note {b : Books} {v : Option RunRow} (h : (b.note l v o r).won = none) :
    b.won = none ∧ o.winsTerminal r = false := by
  cases o with
  | run o =>
    cases o with
    | updateState =>
      simp only [note] at h
      split at h
      · cases h
      · rename_i hwins
        exact ⟨h, by simpa [Op.winsTerminal] using hwins⟩
    | _ => exact ⟨h, rfl⟩
  | step o | audit o | service o => cases o <;> exact ⟨h, rfl⟩
  | _ => exact ⟨h, rfl⟩

/-- A continuation that has won nothing in the end has won nothing on the way. -/
theorem not_winsTerminal_of_won_eq_none (ms : List RunMove) :
    ∀ q q' : BookPool, run (bookMachine env) ms q = some q' →
      (q'.locOf (blank, empty) i).2.won = none →
      (q.locOf (blank, empty) i).2.won = none ∧
        AllSteps (machine env) (fun m p => movedBy i m = true → winsTerminal env m p = false)
          ms q.forget := by
  induction ms with
  | nil =>
    intro q q' hrun hnone
    cases hrun
    exact ⟨hnone, trivial⟩
  | cons m ms ih =>
    intro q q' hrun hnone
    simp only [run] at hrun
    split at hrun
    · cases hrun
    rename_i q₁ hq₁
    obtain ⟨hnone₁, hall⟩ := ih q₁ q' hrun hnone
    have hbefore : (q.locOf (blank, empty) i).2.won = none := by
      by_contra hwon
      exact local_step (P := fun x => x.2.won ≠ none) hq₁
        (fun _ _ _ _ _ _ _ _ _ hP _ hnone => hP (won_eq_none_of_note hnone).1)
        (by simp [empty]) hwon hnone₁
    have hhead : movedBy i m = true → winsTerminal env m q.forget = false := by
      intro hm
      obtain ⟨j, input, t, o, k, r, w, ht, hprog, hact⟩ | ⟨e, w, new, henv⟩ :=
        isStep_of_step hq₁
      · obtain rfl : j = i := by simpa [movedBy] using hm
        rw [locOf_set_self ht] at hnone₁
        rw [winsTerminal, answer_of_act (t := t.forget) (by simp [ht]) hprog hact]
        exact (won_eq_none_of_note hnone₁).2
      · cases hm
    refine ⟨hbefore, hhead, fun p hp => ?_⟩
    rw [step_forget bookkeeping, hq₁] at hp
    cases hp
    exact hall

/-- At most one of the numbers is not zero. -/
theorem sum_le_of_pairwise {bound : ℕ} : ∀ {ns : List ℕ},
    ns.Pairwise (fun a b => a = 0 ∨ b = 0) → (∀ n ∈ ns, n ≤ bound) → ns.sum ≤ bound
  | [], _, _ => Nat.zero_le _
  | n :: ns, hpair, hle => by
    obtain ⟨hhead, htail⟩ := pairwise_cons.mp hpair
    have hrest := sum_le_of_pairwise htail fun k hk => hle k (mem_cons_of_mem _ hk)
    rw [sum_cons]
    by_cases hn : n = 0
    · omega
    · have hzero : ns.sum = 0 := sum_eq_zero fun k hk => (hhead k hk).resolve_left hn
      have hbound := hle n mem_cons_self
      omega

/-- How often a node has been entered, over all continuations. -/
def entries (p : RunPool) (nodeId : String) : ℕ :=
  (p.tasks.map fun t => t.loc.entered.count nodeId).sum

/-- How often its executor has been called. -/
def executions (p : RunPool) (nodeId : String) : ℕ :=
  (p.tasks.map fun t => t.loc.executed.count nodeId).sum

/-- **An executor is called for an entry**, so that what bounds the entries of a node bounds
the calls of its executor. -/
theorem executions_le_entries (hrun : run (machine env) ms (initialPool env start) = some p)
    (nodeId : String) : executions p nodeId ≤ entries p nodeId :=
  sum_le_sum fun t ht => (withinGuard_of_run hrun t ht).1.called nodeId

theorem RunGuarded.entries_le (h : RunGuarded guard q) (nodeId : String) :
    entries q.forget nodeId ≤ guard := by
  have hcount : ∀ (i : ℕ) (t : Task Op Op.Res Booked), q.tasks[i]? = some t →
      t.loc.1.entered.count nodeId ≤ guard := by
    intro i t ht
    have heach := h.each i
    rw [locOf_of_getElem? ht] at heach
    by_cases hmem : nodeId ∈ t.loc.1.entered
    · have hguard : t.loc.1.ctx.workflowDef.maxVisitsPerNode = guard := by
        refine heach.context.resolve_right fun hnil => ?_
        have hknown := heach.within.known nodeId hmem
        simp [hnil] at hknown
      rw [← hguard]
      exact heach.within.counted nodeId
    · simp [count_eq_zero.mpr hmem]
  refine sum_le_of_pairwise ?_ ?_
  · rw [pairwise_iff_getElem]
    intro i j hi hj hij
    simp only [forget_tasks, length_map] at hi hj
    have hapart := h.apart i j (Nat.ne_of_lt hij) nodeId
    rw [locOf_of_getElem? (getElem?_eq_getElem hi),
      locOf_of_getElem? (getElem?_eq_getElem hj)] at hapart
    simp only [forget_tasks, map_map, getElem_map, Function.comp_apply, Task.forget, count_eq_zero]
    tauto
  · intro n hn
    obtain ⟨t, ht, rfl⟩ := mem_map.mp hn
    obtain ⟨u, hu, rfl⟩ := mem_map.mp ht
    obtain ⟨i, hi⟩ := getElem?_of_mem hu
    exact hcount i u hi

/-- **The loop guard, over a whole run.**  While no node is entered by two continuations,
each node is executed at most as often as the guard admits; and a continuation that is
done, and tried a node beyond the guard, leaves the run over: `FAILED`, unless the run was
ended by another before. -/
theorem loop_guard_over_run (env : Services) (start : Start) (ms : List RunMove) (p : RunPool)
    (hrun : run (machine env) ms (initialPool env start) = some p)
    (hsaved : ∀ d, Move.env (.saveWorkflow d) ∈ ms →
      d.maxVisitsPerNode = start.definition.maxVisitsPerNode)
    (halone : AllSteps (machine env) (fun m p => entersAlone m p = true) ms
      (initialPool env start)) :
    (∀ nodeId, entries p nodeId ≤ start.definition.maxVisitsPerNode) ∧
    ∀ i t, p.tasks[i]? = some t → t.finished = true → ∀ nodeId,
      t.loc.ctx.workflowDef.maxVisitsPerNode < t.loc.ctx.nodeVisitCounts nodeId →
      ∃ row, p.world.run.committed = some row ∧ row.state.isTerminal = true ∧
        (row.state = .failed ∨ AllSteps (machine env)
          (fun m q => movedBy i m = true → winsTerminal env m q = false) ms
          (initialPool env start)) := by
  have hsaves : ∀ m ∈ ms, SavesGuard start.definition.maxVisitsPerNode m := by
    rintro m hm d rfl
    exact hsaved d hm
  obtain ⟨q, hq, rfl, hconducted, hguarded⟩ := run_invariant_of_conducted
    (RunGuarded start.definition.maxVisitsPerNode)
    (fun m q q' hq hinv hcond h => runGuarded_step hq hinv hcond.1 hcond.2 h)
    (runGuarded_bookInitial env start) (halone.and (allSteps_of_forall_mem hsaves _)) hrun
  refine ⟨hguarded.entries_le, fun i t ht hdone nodeId hbeyond => ?_⟩
  obtain ⟨u, hu, rfl⟩ : ∃ u, q.tasks[i]? = some u ∧ u.forget = t := by
    simpa [getElem?_map, Option.map_eq_some_iff] using ht
  obtain ⟨htidy, hown⟩ := hconducted.post_of_finished hu hdone
  have hlink := hconducted.link_of_getElem? hu
  obtain ⟨row, hrow, hterm⟩ :=
    hlink.closed (by simp [closed, htidy.guarded nodeId hbeyond])
  have hcommitted : q.world.run.committed = some row := by
    rw [← hlink.link.seenBy_of_own_eq_none hown]
    exact hrow
  refine ⟨row, hcommitted, hterm, ?_⟩
  have heach := hguarded.each i
  rw [locOf_of_getElem? hu] at heach
  obtain hnone | hfailed := heach.won nodeId hbeyond
  · refine .inr ?_
    have hlast := not_winsTerminal_of_won_eq_none ms (bookInitial env start) q hq
      (by rw [locOf_of_getElem? hu]; exact hnone)
    exact hlast.2
  · refine .inl ?_
    obtain ⟨-, -, hstate⟩ := hlink.won .failed hfailed
    rw [hrow] at hstate
    exact Option.some.inj hstate

/-- A timer that leads back to itself, under a guard of one visit. -/
def timerLoop : Definition where
  entryNodeId := "t"
  nodes := [triggerNode, timerNode "w", endNode "e"]
  edges := [⟨"e1", "t", "w", none, none⟩, ⟨"e2", "w", "w", none, none⟩,
    ⟨"e3", "w", "e", some "timeout", none⟩]
  loopGuard := [("max_visits_per_node", .int 1)]

/-- The timer parks, elapses, and is executed again by the job that resumes it. -/
def elapsesOnce : List RunMove := turns 0 30 ++ deliver 0 ++ turns 1 24

/-- The timer was executed twice, and registered two waits, under a guard of one visit; the
run goes on. -/
theorem timer_loop_escapes_guard :
    ∃ p row, runManually timerLoop elapsesOnce = some p ∧
      timerLoop.maxVisitsPerNode = 1 ∧ entries p "w" = 2 ∧ p.world.parks = 2 ∧
      p.tasks.all (fun t => t.finished) = true ∧
      p.world.run.committed = some row ∧ row.state = .waiting := by
  simp only [exists_and_left]
  decide +kernel

/-- A condition that leads back to itself while it holds, under a guard of one visit. -/
def spin : Definition where
  entryNodeId := "t"
  nodes := [triggerNode, ⟨"c", .condition, [("branches", .arr [.obj
    [("when", .str "\x7b\x7b again \x7d\x7d"), ("port", .str "yes")]]),
    ("default_port", .str "no")]⟩, endNode "e"]
  edges := [⟨"e1", "t", "c", none, none⟩, ⟨"e2", "c", "c", some "yes", none⟩,
    ⟨"e3", "c", "e", some "no", none⟩]
  vars := [("again", [("type", .str "boolean"), ("default", .bool true)])]
  loopGuard := [("max_visits_per_node", .int 1)]

/-- The condition holds, and goes on to itself. -/
def spinsOnce : List RunMove := turns 0 21 ++ [.step 0 (.now 0)] ++ turns 0 16

/-- Within one continuation the second visit ends the run. -/
theorem spin_is_guarded :
    Accepted plainEnv spin ∧
    ∃ p, runManually spin spinsOnce = some p ∧ entries p "c" ≤ spin.maxVisitsPerNode ∧
      ∃ row, p.world.run.committed = some row ∧ row.state.isTerminal = true := by
  refine ⟨⟨by decide +kernel, by decide +kernel⟩, ?_⟩
  obtain ⟨p, hp, t, ht, hdone, hbeyond⟩ :
      ∃ p ∈ runManually spin spinsOnce, ∃ t ∈ p.tasks[0]?, t.finished = true ∧
        t.loc.ctx.workflowDef.maxVisitsPerNode < t.loc.ctx.nodeVisitCounts "c" := by
    decide +kernel
  obtain ⟨hentries, hfailed⟩ := loop_guard_over_run plainServices ⟨spin, "manual", [], false⟩
    spinsOnce p hp (fun d hd => by simp [spinsOnce, turns] at hd) (by decide +kernel)
  obtain ⟨row, hrow, hterm, -⟩ := hfailed 0 t ht hdone "c" hbeyond
  exact ⟨p, hp, hentries "c", row, hrow, hterm⟩

/-- The call that spins ends after one call of each executor on the way. -/
theorem spin_ends :
    ∃ p t, runManually spin spinsOnce = some p ∧ p.tasks = [t] ∧ t.finished = true ∧
      t.loc.executed = ["c", "t"] ∧ t.loc.executed.length ≤
        (t.loc.ctx.workflowDef.nodes.map NodeDef.id).toFinset.card *
          t.loc.ctx.workflowDef.maxVisitsPerNode := by
  obtain ⟨p, hp, t, ht, hone, hdone, hexecuted⟩ :
      ∃ p ∈ runManually spin spinsOnce, ∃ t ∈ p.tasks[0]?, p.tasks.length = 1 ∧
        t.finished = true ∧ t.loc.executed = ["c", "t"] := by
    decide +kernel
  obtain ⟨u, hu⟩ := length_eq_one_iff.mp hone
  obtain rfl : u = t := by simpa [hu] using ht
  have hbound := (engine_calls_end plainServices ⟨spin, "manual", [], false⟩).1 spinsOnce p hp u
    (by simp [hu])
  exact ⟨p, u, hp, hu, hdone, hexecuted, hbound.2⟩

end Smap.Workflow
