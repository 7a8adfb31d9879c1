import Smap.Workflow.Variables

/-!
# Dry runs

`WorkflowService.dry_run` starts a run with the trigger type `dry_run`, and every continuation
reads the type of its run back from the row.  So the flag survives each way in which a node is
entered, and no executor outside `_DRY_RUN_SAFE_TYPES` is called.
-/

namespace Smap.Workflow

open Program RowVersions

/-- The row of a dry run. -/
def RunRow.isDry (row : RunRow) : Prop := row.triggerType = "dry_run"

/-- How `WorkflowService.dry_run` starts a run. -/
def dryStart (d : Definition) (triggerPayload : JsonObject) : Start :=
  ⟨d, "dry_run", triggerPayload, true⟩

variable {env : Services} {d : Definition} {triggerPayload : JsonObject} {ms : List RunMove}
  {p : RunPool} {l : Local} {o : Op}

/-- Every row of a dry run is dry, and so is every context. -/
abbrev DryPool (p : RunPool) : Prop := Carries RunRow.isDry (fun _ dry => dry = true) p

/-- Only the start and the trigger type of the row decide on the flag of a context. -/
theorem carried_isDry (d : Definition) (triggerPayload : JsonObject) :
    Carried (dryStart d triggerPayload) RunRow.isDry fun _ dry => dry = true where
  state _ _ hrow := hrow
  write _ _ _ hrow _ := hrow
  taken row dry hrow hdry := by
    obtain rfl | rfl := hdry
    · exact beq_iff_eq.mpr hrow
    · rfl

theorem dryPool_of_run
    (hrun : run (machine env) ms (initialPool env (dryStart d triggerPayload)) = some p) :
    AllInformed env (dryStart d triggerPayload) p ∧ DryPool p := by
  refine Good.run_invariant DryPool (reads_started _) ?_ (allSteps_true _ ms _)
    (allInformed_initialPool env _) ⟨⟨nofun, nofun⟩, fun t ht => ?_⟩ hrun
  · intro m q q' hq h _ hstep
    exact carries_step (carried_isDry d triggerPayload) hq h (fun _ hrow _ => hrow)
      (fun _ _ _ _ _ hdry => hdry) hstep
  · obtain rfl := List.mem_singleton.mp ht
    exact .inr ⟨nofun, nofun⟩

/-- An informed continuation with a dry context calls safe executors only. -/
theorem Informed.of_dry (hok : Informed (dryStart d triggerPayload) l o)
    (hdry : l.current = true → l.ctx.isDryRun = true) :
    (∀ nodeId type, o = .ctx (.invoke nodeId type) → dryRunSafe type = true) ∧
      o.outward = false := by
  constructor
  · rintro nodeId type rfl
    exact hok.2 (hdry hok.1)
  · by_contra houtward
    rw [Bool.not_eq_false] at houtward
    obtain ⟨hcurrent, hflag⟩ : l.current = true ∧ l.ctx.isDryRun = false := by
      unfold Informed at hok
      split at hok <;> first | exact hok houtward | cases houtward
    exact Bool.false_ne_true (hflag.symm.trans (hdry hcurrent))

/-- **A dry run has no side effects through executors.**  In every pool reached by any schedule
of a dry run, whatever continuation is looked at: the executor it is about to call is that of
a type in `_DRY_RUN_SAFE_TYPES`, and the operation it is about to perform is none of those by
which the other executors reach outside of the run. -/
theorem dry_run_calls_safe_executors (env : Services) (d : Definition) (triggerPayload : JsonObject)
    (ms : List RunMove) (p : RunPool)
    (hrun : run (machine env) ms (initialPool env (dryStart d triggerPayload)) = some p)
    (i : ℕ) (t : Task Op Op.Res Local) (ht : p.tasks[i]? = some t) (o : Op)
    (k : o.Res → Engine Unit) (hprog : t.prog = .op o k) :
    (∀ nodeId type, o = .ctx (.invoke nodeId type) → dryRunSafe type = true) ∧
      o.outward = false := by
  obtain ⟨hinformed, hdry⟩ := dryPool_of_run hrun
  have hl := (hdry.tasks t (List.mem_of_getElem? ht)).resolve_left fun hdone => by
    simp [Task.finished, hprog] at hdone
  exact (hinformed.ok_of_prog ht hprog).of_dry hl.2

/-- The node whose executor a continuation is about to call. -/
def aboutToInvoke (t : Task Op Op.Res Local) : Option (String × NodeType) :=
  match t.prog with
  | .op (.ctx (.invoke nodeId type)) _ => some (nodeId, type)
  | _ => none

theorem prog_of_aboutToInvoke {t : Task Op Op.Res Local} {nodeId : String} {type : NodeType}
    (h : aboutToInvoke t = some (nodeId, type)) :
    ∃ k, t.prog = .op (.ctx (.invoke nodeId type)) k := by
  unfold aboutToInvoke at h
  split at h
  · rename_i k hprog
    cases h
    exact ⟨k, hprog⟩
  · cases h

/-- A branch of a dry run, taken up by `run_step`: it has entered the agent and not called its
executor, and comes to the join. -/
theorem agent_mocked_in_dry_run : Accepted plainEnv twoAgents ∧ ∃ p t,
    run (machine plainServices) (turns 0 32 ++ deliver 0 ++ turns 1 18)
      (initialPool plainServices (dryStart twoAgents [])) = some p ∧
    p.tasks[1]? = some t ∧ "a" ∈ t.loc.entered ∧ "a" ∉ t.loc.executed ∧
    aboutToInvoke t = some ("j", .join) ∧ dryRunSafe .join = true := by
  refine ⟨⟨by decide +kernel, by decide +kernel⟩, ?_⟩
  obtain ⟨p, hp, t, ht, hentered, hexecuted, hinvoke⟩ :
      ∃ p ∈ run (machine plainServices) (turns 0 32 ++ deliver 0 ++ turns 1 18)
        (initialPool plainServices (dryStart twoAgents [])),
        ∃ t ∈ p.tasks[1]?, "a" ∈ t.loc.entered ∧ "a" ∉ t.loc.executed ∧
          aboutToInvoke t = some ("j", .join) := by
    decide +kernel
  obtain ⟨k, hprog⟩ := prog_of_aboutToInvoke hinvoke
  obtain ⟨hsafe, -⟩ :=
    dry_run_calls_safe_executors plainServices twoAgents [] _ p hp 1 t ht _ k hprog
  exact ⟨p, t, hp, ht, hentered, hexecuted, hinvoke, hsafe "j" .join rfl⟩

end Smap.Workflow
