import Smap.Workflow.Retry
import Smap.Workflow.Snapshots

/-!
# Variables of parallel branches

A continuation copies the run's variables into its context when it starts, and writes the
whole map back after every node, with the variables it never touched.  Between the copy
and the write-back others may commit, and what they assigned is overwritten.

The main result, `committed_assignment_survives`, says when a committed assignment stays: if
at the commit no other continuation holds a copy, and nobody assigns the variable again, the
value is there in every state reached.
-/

namespace Smap.Workflow

open Program RowVersions Versioned

variable {env : Services} {x : String} {value : Json}

/-- The continuation is about to commit. -/
def aboutToCommit (t : Task Op Op.Res Local) : Bool :=
  match t.prog with
  | .op .commit _ => true
  | _ => false

/-- The move does not assign the variable. -/
def assignsNot (x : String) (m : RunMove) (p : RunPool) : Bool :=
  match nextOp m p with
  | some (.ctx (.assign name _)) => name != x
  | _ => true

/-- Every other continuation is done, or has not looked at the run row since its last commit:
none holds a copy of the variables. -/
def HoldsAlone (i : ℕ) (p : RunPool) : Prop :=
  ∀ u ∈ p.tasks.eraseIdx i, u.finished = true ∨ u.loc.looked = []

variable {start : Start} {l : Local} {o : Op} {p p' : RunPool} {m : RunMove}

/-- A context is built after a look at the row. -/
theorem looked_of_current (hok : Informed start l o) (h : l.current = true → l.looked ≠ [])
    (v : Option RunRow) (r : o.Res) :
    (o.record l v r).current = true → (o.record l v r).looked ≠ [] := by
  cases o with
  | ctx o =>
    cases o with
    | create =>
      obtain ⟨row, hrow, -⟩ := hok
      exact fun _ => List.ne_nil_of_mem hrow
    | _ => exact h
  | run o =>
    cases o with
    | insert => exact fun _ => List.cons_ne_nil _ _
    | get => exact fun hcurrent => List.append_ne_nil_of_right_ne_nil _ (h hcurrent)
    | _ => exact h
  | step o | redis o | queue o | audit o => cases o <;> exact h
  | service | diverge => exact h
  | commit => exact nofun

/-- Every current context was built after a look at the row. -/
def AllLooked (p : RunPool) : Prop := ∀ t ∈ p.tasks, t.loc.current = true → t.loc.looked ≠ []

theorem allLooked_step (hp : AllInformed env start p) (h : AllLooked p)
    (hstep : step (machine env) m p = some p') : AllLooked p' := by
  intro u hu
  obtain ⟨i, input, t, o, k, r, w, ht, hprog, hact⟩ | ⟨e, w, new, henv⟩ := isStep_of_step hstep
  · obtain hu | rfl := List.mem_or_eq_of_mem_set hu
    · exact h u hu
    · exact looked_of_current (hp.ok_of_prog ht hprog) (h t (List.mem_of_getElem? ht)) _ r
  · obtain hu | hu := List.mem_append.mp hu
    · exact h u hu
    obtain ⟨s, hs, rfl⟩ := List.mem_map.mp hu
    obtain ⟨job, rfl, -⟩ | rfl | ⟨reason, rfl⟩ | rfl := Outside.act_starts henv hs
    all_goals exact nofun

/-- An assignment leaves the other variables alone. -/
theorem JsonObject.get?_set_of_ne {o : JsonObject} {name x : String} {value : Json}
    (h : name ≠ x) : (o.set name value).get? x = o.get? x := by
  have hx : (x == name) = false := by simpa using h.symm
  have hmap : ∀ o : JsonObject,
      (o.map fun kv => if kv.1 == name then (name, value) else kv).lookup x = o.lookup x := by
    intro o
    induction o with
    | nil => rfl
    | cons entry rest ih =>
      obtain ⟨key, v⟩ := entry
      by_cases hkey : key = name
      · subst hkey
        simpa [List.lookup_cons, hx] using ih
      · simp_all [List.lookup_cons]
  unfold JsonObject.set JsonObject.get?
  split
  · exact hmap o
  · simp [List.lookup_append, List.lookup_cons, hx]

/-- The variable has the value. -/
abbrev HasValue (x : String) (value : Json) (vars : JsonObject) : Prop :=
  vars.get? x = some value

/-- A context built from a version of the row has the value the version has. -/
theorem carried_hasValue (start : Start) (x : String) (value : Json) :
    Carried start (fun row => HasValue x value row.vars) (fun vars _ => HasValue x value vars) :=
  ⟨fun _ _ h => h, fun _ _ _ _ h => h, fun _ _ h _ => h⟩

/-- The value is stored, and whatever the continuations work with has it. -/
structure StoresValue (x : String) (value : Json) (p : RunPool) : Prop where
  stored : ∃ row, p.world.run.committed = some row
  carries : Carries (fun row => HasValue x value row.vars) (fun vars _ => HasValue x value vars) p

/-- **A step keeps a stored value**, if it does not assign the variable. -/
theorem storesValue_step (hp : AllInformed env start p) (h : StoresValue x value p)
    (hquiet : assignsNot x m p = true) (hstep : step (machine env) m p = some p') :
    StoresValue x value p' := by
  obtain ⟨row, hrow⟩ := h.stored
  constructor
  · obtain ⟨i, input, t, o, k, r, w, ht, hprog, hact⟩ | ⟨e, w, new, henv⟩ := isStep_of_step hstep
    · obtain ⟨row', hrow', -⟩ := (Link.act_run hact).1 row hrow
      exact ⟨row', hrow'⟩
    · exact ⟨row, (Outside.act_rows henv).1 ▸ hrow⟩
  · refine carries_step (carried_hasValue start x value) hp h.carries ?_ ?_ hstep
    · intro _ _ hnone
      simp [hnone] at hrow
    · intro name v hnext vars _ hvars
      have hname : name ≠ x := by simpa [assignsNot, hnext] using hquiet
      exact (JsonObject.get?_set_of_ne hname).trans hvars

/-- The commit of a continuation publishes the value in its draft; with nobody else holding a
copy, everybody goes on from there. -/
theorem storesValue_of_commit {i : ℕ} {input : Input} {t : Task Op Op.Res Local} {row : RunRow}
    (hlooked : AllLooked p) (ht : p.tasks[i]? = some t) (hcommits : aboutToCommit t = true)
    (hdraft : p.world.run.draftOf i = some row) (hvalue : HasValue x value row.vars)
    (halone : HoldsAlone i p) (hstep : step (machine env) (.step i input) p = some p') :
    StoresValue x value p' := by
  cases isStep_of_step hstep with
  | task _ _ u o k r w hu hprog hact =>
    obtain rfl : t = u := Option.some.inj (ht.symm.trans hu)
    have ho : o = .commit := by
      unfold aboutToCommit at hcommits
      rw [hprog] at hcommits
      cases o with
      | commit => rfl
      | _ => cases hcommits
    subst ho
    cases hact
    obtain ⟨hcommitted, hnone⟩ := commit_of_draftOf hdraft
    refine ⟨⟨row, hcommitted⟩, ⟨fun row' hrow' => ?_, fun j row' hrow' => ?_⟩, fun u hu => ?_⟩
    · cases hcommitted.symm.trans hrow'
      exact hvalue
    · simp [hnone] at hrow'
    obtain ⟨j, hj⟩ := List.getElem?_of_mem hu
    by_cases hij : i = j
    · subst hij
      rw [List.getElem?_set_self (List.getElem?_eq_some_iff.mp ht).1] at hj
      cases hj
      exact .inr ⟨nofun, nofun⟩
    · rw [List.getElem?_set_ne hij] at hj
      refine (halone u ?_).imp id fun hnil => ⟨by simp [hnil], fun hcurrent => ?_⟩
      · exact List.mem_eraseIdx_iff_getElem?.mpr ⟨j, Ne.symm hij, hj⟩
      · exact absurd hnil (hlooked u (List.mem_of_getElem? hj) hcurrent)

/-- **When a committed assignment survives.**  In every run of every workflow, let a
continuation commit a version of the run row that has the value, while every other
continuation is done or has yet to look at the row.  Under every schedule of what follows in
which nobody assigns the variable, the run's stored variables hold the committed value in the
state reached. -/
theorem committed_assignment_survives (env : Services) (start : Start) (ms₁ : List RunMove)
    (p₁ : RunPool) (hrun₁ : run (machine env) ms₁ (initialPool env start) = some p₁) (i : ℕ)
    (t : Task Op Op.Res Local) (ht : p₁.tasks[i]? = some t) (hcommits : aboutToCommit t = true)
    (row : RunRow) (hdraft : p₁.world.run.draftOf i = some row) (x : String) (value : Json)
    (hvalue : row.vars.get? x = some value) (halone : HoldsAlone i p₁) (input : Input)
    (p₂ : RunPool) (hcommit : step (machine env) (.step i input) p₁ = some p₂)
    (ms₂ : List RunMove)
    (hquiet : AllSteps (machine env) (fun m p => assignsNot x m p = true) ms₂ p₂)
    (p₃ : RunPool) (hrun₂ : run (machine env) ms₂ p₂ = some p₃) :
    ∃ row', p₃.world.run.committed = some row' ∧ row'.vars.get? x = some value := by
  obtain ⟨hinformed₁, hlooked⟩ := Good.run_invariant AllLooked (reads_started start)
    (fun _ _ _ hp h _ => allLooked_step hp h) (allSteps_true _ ms₁ _)
    (allInformed_initialPool env start)
    (fun t ht => by obtain rfl := List.mem_singleton.mp ht; exact nofun) hrun₁
  have hinformed₂ := hinformed₁.step (reads_started start) hcommit
  have hstored := storesValue_of_commit hlooked ht hcommits hdraft hvalue halone hcommit
  obtain ⟨-, hstored₃⟩ := Good.run_invariant (StoresValue x value) (reads_started start)
    (fun _ _ _ hp h hcond => storesValue_step hp h hcond) hquiet hinformed₂ hstored hrun₂
  obtain ⟨row', hrow'⟩ := hstored₃.stored
  exact ⟨row', hrow', hstored₃.carries.rows.committed row' hrow'⟩

section Examples

/-- Two agents side by side, the reply of the first stored in a variable. -/
def twoAgents : Definition where
  entryNodeId := "t"
  nodes := [triggerNode, ⟨"p", .parallel, []⟩, agentNode "a" [("output_variable", .str "x")],
    agentNode "b" [], allJoin "j", endNode "e", endNode "f"]
  edges := [⟨"e1", "t", "p", none, none⟩, ⟨"e2", "p", "a", none, none⟩,
    ⟨"e3", "p", "b", none, none⟩, ⟨"e4", "a", "j", some "success", none⟩,
    ⟨"e5", "b", "j", some "success", none⟩, ⟨"e6", "j", "e", none, none⟩,
    ⟨"e7", "a", "f", some "failure", none⟩, ⟨"e8", "b", "f", some "failure", none⟩]
  vars := [("x", [("type", .str "string"), ("default", .str "old")])]

/-- The value is a given text. -/
def isText (value : Option Json) (text : String) : Bool :=
  match value with
  | some (.str s) => s == text
  | _ => false

theorem eq_of_isText {text : String} {value : Option Json} (h : isText value text = true) :
    value = some (.str text) := by
  unfold isText at h
  split at h
  · rw [beq_iff_eq.mp h]
  · cases h

/-- Both branches take their snapshots, then the first does its work up to its commit. -/
def bothSnapshots : List RunMove :=
  turns 0 32 ++ deliver 0 ++ turns 1 3 ++ deliver 0 ++ turns 2 3 ++
    turns 1 8 ++ answeredCall 1 ++ turns 1 17

/-- The first branch is done; the second does its work, to the end of the run. -/
def secondBranch : List RunMove :=
  turns 1 1 ++ turns 2 8 ++ answeredCall 2 ++ turns 2 33

/-- The reply stored by the first branch is lost: the second branch, which assigns
nothing, writes its older snapshot back. -/
theorem reply_lost_to_sibling :
    Accepted plainEnv twoAgents ∧
    ∃ p₁ t row p₂ p₃ row', runManually twoAgents bothSnapshots = some p₁ ∧
      p₁.tasks[1]? = some t ∧ aboutToCommit t = true ∧ "x" ∈ t.loc.assigned ∧
      p₁.world.run.draftOf 1 = some row ∧ row.vars.get? "x" = some (.str "done") ∧
      step (machine plainServices) (.step 1 .none) p₁ = some p₂ ∧
      AllSteps (machine plainServices) (fun m p => assignsNot "x" m p = true) secondBranch p₂ ∧
      run (machine plainServices) secondBranch p₂ = some p₃ ∧
      (∀ u ∈ p₃.tasks, u.finished = true) ∧ p₃.world.queue = [] ∧
      p₃.world.run.committed = some row' ∧ row'.vars.get? "x" = some (.str "old") := by
  refine ⟨⟨by decide +kernel, by decide +kernel⟩, ?_⟩
  have hcheck : ((runManually twoAgents bothSnapshots).any fun p₁ =>
      p₁.tasks[1]?.any fun t => aboutToCommit t && t.loc.assigned.contains "x" &&
        (p₁.world.run.draftOf 1).any fun row => isText (row.vars.get? "x") "done" &&
        (step (machine plainServices) (.step 1 .none) p₁).any fun p₂ =>
          checkSteps (machine plainServices) (assignsNot "x") secondBranch p₂ &&
          (run (machine plainServices) secondBranch p₂).any fun p₃ =>
            p₃.tasks.all (fun u => u.finished) && p₃.world.queue.isEmpty &&
            p₃.world.run.committed.any fun row' => isText (row'.vars.get? "x") "old") = true := by
    decide +kernel
  simp only [Option.any_eq_true, Bool.and_eq_true, List.all_eq_true, List.isEmpty_iff,
    List.contains_iff_mem] at hcheck
  obtain ⟨p₁, hp₁, t, ht, ⟨hcommits, hassigned⟩, row, hrow, hdone, p₂, hp₂, hquiet, p₃, hp₃,
    ⟨hfinished, hqueue⟩, row', hrow', hold⟩ := hcheck
  exact ⟨p₁, t, row, p₂, p₃, row', hp₁, ht, hcommits, hassigned, hrow, eq_of_isText hdone, hp₂,
    allSteps_of_checkSteps (fun _ _ h => h) _ _ hquiet, hp₃, hfinished, hqueue, hrow',
    eq_of_isText hold⟩

/-- Both branches are taken up; the first does its work up to its commit while the second has
yet to look at the row. -/
def firstBranch : List RunMove :=
  turns 0 32 ++ deliver 0 ++ deliver 0 ++ turns 1 11 ++ answeredCall 1 ++ turns 1 17

/-- The second branch takes its snapshot after the commit, and ends the run. -/
def branchAfter : List RunMove := turns 1 1 ++ turns 2 11 ++ answeredCall 2 ++ turns 2 33

/-- The reply is there when the run is over. -/
theorem reply_survives_in_sequence :
    ∃ p₁ p₂ p₃ row, runManually twoAgents firstBranch = some p₁ ∧
      (∃ u, p₁.tasks[2]? = some u ∧ u.finished = false) ∧
      step (machine plainServices) (.step 1 .none) p₁ = some p₂ ∧
      run (machine plainServices) branchAfter p₂ = some p₃ ∧
      (∀ u ∈ p₃.tasks, u.finished = true) ∧
      p₃.world.run.committed = some row ∧ row.vars.get? "x" = some (.str "done") := by
  obtain ⟨p₁, hp₁, ⟨u, hu, hunfinished⟩, t, ht, hcommits, halone, row, hrow, hdone, p₂, hp₂,
      hquiet, p₃, hp₃, hfinished⟩ :
      ∃ p₁ ∈ runManually twoAgents firstBranch, (∃ u ∈ p₁.tasks[2]?, u.finished = false) ∧
        ∃ t ∈ p₁.tasks[1]?, aboutToCommit t = true ∧
        (∀ u ∈ p₁.tasks.eraseIdx 1, u.finished = true ∨ u.loc.looked = []) ∧
        ∃ row ∈ p₁.world.run.draftOf 1, isText (row.vars.get? "x") "done" = true ∧
        ∃ p₂ ∈ step (machine plainServices) (.step 1 .none) p₁,
          checkSteps (machine plainServices) (assignsNot "x") branchAfter p₂ = true ∧
          ∃ p₃ ∈ run (machine plainServices) branchAfter p₂, ∀ u ∈ p₃.tasks, u.finished = true := by
    decide +kernel
  obtain ⟨row', hrow', hvalue⟩ := committed_assignment_survives plainServices
    ⟨twoAgents, "manual", [], false⟩ firstBranch p₁ hp₁ 1 t ht hcommits row hrow "x" (.str "done")
    (eq_of_isText hdone) halone .none p₂ hp₂ branchAfter
    (allSteps_of_checkSteps (fun _ _ h => h) _ _ hquiet) p₃ hp₃
  exact ⟨p₁, p₂, p₃, row', hp₁, ⟨u, hu, hunfinished⟩, hp₂, hp₃, hfinished, hrow', hvalue⟩

end Examples

end Smap.Workflow
