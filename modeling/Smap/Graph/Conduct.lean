import Smap.Graph.Builds

/-!
# What builds and cycles do under a lock

Builds and reconciler cycles as tasks of a pool, with what each of them notes: the rows it has
read, the config whose lock it has, whether it has written.  Followed through their programs,
both change a config only while they have its lock, and commit before they give it back unless
they raise.
-/

namespace Smap.Graph

open Smap.Program

/-! ## Processes -/

/-- A build, or a cycle of the reconciler. -/
inductive Proc where
  | build (j : Job)
  | reconcile (replaceOnRecovery : Bool)

def Proc.prog : Proc → Process Unit
  | .build j => Graph.build j
  | .reconcile r => Graph.reconcile r

/-- What a process notes. -/
structure Notes where
  /-- The rows it has read and not taken up yet, each with its state. -/
  seen : List (ConfigId × BuildState) := []
  /-- The config whose lock it has, with the state it has read. -/
  held : Option (ConfigId × BuildState) := none
  /-- It has written since it took the lock. -/
  wrote : Bool := false
  /-- It has written and not committed. -/
  dirty : Bool := false

/-- What a process remembers. -/
def note (l : Notes) : (o : Op) → Res o → Notes
  | .get c, some r => { l with seen := [(c, r.lastBuildState)] }
  | .listInState state, rows => { l with seen := l.seen ++ rows.map fun e => (e.1, state) }
  | .acquire _, true => { l with seen := l.seen.tail, held := l.seen.head?, wrote := false }
  | .acquire _, false => { l with seen := l.seen.tail }
  | .release _, _ => { l with held := none }
  | .setState .., _ => { l with wrote := true, dirty := true }
  | .commit, _ | .rollback, _ | .close, _ => { l with dirty := false }
  | _, _ => l

def machine : Machine Op Res Notes World Unit Input Outside where
  view _ _ := ()
  record l _ o r := note l o r
  act i o input _ w := if i ∈ w.dead then none else act i o input w
  env e w :=
    match e with
    | .die i => some ({ w.without i with dead := i :: w.dead }, [])
    | .post c m => (w.post c m).map fun w => (w, [])

abbrev Procs := Pool Op Res Notes World

def start (w : World) (procs : List Proc) : Procs := launch {} w (procs.map Proc.prog)

theorem World.site_setSite {w : World} {c c' : ConfigId} {s : Site} :
    (w.setSite c s).site c' = if c' = c then s else w.site c' := by
  simp [World.setSite, Function.update_apply]

/-- No process is at work. -/
structure World.Quiet (w : World) : Prop where
  unlocked : ∀ c, (w.site c).lock = none
  committed : ∀ c, (w.site c).row.draft = none

/-! ## Obligations -/

/-- A process works on the config whose lock it has, and commits while it has it. -/
def Ok (l : Notes) : Op → Prop
  | .acquire c => l.held = none ∧ l.dirty = false ∧ ∃ s rest, l.seen = (c, s) :: rest
  | .release c | .setState c _ | .call c _ => ∃ s, l.held = some (c, s)
  | .commit => l.dirty = true → l.wrote = true ∧ l.held.isSome = true
  | _ => True

/-- A build starts once, from a state it may start from. -/
def OkBuild (l : Notes) (o : Op) : Prop :=
  Ok l o ∧ ∀ c u, o = .setState c u → u.state = .running →
    l.wrote = false ∧ ∃ s, l.held = some (c, s) ∧ s.startable = true

/-- A cycle takes up what was stuck. -/
def OkCycle (l : Notes) (o : Op) : Prop :=
  Ok l o ∧ ∀ c, o = .acquire c → ∃ s rest, l.seen = (c, s) :: rest ∧ s.stuck = true

/-- The operations of a process that has the lock of a config, apart from its start. -/
def inner (c : ConfigId) : Op → Prop
  | .setState c' u => c' = c ∧ u.state ≠ .running
  | .call c' _ | .refresh c' | .builderGroupProject c' => c' = c
  | .commit | .rollback => True
  | _ => False

/-- The same without the condition on the states that are written. -/
def innerCycle (c : ConfigId) : Op → Prop
  | .setState c' _ | .call c' _ => c' = c
  | .commit | .rollback => True
  | _ => False

/-- A process that has the lock. -/
def Has (c : ConfigId) (s : BuildState) (l : Notes) : Prop :=
  l.held = some (c, s) ∧ (l.dirty = true → l.wrote = true)

variable {c : ConfigId} {s : BuildState} {l : Notes} {α : Type}

section Inner

variable {o : Op} {p : Process α}

variable (h : Has c s l)

include h

theorem Has.note (ho : inner c o ∨ innerCycle c o) (r : Res o) : Has c s (Graph.note l o r) := by
  cases o with
  | setState => exact ⟨h.1, fun _ => rfl⟩
  | commit | rollback => exact ⟨h.1, nofun⟩
  | call c' k | refresh c' | builderGroupProject c' => exact h
  | _ => exact ho.elim False.elim False.elim

theorem Has.ok (ho : inner c o ∨ innerCycle c o) : Ok l o := by
  have hheld : ∀ c', c' = c → ∃ s, l.held = some (c', s) := by
    rintro _ rfl
    exact ⟨s, h.1⟩
  cases o with
  | setState c' => exact hheld c' (ho.elim (fun h => h.1) id)
  | call c' => exact hheld c' (ho.elim id id)
  | commit =>
    intro hdirty
    exact ⟨h.2 hdirty, by rw [h.1]; rfl⟩
  | rollback | refresh c' | builderGroupProject c' => trivial
  | _ => exact ho.elim False.elim False.elim

/-- A part of a build that stays under its lock. -/
theorem obeys_inner (hp : p.Only (inner c)) :
    Obeys (free machine {}) OkBuild (fun l _ => Has c s l) p l := by
  refine hp.obeys (fun l o hl ho => ⟨⟨hl.ok (.inl ho), ?_⟩, fun _ r => hl.note (.inl ho) r⟩) h
  rintro c' u rfl hrunning
  exact absurd hrunning ho.2

end Inner

/-! ### Builds -/

variable {b : BuildId} {cfg : ConfigRow}

section Builds

variable {P : Op → Prop} {j : Job} {startedAt : Time} {st : Loading} {triples : List Triple}
  {embedded : List String}

theorem only_tryCall (h : ∀ k, P (.call c k)) (k : Call) : (tryCall c k).run.Only P :=
  .perform (h k)

theorem only_takeSnapshot : (takeSnapshot c b).run.Only (inner c) := by
  have hcall := only_tryCall (P := inner c) fun _ => rfl
  exact (hcall _).bindExcept fun _ => (hcall _).bindExcept fun _ => hcall _

theorem only_flushWindow : (flushWindow c st).run.Only (inner c) := by
  refine (only_tryCall (fun _ => rfl) _).bindExcept fun triples => ?_
  refine Prog.Only.bindExcept (.lift (.perform rfl)) fun ok => ?_
  cases ok with
  | true | false => exact trivial

theorem only_loadRow {m : Message} : (loadRow c st m).run.Only (inner c) := by
  unfold loadRow
  dsimp only
  split
  · exact only_flushWindow.bindExcept fun _ => trivial
  · trivial

theorem only_loadRows {ms : List Message} : (loadRows c st ms).run.Only (inner c) := by
  induction ms generalizing st with
  | nil => trivial
  | cons m ms ih => exact only_loadRow.bindExcept fun _ => ih

theorem only_loadPages {since : Option Time} {n : ℕ} {cursor : Option (ℕ ×ₗ ℕ)} :
    (loadPages c since n cursor st).run.Only (inner c) := by
  induction n generalizing cursor st with
  | zero => trivial
  | succ n ih =>
    refine (Prog.Only.adapt _ (only_tryCall (fun _ => rfl) _)).bindExcept fun rows => ?_
    refine (Prog.Only.adapt _ only_loadRows).bindExcept fun st' => ?_
    split
    · split
      · trivial
      · exact .adapt _ only_flushWindow
    · exact ih

theorem only_phase1 : (phase1 j cfg b).run.Only (inner j.config) := by
  refine only_loadPages.bindExcept fun st => ?_
  exact (Prog.Only.adapt _ (only_tryCall (fun _ => rfl) _)).bindExcept fun _ => trivial

theorem only_phase2 : (phase2 c b triples).run.Only (inner c) := by
  have hcall := only_tryCall (P := inner c) fun _ => rfl
  unfold phase2
  dsimp only
  split
  · trivial
  · refine (hcall _).bindExcept fun _ => ?_
    refine Prog.Only.bindExcept (.lift (.perform rfl)) fun ok => ?_
    cases ok with
    | true => exact (hcall _).bindExcept fun _ => (hcall _).bindExcept fun _ => trivial
    | false => trivial

/-- The process has the lock, and unless it raises it has committed what it wrote. -/
def Done {α : Type} (c : ConfigId) (s : BuildState) (l : Notes) (r : Except BuildError α) :
    Prop :=
  Has c s l ∧ ∀ a, r = .ok a → l.dirty = false

variable {β : Type}

/-- The rest of a build, under its lock. -/
abbrev Finishes (c : ConfigId) (s : BuildState) (p : ExceptT BuildError Process α) (l : Notes) :
    Prop :=
  Obeys (free machine {}) OkBuild (Done c s) p.run l

/-- A step of a build, then the rest of it. -/
theorem obeys_then {p : ExceptT BuildError Process α} {f : α → ExceptT BuildError Process β}
    (hp : p.run.Only (inner c)) (h : Has c s l)
    (hf : ∀ l a, Has c s l → Finishes c s (f a) l) : Finishes c s (p >>= f) l := by
  refine obeys_bind_except (fun l _ => Has c s l) ?_ hf
  refine (obeys_inner h hp).mono (fun _ _ => id) fun l r hl => ?_
  cases r with
  | ok => exact hl
  | error => exact ⟨hl, nofun⟩

/-- A commit, then calls. -/
theorem obeys_commit_then {f : Unit → ExceptT BuildError Process β} (h : Has c s l)
    (hf : (f ()).run.Only fun o => ∃ k, o = .call c k) :
    Finishes c s (ExceptT.lift commit >>= f) l := by
  refine obeys_bind_except (fun l _ => Has c s l ∧ l.dirty = false) ?_ fun l _ hl => ?_
  · refine obeys_lift (obeys_perform ⟨h.ok (.inl trivial), nofun⟩ fun _ r _ => ?_)
    exact ⟨h.note (o := .commit) (.inl trivial) r, rfl⟩
  have hcalls : ∀ l o, (Has c s l ∧ l.dirty = false) → (∃ k, o = Op.call c k) → OkBuild l o ∧
      ∀ v r, Has c s (machine.record l v o r) ∧ (machine.record l v o r).dirty = false := by
    rintro l o hl ⟨k, rfl⟩
    exact ⟨⟨hl.1.ok (.inl rfl), nofun⟩,
      fun _ r => ⟨hl.1.note (o := .call c k) (.inl rfl) r, hl.2⟩⟩
  exact (hf.obeys hcalls hl).mono (fun _ _ => id) fun l r hl => ⟨hl.1, fun _ _ => hl.2⟩

theorem only_setState {u : StateUpdate} (h : u.state ≠ .running) :
    (ExceptT.lift (setState c u) : ExceptT BuildError Process Unit).run.Only (inner c) :=
  .lift (.perform ⟨rfl, h⟩)

theorem only_call (h : ∀ k, P (.call c k)) (k : Call) : (call c k).run.Only P :=
  .adapt _ (only_tryCall h k)

/-- A failed first phase. -/
theorem obeys_failPhase1 {error : String} (h : Has c s l) :
    Finishes c s (failPhase1 c b error) l := by
  refine obeys_then (only_setState nofun) h fun l _ hl => ?_
  refine obeys_then (only_call (fun _ => rfl) _) hl fun l _ hl => ?_
  refine obeys_then (only_call (fun _ => rfl) _) hl fun l _ hl => ?_
  exact obeys_commit_then hl trivial

theorem only_sweepPoints : (sweepPoints j b embedded).Only (inner j.config) := by
  unfold sweepPoints
  split
  · exact (only_tryCall (fun _ => rfl) _).bind fun _ => trivial
  · split
    · exact (only_tryCall (fun _ => rfl) _).bind fun _ => trivial
    · trivial

variable (h : Has j.config s l)

include h

theorem obeys_finishBuild : Finishes j.config s (finishBuild j b startedAt triples embedded) l := by
  refine obeys_then (only_setState nofun) h fun l _ hl => ?_
  refine obeys_then (.lift only_sweepPoints) hl fun l _ hl => ?_
  refine obeys_then (only_setState nofun) hl fun l _ hl => ?_
  refine obeys_commit_then hl ?_
  refine (only_call (fun k => ⟨k, rfl⟩) _).bindExcept fun _ => ?_
  exact (only_call (fun k => ⟨k, rfl⟩) _).bindExcept fun _ => trivial

theorem obeys_runPhase2 : Finishes j.config s (runPhase2 j b startedAt triples) l := by
  refine obeys_then (only_setState nofun) h fun l _ hl => ?_
  refine obeys_then (.lift (.perform trivial)) hl fun l _ hl => ?_
  refine obeys_then (.lift only_phase2) hl fun l r hl => ?_
  cases r with
  | error =>
    refine obeys_then (only_setState nofun) hl fun l _ hl => ?_
    exact obeys_commit_then hl trivial
  | ok embedded => exact obeys_finishBuild hl

theorem obeys_runStarted : Finishes j.config s (runStarted j cfg b startedAt) l := by
  have hfailed : ∀ l error (result : BuildResult), Has j.config s l →
      Finishes j.config s (failPhase1 j.config b error >>= fun _ => pure result) l := by
    intro l error result hl
    refine obeys_bind (obeys_failPhase1 hl) fun l r hr => ?_
    cases r with
    | ok => exact ⟨hr.1, fun _ _ => hr.2 () rfl⟩
    | error => exact ⟨hr.1, nofun⟩
  refine obeys_then (.lift only_takeSnapshot) h fun l r hl => ?_
  cases r with
  | error => exact hfailed l _ _ hl
  | ok =>
    refine obeys_then (.lift only_phase1) hl fun l r hl => ?_
    cases r with
    | ok triples => exact obeys_runPhase2 hl
    | error stop =>
      cases stop with
      | timedOut => exact ⟨hl, nofun⟩
      | raised => exact hfailed l _ _ hl

omit h in
/-- From the lock to its release. -/
theorem obeys_runLocked (h : Has j.config cfg.lastBuildState l) (hfresh : l.wrote = false) :
    Finishes j.config cfg.lastBuildState (runLocked j cfg b startedAt) l := by
  unfold runLocked
  cases hstart : cfg.lastBuildState.startable with
  | false => exact ⟨h, nofun⟩
  | true =>
    refine obeys_bind_except (fun l' _ => l' = l) ?_ ?_
    · exact obeys_lift (obeys_perform ⟨trivial, nofun⟩ fun _ _ _ => rfl)
    rintro _ project rfl
    split
    · refine obeys_then (.lift (Prog.Only.bind (.perform ⟨rfl, nofun⟩) fun _ => .perform trivial))
        h fun l _ hl => ?_
      exact ⟨hl, nofun⟩
    · refine obeys_bind_except (fun l _ => Has j.config cfg.lastBuildState l) ?_ fun l _ hl => ?_
      · refine obeys_lift (obeys_perform ⟨⟨_, h.1⟩, ?_⟩ fun _ _ _ => ⟨h.1, fun _ => rfl⟩)
        rintro c u ⟨⟩ -
        exact ⟨hfresh, _, h.1, hstart⟩
      · refine obeys_then (.lift (.perform trivial)) hl fun l _ hl => ?_
        exact obeys_runStarted hl

omit h in
/-- **Every build** keeps to the lock. -/
theorem obeys_build (j : Job) : Obeys (free machine {}) OkBuild (fun _ _ => True) (build j) {} := by
  have hrun : Obeys (free machine {}) OkBuild
      (fun l r => ∀ a, r = .ok a → l.dirty = false) (GraphRagBuilder.run j).run {} := by
    refine ⟨⟨trivial, nofun⟩, fun _ cfg _ => ?_⟩
    cases cfg with
    | none => exact nofun
    | some cfg =>
      refine ⟨⟨trivial, nofun⟩, fun _ startedAt _ => ?_⟩
      refine ⟨⟨⟨rfl, rfl, _, [], rfl⟩, nofun⟩, fun _ got _ => ?_⟩
      cases got with
      | false => exact nofun
      | true =>
        refine ⟨⟨trivial, nofun⟩, fun _ b _ => ?_⟩
        refine obeys_bind_except (fun l r => Done j.config cfg.lastBuildState l r) ?_
          fun l r hl => ?_
        · exact obeys_lift (obeys_runLocked ⟨rfl, nofun⟩ rfl)
        · refine ⟨⟨⟨_, hl.1.1⟩, nofun⟩, fun _ _ _ => ?_⟩
          exact hl.2
  refine obeys_bind hrun fun l r hl => ?_
  cases r with
  | error => exact ⟨⟨trivial, nofun⟩, fun _ _ _ => trivial⟩
  | ok result =>
    have hclean := hl result rfl
    refine ⟨⟨fun hdirty => ?_, nofun⟩, fun _ _ _ => ⟨⟨trivial, nofun⟩, fun _ _ _ => trivial⟩⟩
    simp [hclean] at hdirty

end Builds

/-! ### Cycles -/

section Cycles

theorem only_finalizeFailed {b : Option BuildId} {error : String} {state : BuildState} :
    (finalizeFailed c b error state).run.Only (innerCycle c) := by
  have hcall := only_tryCall (P := innerCycle c) fun _ => rfl
  refine Prog.Only.bindExcept (.lift (.perform rfl)) fun _ => ?_
  cases b with
  | none => exact hcall _
  | some => exact (hcall _).bindExcept fun _ => hcall _

/-- A rollback stays with its configuration. -/
theorem only_rollbackBuild : (rollbackBuild c cfg b).run.Only (innerCycle c) := by
  have hcall := only_tryCall (P := innerCycle c) fun _ => rfl
  refine (hcall _).bindExcept fun snapshot => ?_
  cases snapshot with
  | none => exact only_finalizeFailed
  | some =>
    refine Prog.Only.bindExcept (.lift ((hcall _).bindExcept fun _ => hcall _)) fun r => ?_
    cases r with
    | error => exact .lift (.perform rfl)
    | ok => exact only_finalizeFailed

variable {replaceOnRecovery : Bool}

theorem only_retry : (retry replaceOnRecovery c b).run.Only (innerCycle c) := by
  have hcall := only_tryCall (P := innerCycle c) fun _ => rfl
  refine Prog.Only.bindExcept ?_ fun _ => ?_
  · refine (hcall _).bindExcept fun rows => ?_
    split
    · trivial
    · exact (hcall _).bindExcept fun _ => (hcall _).bindExcept fun _ => hcall _
  · split
    · exact hcall _
    · trivial

theorem only_retries {n : ℕ} : (retries replaceOnRecovery c b n).Only (innerCycle c) := by
  induction n with
  | zero => trivial
  | succ n ih =>
    refine only_retry.bind fun r => ?_
    cases r with
    | ok => trivial
    | error => exact ih

/-- So does the recovery of a stuck build. -/
theorem only_reconcileOne : (reconcileOne replaceOnRecovery c cfg).run.Only (innerCycle c) := by
  have hcall := only_tryCall (P := innerCycle c) fun _ => rfl
  refine Prog.Only.bindExcept ?_ fun b => ?_
  · refine (hcall _).bindExcept fun b => ?_
    cases b with
    | some => trivial
    | none => exact hcall _
  cases b with
  | none => exact only_finalizeFailed
  | some b =>
    dsimp only
    split
    · exact only_rollbackBuild
    refine Prog.Only.bindExcept (.lift only_retries) fun recovered => ?_
    cases recovered with
    | false => exact only_rollbackBuild
    | true =>
      refine Prog.Only.bindExcept (.lift (.perform rfl)) fun _ => ?_
      refine Prog.Only.bindExcept (.lift (.perform rfl)) fun _ => ?_
      exact (hcall _).bindExcept fun _ => hcall _

/-- Between two entries of the list. -/
def Between (es : List (ConfigId × ConfigRow)) (l : Notes) : Prop :=
  l.held = none ∧ l.dirty = false ∧ l.seen.map Prod.fst = es.map Prod.fst ∧
    ∀ e ∈ l.seen, e.2.stuck = true

/-- One entry of the list, from its lock to the release. -/
theorem obeys_reconcileEntry {es : List (ConfigId × ConfigRow)} (h : Between ((c, cfg) :: es) l) :
    Obeys (free machine {}) OkCycle (fun l _ => Between es l)
      (reconcileEntry replaceOnRecovery c cfg) l := by
  obtain ⟨hheld, hclean, hseen, hstuck⟩ := h
  obtain ⟨⟨c', s⟩, rest, hl, hc, hrest⟩ := List.map_eq_cons_iff.mp hseen
  obtain rfl : c' = c := hc
  have hrest' : ∀ e ∈ rest, e.2.stuck = true :=
    fun e he => hstuck e (hl ▸ List.mem_cons_of_mem _ he)
  refine ⟨⟨⟨hheld, hclean, s, rest, hl⟩, ?_⟩, fun _ got _ => ?_⟩
  · rintro _ ⟨⟩
    exact ⟨s, rest, hl, hstuck _ (hl ▸ List.mem_cons_self)⟩
  cases got with
  | false =>
    refine ⟨hheld, hclean, ?_, fun e he => hrest' e ?_⟩
    · exact (congrArg (fun x => x.tail.map Prod.fst) hl).trans hrest
    · simpa [machine, note, hl] using he
  | true =>
    -- The rest of the list is not looked at until the lock is given back.
    let Has' : Notes → Prop := fun l => Has c' s l ∧ l.seen = rest
    have hkeep : ∀ l o, Has' l → innerCycle c' o →
        OkCycle l o ∧ ∀ _ : Unit, ∀ r, Has' (note l o r) := by
      intro l o hl ho
      refine ⟨⟨hl.1.ok (.inr ho), ?_⟩, fun _ r => ⟨hl.1.note (.inr ho) r, ?_⟩⟩
      · rintro _ rfl
        exact ho.elim
      · cases o with
        | setState _ _ | call _ _ | commit | rollback => exact hl.2
        | _ => exact ho.elim
    have hstart : Has' (note l (.acquire c') true) := by
      simp [Has', Has, note, hl, hclean]
    refine obeys_bind (p := (reconcileOne replaceOnRecovery c' cfg).run)
      (only_reconcileOne.obeys hkeep hstart) fun l r hl => ?_
    have hend : ∀ o : Op, (o = .commit ∨ o = .rollback) →
        Obeys (free machine {}) OkCycle (fun l _ => Between es l)
          (perform o >>= fun _ => perform (.release c')) l := by
      rintro o (rfl | rfl)
      · refine ⟨(hkeep l .commit hl trivial).1, fun _ r _ => ?_⟩
        refine ⟨⟨⟨s, hl.1.1⟩, nofun⟩, fun _ _ _ => ⟨rfl, rfl, ?_, ?_⟩⟩
        · exact (congrArg (List.map Prod.fst) hl.2).trans hrest
        · exact fun e he => hrest' e (hl.2 ▸ he)
      · refine ⟨(hkeep l .rollback hl trivial).1, fun _ r _ => ?_⟩
        refine ⟨⟨⟨s, hl.1.1⟩, nofun⟩, fun _ _ _ => ⟨rfl, rfl, ?_, ?_⟩⟩
        · exact (congrArg (List.map Prod.fst) hl.2).trans hrest
        · exact fun e he => hrest' e (hl.2 ▸ he)
    cases r with
    | ok => exact hend .commit (.inl rfl)
    | error => exact hend .rollback (.inr rfl)

theorem obeys_reconcileEntries {es : List (ConfigId × ConfigRow)} (h : Between es l) :
    Obeys (free machine {}) OkCycle (fun _ _ => True)
      (reconcileEntries replaceOnRecovery es) l := by
  induction es generalizing l with
  | nil => trivial
  | cons e es ih =>
    exact obeys_bind (obeys_reconcileEntry h) fun l _ hl => ih hl

/-- **Every cycle** keeps to the locks. -/
theorem obeys_reconcile :
    Obeys (free machine {}) OkCycle (fun _ _ => True) (reconcile replaceOnRecovery) {} := by
  refine ⟨⟨trivial, nofun⟩, fun _ compensating _ => ?_⟩
  refine ⟨⟨trivial, nofun⟩, fun _ committed _ => ?_⟩
  refine ⟨⟨trivial, nofun⟩, fun _ running _ => ?_⟩
  refine obeys_bind (p := reconcileEntries _ (compensating ++ committed ++ running))
    (obeys_reconcileEntries ⟨rfl, rfl, ?_, ?_⟩)
    fun l _ _ => ⟨⟨trivial, nofun⟩, fun _ _ _ => trivial⟩
  · simp [machine, note, Function.comp_def]
  · intro e he
    simp only [machine, note, List.nil_append, List.mem_append, List.mem_map] at he
    obtain (⟨_, _, rfl⟩ | ⟨_, _, rfl⟩) | ⟨_, _, rfl⟩ := he
    all_goals rfl

end Cycles

end Smap.Graph
