import Smap.Workflow.Conduct
import Smap.Workflow.EndNode

/-!
# Terminal states

Once a transaction sees the run in `SUCCEEDED`, `FAILED` or `CANCELLED` it goes on seeing
the row as it is: its state and its variables never change again, and whatever the
transaction then asks for (a step, a write-back, a transition) is refused.  Of all the
transitions to a terminal state that the continuations of a run attempt, in any
interleaving, one succeeds, and the end of the run is announced once.
-/

namespace Smap.Workflow

open Program RowVersions Versioned AuditEvent

/-- A transition to a terminal state that returns `True`. -/
def Op.winsTerminal : (o : Op) → o.Res → Bool
  | .run (.updateState target), (changed : Bool) => target.isTerminal && changed
  | _, _ => false

/-- A step is inserted, the variables are written back or the state is changed. -/
def Op.changesRun : (o : Op) → o.Res → Bool
  | .run (.updateState _), (changed : Bool) => changed
  | .run (.updateVariables _), (changed : Bool) => changed
  | .step (.insertIfRunActive ..), (id : Option ℕ) => id.isSome
  | _, _ => false

def winsTerminal (env : Services) (m : RunMove) (p : RunPool) : Bool :=
  (answer (machine env) m p).any fun a => a.1.winsTerminal a.2

def changesRun (env : Services) (m : RunMove) (p : RunPool) : Bool :=
  (answer (machine env) m p).any fun a => a.1.changesRun a.2

/-- The move is made by continuation `i`. -/
def movedBy (i : ℕ) : RunMove → Bool
  | .step j _ => j == i
  | .env _ => false

/-- The audit row of a finished run. -/
def AuditEvent.finishes : AuditEvent → Bool
  | .runFinished .. => true
  | .runStarted | .resumed .. => false

/-! ## Absorbing -/

variable {env : Services} {i : ℕ} {row : RunRow} {m : RunMove} {p : RunPool} {l : Local} {o : Op}
  {r : o.Res} {x : Booked} {runId : String} {input : Input} {w w' : World} {q q' : BookPool}

/-- What continuation `i` sees of a terminal run, it sees for good. -/
theorem seenBy_step {p' : RunPool} (hrow : p.world.run.seenBy i = some row)
    (hterm : row.state.isTerminal = true) (h : step (machine env) m p = some p') :
    p'.world.run.seenBy i = some row := by
  obtain ⟨j, input, t, o, k, r, w, ht, hprog, hact⟩ | ⟨e, w, new, henv⟩ := isStep_of_step h
  · exact Link.act_seenBy_of_terminal hact hrow hterm
  · rw [(Outside.act_rows henv).1]
    exact hrow

theorem Op.changesRun_eq_false {v : Option RunRow} (hdead : runActive v = false)
    (h : o.Coherent l v r) : o.changesRun r = false := by
  cases o with
  | run o =>
    cases o with
    | updateState =>
      cases r with
      | false => rfl
      | true =>
        simp [runActive_of_changed h.symm] at hdead
    | updateVariables => exact h.trans hdead
    | _ => rfl
  | step o =>
    cases o with
    | insertIfRunActive => exact h.trans hdead
    | _ => rfl
  | _ => rfl

/-- To a continuation that sees a terminal run everything is refused. -/
theorem changesRun_eq_false (hrow : p.world.run.seenBy i = some row)
    (hterm : row.state.isTerminal = true) (hm : movedBy i m = true) :
    changesRun env m p = false := by
  have hdead : runActive (p.world.run.seenBy i) = false := by
    simp [hrow, runActive, RunState.isActive, hterm]
  cases m with
  | env => cases hm
  | step j input =>
    obtain rfl : j = i := by simpa [movedBy] using hm
    cases hans : answer (machine env) (.step j input) p with
    | none => simp [changesRun, hans]
    | some =>
      simp only [answer] at hans
      split at hans
      · cases hans
      rename_i t ht
      split at hans
      · cases hans
      · rename_i o k hprog
        obtain ⟨⟨r, w⟩, hact, rfl⟩ := Option.map_eq_some_iff.mp hans
        simp only [changesRun, answer_of_act ht hprog hact, Option.any_some]
        exact Op.changesRun_eq_false hdead (Link.coherent hact)

theorem absorbing (hterm : row.state.isTerminal = true) (ms : List RunMove) :
    ∀ p p', p.world.run.seenBy i = some row → run (machine env) ms p = some p' →
      p'.world.run.seenBy i = some row ∧
        AllSteps (machine env) (fun m q => movedBy i m = true → changesRun env m q = false)
          ms p := by
  induction ms with
  | nil =>
    intro p p' hrow hrun
    cases hrun
    exact ⟨hrow, trivial⟩
  | cons m ms ih =>
    intro p p' hrow hrun
    simp only [run] at hrun
    split at hrun
    · cases hrun
    · rename_i q hq
      obtain ⟨hlast, hall⟩ := ih q p' (seenBy_step hrow hterm hq) hrun
      refine ⟨hlast, changesRun_eq_false hrow hterm, fun q' hq' => ?_⟩
      cases hq.symm.trans hq'
      exact hall

/-! ## Won once -/

/-- One when the test passes. -/
abbrev one (b : Bool) : ℕ := if b then 1 else 0

/-- A statement on the run row makes it over exactly when it wins a terminal state. -/
theorem anyFinal_runOp {c c' : RunCell} {o : RunOp} {r : o.Res} (hok : Proper x (.run o))
    (h : o.act i c = some (r, c')) :
    one (Op.winsTerminal (.run o) r) + one c.anyFinal = one c'.anyFinal := by
  cases o with
  | insert row =>
    obtain ⟨c₁, hc, ⟨⟩⟩ := Option.map_eq_some_iff.mp h
    obtain ⟨hcommitted, hdraft, -, hdraft'⟩ := insert_eq_some hc
    have hstate : row.state = .running := hok
    rw [anyFinal_of_draft hdraft', anyFinal_of_draft_eq_none hdraft, hcommitted]
    simp [Op.winsTerminal, hstate, RunState.isTerminal]
  | get =>
    cases h
    simp [Op.winsTerminal]
  | updateState =>
    rw [RunOp.act] at h
    cases r with
    | true =>
      obtain ⟨hbefore, row, -, -, hafter⟩ := anyFinal_update h
      simp [Op.winsTerminal, hbefore, hafter]
    | false =>
      obtain ⟨-, rfl, -⟩ | ⟨htrue, -⟩ := update_eq_some h
      · simp [Op.winsTerminal]
      · cases htrue
  | updateVariables =>
    rw [RunOp.act] at h
    cases r with
    | true =>
      obtain ⟨hbefore, row, -, hactive, hafter⟩ := anyFinal_update h
      have hlive : row.state.isTerminal = false := by simpa [RunState.isActive] using hactive
      simp [Op.winsTerminal, hbefore, hafter, hlive]
    | false =>
      obtain ⟨-, rfl, -⟩ | ⟨htrue, -⟩ := update_eq_some h
      · simp [Op.winsTerminal]
      · cases htrue

theorem anyFinal_act (hok : Proper x o) (h : o.act runId i input x.1 w = some (r, w')) :
    one (o.winsTerminal r) + one w.run.anyFinal = one w'.run.anyFinal := by
  cases effect_of_act h with
  | run o r c hact => exact anyFinal_runOp hok hact
  | commit => simp [Op.winsTerminal, anyFinal_commit]
  | ctx | step | redis | queue | audit | service => simp [Op.winsTerminal]

/-- **Each won transition, and nothing else, makes the run over.** -/
theorem anyFinal_step (hq : Conducted env q) (h : step (bookMachine env) m q = some q') :
    one (winsTerminal env m q.forget) + one q.world.run.anyFinal = one q'.world.run.anyFinal := by
  obtain ⟨i, input, t, o, k, r, w, ht, hprog, hact⟩ | ⟨e, w, new, henv⟩ := isStep_of_step h
  · have hwins : winsTerminal env (.step i input) q.forget = o.winsTerminal r := by
      rw [winsTerminal, answer_of_act (t := t.forget) (by simp [ht]) hprog hact]
      rfl
    rw [hwins]
    exact anyFinal_act (hq.ok_of_prog ht hprog) hact
  · obtain ⟨new', henv, -⟩ := env_withHistory bookkeeping henv
    rw [(Outside.act_rows henv).1]
    simp [winsTerminal, answer]

theorem winsTerminal_count {start : Start} {ms : List RunMove}
    (hrun : run (bookMachine env) ms (bookInitial env start) = some q) :
    countSteps (machine env) (winsTerminal env) ms (initialPool env start) =
      one q.world.run.anyFinal := by
  rw [← forget_bookInitial, countSteps_forget bookkeeping]
  refine countSteps_add (Conducted env) (fun q => one q.world.run.anyFinal) ?_ ms
    (bookInitial env start) q (conducted_bookInitial start) hrun
  intro m q q' hq h
  exact ⟨hq.step conducts_started h, anyFinal_step hq h⟩

/-! ## Announced once -/

/-- The end of the run is announced at most once, by a continuation that remembers it. -/
structure AnnouncedOnce (q : BookPool) : Prop where
  once : q.world.audit.countP finishes ≤ 1
  remembered : q.world.audit.countP finishes = 1 →
    ∃ i, (q.locOf (Local.blank, Books.empty) i).2.announced = true

/-- An announcement is remembered. -/
theorem announced_note {b : Books} (h : b.announced = true) (l : Local) (v : Option RunRow)
    (o : Op) (r : o.Res) : (b.note l v o r).announced = true := by
  cases o with
  | run o | step o | service o => cases o <;> exact h
  | audit e =>
    cases e with
    | runFinished => simp [Books.note, h]
    | _ => exact h
  | _ => exact h

/-- No operation of a continuation saves the definition, and none but an audit row touches
the audit log. -/
theorem frame_of_act (h : o.act runId i input l w = some (r, w')) :
    w'.workflow = w.workflow ∧ w'.audit = match o with
      | .audit e => w.audit ++ [e]
      | _ => w.audit := by
  cases effect_of_act h with
  | redis o =>
    cases o with
    | joinArrive =>
      simp only [RedisOp.act]
      split <;> exact ⟨rfl, rfl⟩
    | _ => exact ⟨rfl, rfl⟩
  | queue o => cases o <;> exact ⟨rfl, rfl⟩
  | audit =>
    simp only [auditAct]
    split <;> exact ⟨rfl, rfl⟩
  | _ => exact ⟨rfl, rfl⟩

/-- Who announces the end holds the run row, so nobody else knows the run to be over. -/
theorem announces_first {j : ℕ} {y : Booked} (hx : BookLink i x w) (hended : x.1.ended = true)
    (hopen : x.2.announced = false) (hy : BookLink j y w) (hy' : y.2.announced = true)
    (hij : i = j → x = y) : False := by
  obtain ⟨s, hs, -⟩ := (Option.any_eq_true ..).mp hended
  rw [hx.link.own] at hs
  obtain ⟨row, hdraft, -⟩ := Option.map_eq_some_iff.mp hs
  have hdraft := draftOf_eq_some.mp hdraft
  by_cases heq : i = j
  · simp [hij heq, hy'] at hopen
  · obtain ⟨row', hrow', hterm⟩ := hy.closed (by simp [Books.closed, hy'])
    obtain hj | ⟨-, hnone⟩ := final_seenBy hrow' hterm
    · simp [draftOf_eq_none_of_ne hdraft heq] at hj
    · simp [hdraft] at hnone

theorem announcedOnce_step (hq : Conducted env q) (hinv : AnnouncedOnce q)
    (h : step (bookMachine env) m q = some q') : AnnouncedOnce q' := by
  -- whoever remembers the announcement goes on remembering it
  have hstill : ∀ j, (q.locOf (Local.blank, Books.empty) j).2.announced = true →
      (q'.locOf (Local.blank, Books.empty) j).2.announced = true := fun j =>
    local_step (P := fun x => x.2.announced = true) h
      (fun _ _ _ _ _ _ _ _ _ hP _ => announced_note hP ..) (by simp [Books.empty])
  have hkept : q'.world.audit.countP finishes =
      q.world.audit.countP finishes → AnnouncedOnce q' := by
    intro hsame
    refine ⟨hsame ▸ hinv.once, fun hone => ?_⟩
    obtain ⟨j, hj⟩ := hinv.remembered (hsame ▸ hone)
    exact ⟨j, hstill j hj⟩
  obtain ⟨i, input, t, o, k, r, w, ht, hprog, hact⟩ | ⟨e, w, new, henv⟩ := isStep_of_step h
  · have hok := hq.ok_of_prog ht hprog
    have haudit := (frame_of_act hact).2
    cases o with
    | audit e =>
      cases e with
      | runFinished =>
        have hnone : q.world.audit.countP finishes = 0 := by
          by_contra hne
          obtain ⟨j, hj⟩ := hinv.remembered (by have := hinv.once; omega)
          refine announces_first (hq.link_of_getElem? ht) hok.1 hok.2 (hq.linked j) hj ?_
          rintro rfl
          exact (Pool.locOf_of_getElem? ht).symm
        refine ⟨by simp [haudit, hnone, finishes], fun _ => ⟨i, ?_⟩⟩
        rw [Pool.locOf_set_self ht]
        exact (Bool.or_eq_true ..).mpr (.inr hok.1)
      | _ => exact hkept (by simp [haudit, finishes])
    | _ => exact hkept (by rw [haudit])
  · obtain ⟨new', henv', -⟩ := env_withHistory bookkeeping henv
    obtain ⟨d, deleted, queue, rfl⟩ := Outside.act_frame henv'
    exact hkept rfl

/-- **Terminal states are absorbing, and a run is finished once.**  In any run at most one
transition to a terminal state succeeds, and the end is announced at most once; and from
the moment a transaction sees the run in a terminal state (at once in the transaction that
ended it, and in every other from its commit on) exactly one has, the row it sees stays as
it is, and it neither inserts a step, nor writes variables, nor changes the state. -/
theorem terminal_run_is_absorbing (env : Services) (start : Start) (ms : List RunMove)
    (p : RunPool) (hrun : run (machine env) ms (initialPool env start) = some p) :
    countSteps (machine env) (winsTerminal env) ms (initialPool env start) ≤ 1 ∧
    p.world.audit.countP finishes ≤ 1 ∧
    ∀ i row, p.world.run.seenBy i = some row → row.state.isTerminal = true →
      countSteps (machine env) (winsTerminal env) ms (initialPool env start) = 1 ∧
      ∀ ms' p', run (machine env) ms' p = some p' →
        p'.world.run.seenBy i = some row ∧
        AllSteps (machine env) (fun m q => movedBy i m = true → changesRun env m q = false)
          ms' p := by
  obtain ⟨q, hq, rfl, -, hannounced⟩ := run_invariant_of_conducted AnnouncedOnce
    (fun m q q' hq hinv _ h => announcedOnce_step hq hinv h) ⟨Nat.zero_le 1, nofun⟩
    (allSteps_true _ ms _) hrun
  rw [winsTerminal_count hq]
  refine ⟨?_, hannounced.once, fun i row hrow hterm => ⟨?_, fun ms' p' => ?_⟩⟩
  · unfold one
    split <;> simp
  · have hfinal : q.world.run.anyFinal = true := anyFinal_of_seenBy hrow hterm
    simp [hfinal]
  · exact absorbing hterm ms' _ p' hrow

/-- One branch ends the run and commits, while the timer of the other is still queued. -/
def endedFirst : List RunMove := turns 0 32 ++ deliver 1 ++ turns 1 19

/-- The first end wins, and the branch beside it finds nothing left to do. -/
theorem ended_run_is_absorbing :
    ∃ p p' row, runManually endBesideTimer endedFirst = some p ∧
      p.world.run.seenBy 2 = some row ∧ row.state = .succeeded ∧
      run (machine plainServices) (deliver 0 ++ turns 2 3) p = some p' ∧
      p'.world.run.seenBy 2 = some row := by
  obtain ⟨p, hp, row, hrow, hstate, p', hp', -⟩ :
      ∃ p ∈ runManually endBesideTimer endedFirst, ∃ row ∈ p.world.run.seenBy 2,
        row.state = .succeeded ∧
        ∃ p' ∈ run (machine plainServices) (deliver 0 ++ turns 2 3) p, True := by
    decide +kernel
  obtain ⟨-, -, hseen⟩ := terminal_run_is_absorbing plainServices
    ⟨endBesideTimer, "manual", [], false⟩ endedFirst p hp
  have hlater := (hseen 2 row hrow (by rw [hstate]; rfl)).2 _ p' hp'
  exact ⟨p, p', row, hp, hrow, hstate, hp', hlater.1⟩

end Smap.Workflow
