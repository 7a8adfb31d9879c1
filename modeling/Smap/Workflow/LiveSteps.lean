import Smap.Workflow.Terminal
import Smap.Workflow.WaitClaims

/-!
# Live steps of a finished run

Whoever ends a run cancels its pending and running steps in the same transaction.  It sees
the committed steps and its own; a step that another transaction has claimed and not
committed it cannot see, and a step of its own that an outer call has yet to record is
written over afterwards, since `update_step` has no condition on the state.  Both happen
between the claim of a step and the write-back of its outcome: while every write-back of a
claimed step finds the run live, a terminal run has no live step.
-/

namespace Smap.Workflow

open Program RowVersions Versioned Pool List Option Books Local

/-- Continuation `i` has written to a step and not committed. -/
def draftsStep (i : ℕ) (w : World) : Bool := w.steps.any fun c => (c.draftOf i).isSome

/-- A transaction that has claimed a step writes the variables back while it sees the run
live. -/
def writesBackLive (m : RunMove) (p : RunPool) : Bool :=
  match m, nextOp m p with
  | .step i _, some (.run (.updateVariables _)) =>
    !draftsStep i p.world || runActive (p.world.run.seenBy i)
  | _, _ => true

variable {i j id : ℕ} {p : StepRow → Bool} {f : StepRow → StepRow} {w w' : World}
  {cs : List StepCell} {c' c : StepCell} {runId : String} {o : Op} {input : Input} {l : Local}
  {r : o.Res} {x y : Booked} {env : Services} {q q' : BookPool} {m : RunMove} {s : StepRow}

theorem isLive_close {state : StepState} (h : state ≠ .pending ∧ state ≠ .running)
    (port : Option String) (s : StepRow) : (s.close state port).isLive = false := by
  simp [StepRow.isLive, StepRow.close, h.1, h.2]

namespace CellStep

variable {i j : ℕ} {o : Op} {r : o.Res} {cs : List StepCell} {id : ℕ} {c' : StepCell}

theorem of_commit {r : Op.Res .commit} (h : CellStep j .commit r cs id c') :
    ∃ c, cs[id]? = some c ∧ c.commit j = c' := by
  cases h <;> simp_all [Op.claimed]

/-- Nothing else shows to the other continuations. -/
theorem seenBy_eq (h : CellStep j o r cs id c') (hji : j ≠ i) (ho : o ≠ .commit)
    (hs : c'.seenBy i = some s) : ∃ c, cs[id]? = some c ∧ c.seenBy i = some s := by
  obtain ⟨c, hc, huntouched⟩ | ⟨-, -, hnone, hdraft⟩ := h.untouched hji
  · refine ⟨c, hc, ?_⟩
    cases hd : c'.draftOf i with
    | some =>
      rw [seenBy_of_draftOf hd] at hs
      rw [seenBy_of_draftOf (huntouched.1 ▸ hd), hs]
    | none =>
      rw [seenBy_of_draftOf_eq_none hd] at hs
      obtain ⟨c₀, hc₀, hcommitted⟩ := h.committed_eq ho hs
      cases hc.symm.trans hc₀
      rw [seenBy_of_draftOf_eq_none (huntouched.1 ▸ hd), hcommitted]
  · simp [seenBy_of_draftOf_eq_none hdraft, hnone] at hs

end CellStep

/-! ## The steps of one continuation -/

/-- It holds the run row, and has not swept the run if it has ended it. -/
def Booked.unswept (x : Booked) : Prop :=
  x.1.own.isSome = true ∧ (x.1.ended = true → x.2.swept = false)

/-- The steps continuation `i` has drafted, against its history: a live one is still to be
recorded, or else a sweep is still to come; one that is still to be recorded is its own; and
once it has swept the run it has ended, it sees no live step but those.  It owes a step only
while it executes nodes. -/
structure StepBooks (i : ℕ) (x : Booked) (w : World) : Prop where
  active : x.2.owed ≠ [] → x.1.active = true
  drafts : ∀ id c s, w.steps[id]? = some c → c.draftOf i = some s → s.isLive = true →
    id ∈ x.2.owed ∨ x.unswept
  owed : ∀ id ∈ x.2.owed, ∃ c s, w.steps[id]? = some c ∧ c.draft = some (i, s) ∧
    c.committed = none
  swept : x.2.swept = true → x.1.ended = true → ∀ id c s, w.steps[id]? = some c →
    id ∉ x.2.owed → c.seenBy i = some s → s.isLive = false

open StepBooks

/-- A terminal run has no live step. -/
def Settled (w : World) : Prop :=
  ∀ row, w.run.committed = some row → row.state.isTerminal = true →
    ∀ (id : ℕ) (c : StepCell) (s : StepRow), w.steps[id]? = some c → c.committed = some s →
      s.isLive = false

/-- Whoever has ended the run holds its row alone. -/
theorem BookLink.holds_alone (hx : BookLink i x w) (hji : j ≠ i) (hy : BookLink j y w)
    (hended : x.1.ended = true) : y.1.own = none := by
  obtain ⟨state, hstate, -⟩ := (Option.any_eq_true ..).mp hended
  rw [hx.link.own] at hstate
  obtain ⟨row, hrow, -⟩ := map_eq_some_iff.mp hstate
  rw [hy.link.own, draftOf_eq_none_of_ne (draftOf_eq_some.mp hrow) hji.symm]
  rfl

namespace StepBooks

variable {i j : ℕ} {x y : Booked} {w w' : World}

/-- A continuation that owes a step has drafted it. -/
theorem draftsStep_of_owed (h : StepBooks i x w) (howed : x.2.owed ≠ []) :
    draftsStep i w = true := by
  obtain ⟨id, hid⟩ := exists_mem_of_ne_nil _ howed
  obtain ⟨c, s, hc, hd, -⟩ := h.owed id hid
  exact any_eq_true.mpr
    ⟨c, mem_of_getElem? hc, by simp [draftOf_eq_some.mpr hd]⟩

variable {runId : String} {o : Op} {input : Input} {r : o.Res} {l : Local} {id : ℕ}
  {c c' : StepCell} {b : Books} {v : Option RunRow} {s : StepRow}

/-- **The others keep it so.**  Whoever commits while `i` holds the run row publishes no
live step. -/
theorem others (hji : j ≠ i) (hx : BookLink i x w) (hy : BookLink j y w) (hok : Proper y o)
    (h : StepBooks i x w) (h' : StepBooks j y w) (hact : o.act runId j input y.1 w = some (r, w')) :
    StepBooks i x w' := by
  refine ⟨h.active, ?_, ?_, ?_⟩
  · intro id c' s hc' hs hlive
    obtain ⟨c, hc, huntouched⟩ | ⟨-, -, -, hnone⟩ := (cellStep_of_act hact hc').untouched hji
    · exact h.drafts id c s hc (huntouched.1 ▸ hs) hlive
    · simp [hnone] at hs
  · intro id hid
    obtain ⟨c, s, hc, hd, hcommitted⟩ := h.owed id hid
    have hlt := (List.getElem?_eq_some_iff.mp hc).1
    have hlt' := lt_of_lt_of_le hlt (length_steps_le hact)
    have hc' := getElem?_eq_getElem hlt'
    refine ⟨_, s, hc', ?_⟩
    obtain ⟨c₀, hc₀, huntouched⟩ | ⟨-, hnew, -, -⟩ := (cellStep_of_act hact hc').untouched hji
    · cases hc.symm.trans hc₀
      have hdi := draftOf_eq_some.mpr hd
      refine ⟨draftOf_eq_some.mp (huntouched.1.trans hdi), ?_⟩
      rw [huntouched.2 (by simp [hdi]), hcommitted]
    · omega
  · intro hswept hended id c' s hc' hid hs
    have hcell := cellStep_of_act hact hc'
    by_cases ho : o = .commit
    · subst ho
      obtain ⟨c, hc, rfl⟩ := hcell.of_commit
      cases hdj : c.draftOf j with
      | none =>
        rw [commit_of_draftOf_eq_none hdj] at hs
        exact h.swept hswept hended id c s hc hid hs
      | some s' =>
        -- what `j` publishes is not live: the run row is in the hand of `i`
        obtain ⟨hcommitted, hdraft⟩ := commit_of_draftOf hdj
        rw [seenBy_of_draft_eq_none hdraft i, hcommitted] at hs
        obtain rfl := some.inj hs
        cases hlive : s'.isLive with
        | false => rfl
        | true =>
          obtain hmem | ⟨hown, -⟩ := h'.drafts id c s' hc hdj hlive
          · simp [hok.1] at hmem
          · simp [hx.holds_alone hji hy hended] at hown
    · obtain ⟨c, hc, hseen⟩ := hcell.seenBy_eq hji ho hs
      exact h.swept hswept hended id c s hc hid hseen

/-- The row of a step that was there is still there. -/
theorem exists_after (hact : o.act runId j input l w = some (r, w')) (hc : w.steps[id]? = some c) :
    ∃ c', w'.steps[id]? = some c' := by
  have hlt := (List.getElem?_eq_some_iff.mp hc).1
  exact ⟨_, getElem?_eq_getElem (lt_of_lt_of_le hlt (length_steps_le hact))⟩

/-- The steps it owes after an operation: those it owed, and the one it has claimed. -/
theorem owed_note (h : id ∈ (b.note l v o r).owed) : o.claimed r = some id ∨ id ∈ b.owed := by
  fun_cases note b l v o r <;> simp_all [note, Op.claimed, mem_of_mem_tail]

theorem owed_of_claimed (h : o.claimed r = some id) : id ∈ (b.note l v o r).owed := by
  fun_cases Op.claimed o r <;> simp_all [note, Op.claimed]

/-- A claimed step is a new row, drafted. -/
theorem draft_of_claimed (hact : o.act runId i input l w = some (r, w'))
    (hr : o.claimed r = some id) : id = w.steps.length ∧
      ∃ c s, w'.steps[id]? = some c ∧ c.draft = some (i, s) ∧ c.committed = none := by
  cases effect_of_act hact with
  | step o r cs hstep =>
    cases o with
    | insertIfRunActive =>
      obtain rfl : r = some id := hr
      simp only [StepOp.act] at hstep
      split at hstep
      · split at hstep
        · rename_i c hinsert
          cases hstep
          obtain ⟨-, -, hnone, hdraft⟩ := insert_eq_some hinsert
          exact ⟨rfl, c, _, by simp, hdraft, hnone⟩
        · cases hstep
      · cases hstep
    | _ => cases hr
  | _ => cases hr

/-- While a continuation does not commit, what it has drafted stays drafted. -/
theorem draft_of_act (hact : o.act runId i input l w = some (r, w')) (ho : o ≠ .commit)
    (hc : w.steps[id]? = some c) (hd : c.draft = some (i, s)) :
    ∃ c' s', w'.steps[id]? = some c' ∧ c'.draft = some (i, s') ∧ c'.committed = c.committed := by
  obtain ⟨c', hc'⟩ := exists_after hact hc
  have hupdate {c₀ : StepCell} {b p f} (hc₀ : w.steps[id]? = some c₀)
      (h : c₀.update i p f (fun _ _ => rfl) = some (b, c')) :
      ∃ s', c'.draft = some (i, s') ∧ c'.committed = c.committed := by
    cases hc.symm.trans hc₀
    obtain ⟨-, rfl, -⟩ | ⟨-, -, hcommitted, row, -, -, hdraft⟩ := update_eq_some h
    · exact ⟨s, hd, rfl⟩
    · exact ⟨_, hdraft, hcommitted⟩
  suffices h : ∃ s', c'.draft = some (i, s') ∧ c'.committed = c.committed by
    exact ⟨c', h.choose, hc', h.choose_spec⟩
  cases cellStep_of_act hact hc' with
  | same => exact ⟨s, by grind⟩
  | committed c hold hcommit => exact absurd hcommit ho
  | inserted => grind
  | updated c hold outcome ho b h | sealed c hold nodeId state port ho b h | swept c hold ho b h =>
    exact hupdate hold h

/-- A write-back that finds the run live leaves a live run in its hand. -/
theorem unswept_of_written {vars : JsonObject} (h : runActive v = true) :
    (x.after v (.run (.updateVariables vars)) true).unswept := by
  obtain ⟨row, rfl, hactive⟩ := (Option.any_eq_true ..).mp h
  refine ⟨rfl, fun hended => ?_⟩
  have hterm : row.state.isTerminal = true := hended
  simp [RunState.isActive, hterm] at hactive

/-- Until the sweep there is a sweep to come: a run that is live by its hand has not been
swept, and the row is given up by a commit only. -/
theorem unswept_after (hx : BookLink i x w) (hcoherent : o.Coherent x.1 (w.run.seenBy i) r)
    (hok : Proper x o) (hcommit : o ≠ .commit) (hsweep : o ≠ .step .cancelPendingForRun)
    (h : x.unswept) : (x.after (w.run.seenBy i) o r).unswept := by
  cases o with
  | run o =>
    cases o with
    | insert row =>
      have hstate : row.state = .running := hok
      refine ⟨rfl, fun hended => ?_⟩
      simp [Op.record, RunOp.record, ended, hstate, RunState.isTerminal] at hended
    | get => exact h
    | updateState =>
      cases r with
      | false => exact h
      | true =>
        refine ⟨rfl, fun _ => ?_⟩
        have hactive := runActive_of_changed hcoherent.symm
        by_contra hswept
        rw [hx.runActive_eq_false (by simp_all [closed, note])] at hactive
        cases hactive
    | updateVariables =>
      cases r with
      | false => exact h
      | true => exact unswept_of_written hcoherent.symm
  | step o =>
    cases o with
    | cancelPendingForRun => exact absurd rfl hsweep
    | _ => exact h
  | ctx o | redis o | queue o | audit o | service o => cases o <;> exact h
  | commit => exact absurd rfl hcommit
  | diverge => exact h

/-- What is owed is owed until it is written back. -/
theorem drafted_after (hx : BookLink i x w) (hcoherent : o.Coherent x.1 (w.run.seenBy i) r)
    (hok : Proper x o) (hcommit : o ≠ .commit) (hsweep : o ≠ .step .cancelPendingForRun)
    (hlive : ∀ vars, o = .run (.updateVariables vars) → x.2.owed ≠ [] →
      runActive (w.run.seenBy i) = true)
    (h : id ∈ x.2.owed ∨ x.unswept) :
    id ∈ (x.after (w.run.seenBy i) o r).2.owed ∨ (x.after (w.run.seenBy i) o r).unswept := by
  obtain hid | h := h
  · cases o with
    | run o =>
      cases o with
      | updateVariables vars =>
        right
        have hactive := hlive vars rfl (ne_nil_of_mem hid)
        obtain rfl : r = true := hcoherent.trans hactive
        exact unswept_of_written hactive
      | _ => exact .inl hid
    | step o =>
      cases o with
      | insertIfRunActive => exact .inl (mem_append_right _ hid)
      | _ => exact .inl hid
    | audit e | service e => cases e <;> exact .inl hid
    | _ => exact .inl hid
  · exact .inr (unswept_after hx hcoherent hok hcommit hsweep h)

/-- After an update that writes no live version, `i` sees a live one only where it saw it
before, and where the update did not apply. -/
theorem of_closing {b : Bool}
    (h : c.update i p f (fun _ _ => rfl) = some (b, c')) (hclosed : ∀ s, (f s).isLive = false)
    (hs : c'.seenBy i = some s) (hlive : s.isLive = true) : c' = c ∧ p s = false := by
  obtain ⟨-, rfl, hno⟩ | ⟨-, -, -, row, -, -, hdraft⟩ := update_eq_some h
  · exact ⟨rfl, hno s hs⟩
  · rw [seenBy_of_draft hdraft] at hs
    cases hs
    simp [hclosed] at hlive

/-- A sweep leaves no live step in sight. -/
theorem isLive_of_swept (ho : o = .step .cancelPendingForRun)
    (h : CellStep i o r cs id c') (hs : c'.seenBy i = some s) : s.isLive = false := by
  cases h with
  | swept => grind [of_closing, isLive_close]
  | _ => simp_all [Op.claimed]

theorem swept_note (ho : o ≠ .step .cancelPendingForRun) : (b.note l v o r).swept = b.swept := by
  fun_cases note b l v o r <;> simp_all

theorem swept_note_of_swept (h : b.swept = true) (l : Local) (v : Option RunRow) (o : Op)
    (r : o.Res) : (b.note l v o r).swept = true := by
  by_cases ho : o = .step .cancelPendingForRun
  · subst ho
    simp [note, h]
  · rw [swept_note ho, h]

/-- A run that is over is not ended again. -/
theorem ended_of_after (hdead : runActive v = false) (hcoherent : o.Coherent x.1 v r)
    (hok : Proper x o) (hended : (x.after v o r).1.ended = true) :
    x.1.ended = true ∧ o ≠ .commit := by
  have hsame := Op.changesRun_eq_false hdead hcoherent
  cases o with
  | run o =>
    cases o with
    | insert row =>
      have hstate : row.state = .running := hok
      simp [Op.record, RunOp.record, ended, hstate, RunState.isTerminal] at hended
    | get => exact ⟨hended, by simp⟩
    | updateState | updateVariables =>
      obtain rfl : r = false := hsame
      exact ⟨hended, by simp⟩
  | commit => cases hended
  | service | diverge => exact ⟨hended, by simp⟩
  | _ o => cases o <;> exact ⟨hended, by simp⟩

/-- Of a run that is over no step is claimed, and no claimed one written back. -/
theorem owed_of_dead (hdead : runActive v = false) (hcoherent : o.Coherent x.1 v r)
    (hlive : ∀ vars, o = .run (.updateVariables vars) → x.2.owed ≠ [] → runActive v = true) :
    (x.after v o r).2.owed = x.2.owed ∧ o.claimed r = none := by
  have hsame := Op.changesRun_eq_false hdead hcoherent
  cases o with
  | run o =>
    cases o with
    | updateVariables vars =>
      refine ⟨?_, rfl⟩
      by_cases howed : x.2.owed = []
      · exact (congrArg tail howed).trans howed.symm
      · simp [hlive vars rfl howed] at hdead
    | _ => exact ⟨rfl, rfl⟩
  | step o =>
    cases o with
    | insertIfRunActive =>
      obtain rfl : r = none :=
        isNone_iff_eq_none.mp (isSome_eq_false_iff.mp hsame)
      exact ⟨rfl, rfl⟩
    | _ => exact ⟨rfl, rfl⟩
  | audit e | service e => cases e <;> exact ⟨rfl, rfl⟩
  | _ => exact ⟨rfl, rfl⟩

/-- It executes nodes until it commits. -/
theorem active_record (ho : o ≠ .commit) (v : Option RunRow) (r : o.Res) (h : l.active = true) :
    (o.record l v r).active = true := by
  by_cases htask : o.keepsTask = true
  · exact (keepsTask_record htask l v r).active h
  · cases o with
    | redis o | audit o => cases o <;> exact h
    | commit => exact absurd rfl ho
    | _ => exact absurd rfl htask

/-- **A continuation keeps its own steps in order**, if its write-backs find the run live. -/
theorem step (hx : BookLink i x w) (hok : Proper x o) (hallowed : Allowed x.1 o)
    (hlive : ∀ vars, o = .run (.updateVariables vars) → x.2.owed ≠ [] →
      runActive (w.run.seenBy i) = true)
    (h : StepBooks i x w) (hact : o.act runId i input x.1 w = some (r, w')) :
    StepBooks i (x.after (w.run.seenBy i) o r) w' := by
  have hcoherent := Link.coherent hact
  refine ⟨fun howed => ?_, ?_, ?_, ?_⟩
  · obtain ⟨id, hid⟩ := exists_mem_of_ne_nil _ howed
    by_cases ho : o = .commit
    · subst ho
      exact absurd hok.1 howed
    · obtain hr | hold := owed_note hid
      · exact active_record ho _ _ (active_of_claimed hallowed hr)
      · exact active_record ho _ _ (h.active (ne_nil_of_mem hold))
  · intro id c' s hc' hs hslive
    cases cellStep_of_act hact hc' with
    | same hold hcommit hsweep =>
      exact drafted_after hx hcoherent hok hcommit hsweep hlive (h.drafts id c' s hold hs hslive)
    | committed c hold ho hc' =>
      simp [hc', draftOf_commit] at hs
    | inserted s' hr => exact .inl (owed_of_claimed hr)
    | updated c hold outcome ho =>
      subst ho
      exact .inl (mem_of_mem_head? hok)
    | sealed c hold nodeId state port ho b hupdate =>
      subst ho
      obtain ⟨rfl, -⟩ := of_closing hupdate (isLive_close hok port) (seenBy_of_draftOf hs) hslive
      exact h.drafts id _ s hold hs hslive
    | swept c hold ho b hupdate =>
      obtain ⟨-, hno⟩ := of_closing hupdate (isLive_close (by decide) none)
        (seenBy_of_draftOf hs) hslive
      simp [hslive] at hno
  · intro id hid
    obtain hr | howed := owed_note hid
    · exact (draft_of_claimed hact hr).2
    by_cases ho : o = .commit
    · subst ho
      simp [hok.1] at howed
    · obtain ⟨c, s, hc, hd, hnone⟩ := h.owed id howed
      obtain ⟨c', s', hc', hd', hcommitted⟩ := draft_of_act hact ho hc hd
      exact ⟨c', s', hc', hd', hcommitted.trans hnone⟩
  · intro hswept hended id c' s hc' hid hs
    by_cases hsweep : o = .step .cancelPendingForRun
    · exact isLive_of_swept hsweep (cellStep_of_act hact hc') hs
    rw [swept_note hsweep] at hswept
    have hdead := hx.runActive_eq_false (by simp [closed, hswept])
    obtain ⟨hended, hcommit⟩ := ended_of_after hdead hcoherent hok hended
    obtain ⟨howed, hnone⟩ := owed_of_dead hdead hcoherent hlive
    rw [howed] at hid
    cases cellStep_of_act hact hc' with
    | same hold => exact h.swept hswept hended id c' s hold hid hs
    | committed c hold ho => exact absurd ho hcommit
    | inserted s' hr =>
      simp [hnone] at hr
    | updated c hold outcome ho =>
      subst ho
      exact absurd (mem_of_mem_head? hok) hid
    | sealed c hold nodeId state port ho b hupdate =>
      subst ho
      cases hlive : s.isLive with
      | false => rfl
      | true =>
        obtain ⟨rfl, -⟩ := of_closing hupdate (isLive_close hok port) hs hlive
        exact hlive ▸ h.swept hswept hended id _ s hold hid hs
    | swept c hold ho => exact absurd ho hsweep

theorem of_steps (h : StepBooks i x w) (hsteps : w'.steps = w.steps) : StepBooks i x w' := by
  exact ⟨h.active, hsteps ▸ h.drafts, hsteps ▸ h.owed, hsteps ▸ h.swept⟩

/-- Where nobody was before, nothing is drafted. -/
theorem fresh (h : StepBooks i (blank, empty) w) (howed : x.2.owed = [])
    (hswept : x.2.swept = false) : StepBooks i x w := by
  refine ⟨fun hne => absurd howed hne, ?_, ?_, ?_⟩
  · intro id c s hc hs hlive
    obtain hmem | ⟨hown, -⟩ := h.drafts id c s hc hs hlive
    · cases hmem
    · cases hown
  · simp [howed]
  · simp [hswept]

end StepBooks

/-! ## The steps of a run -/

/-- **A commit publishes no live step of a terminal run.**  Whoever publishes the terminal
state has swept the run; to whoever finds it published no live step is left. -/
theorem settled_commit (hy : BookLink j y w) (hok : Proper y .commit) (h : StepBooks j y w)
    (hs : Settled w) :
    Settled { w with run := w.run.commit j, steps := w.steps.map fun c => c.commit j } := by
  intro row hrow hterm id c' s hc' hs'
  obtain ⟨howed, hswept⟩ := hok
  have hid : id ∉ y.2.owed := by simp [howed]
  obtain ⟨c, hc, rfl⟩ : ∃ c, w.steps[id]? = some c ∧ c.commit j = c' := by
    simpa [getElem?_map, map_eq_some_iff] using hc'
  rw [committed_commit] at hrow hs'
  cases hown : y.1.own with
  | some state =>
    have hstate := hy.link.sees.own state hown
    have hended : y.1.ended = true := by
      obtain rfl : row.state = state := by simpa [hrow] using hstate
      simp [ended, hown, hterm]
    exact h.swept (hswept hended) hended id c s hc hid hs'
  | none =>
    rw [hy.link.seenBy_of_own_eq_none hown] at hrow
    cases hd : c.draftOf j with
    | none =>
      rw [seenBy_of_draftOf_eq_none hd] at hs'
      exact hs row hrow hterm id c s hc hs'
    | some s' =>
      rw [seenBy_of_draftOf hd] at hs'
      obtain rfl := some.inj hs'
      cases hlive : s'.isLive with
      | false => rfl
      | true =>
        obtain hmem | ⟨hsome, -⟩ := h.drafts id c s' hc hd hlive
        · exact absurd hmem hid
        · simp [hown] at hsome

theorem settled_act (hy : BookLink j y w) (hok : Proper y o) (h : StepBooks j y w) (hs : Settled w)
    (hact : o.act runId j input y.1 w = some (r, w')) : Settled w' := by
  by_cases ho : o = .commit
  · subst ho
    cases hact
    exact settled_commit hy hok h hs
  · intro row hrow hterm id c' s hc' hs'
    rw [(committed_of_act hact ho).1] at hrow
    obtain ⟨c, hc, hcommitted⟩ := (cellStep_of_act hact hc').committed_eq ho hs'
    exact hs row hrow hterm id c s hc hcommitted

/-- Every continuation has its steps in order, and a terminal run has no live one. -/
structure InOrder (env : Services) (q : BookPool) : Prop where
  sound : Sound env q.forget
  books : ∀ i, StepBooks i (q.locOf (blank, empty) i) q.world
  settled : Settled q.world

/-- A write-back of a step that is owed finds the run live. -/
theorem InOrder.writesBackLive {t : Task Op Op.Res Booked} {k : o.Res → Engine Unit}
    (h : InOrder env q) (hcond : Workflow.writesBackLive (.step i input) q.forget = true)
    (ht : q.tasks[i]? = some t) (hprog : t.prog = .op o k) :
    ∀ vars, o = .run (.updateVariables vars) → t.loc.2.owed ≠ [] →
      runActive (q.world.run.seenBy i) = true := by
  rintro vars rfl howed
  have hbooks := h.books i
  rw [locOf_of_getElem? ht] at hbooks
  have hforgot : q.forget.tasks[i]? = some t.forget := by simp [ht]
  have hnext : nextOp (.step i input) q.forget = _ := nextOp_of_prog hforgot hprog
  simpa [Workflow.writesBackLive, hnext, hbooks.draftsStep_of_owed howed] using hcond

theorem inOrder_step (hq : Conducted env q) (hinv : InOrder env q)
    (hcond : writesBackLive m q.forget = true) (h : step (bookMachine env) m q = some q') :
    InOrder env q' := by
  have hforget : step (machine env) m q.forget = some q'.forget := by
    rw [step_forget, h]
    rfl
  refine ⟨hinv.sound.step follows_started hforget, ?_, ?_⟩
  · refine locals_step h ?_ ?_ ?_ ?_ hinv.books
    · rintro i t o k input r w rfl ht hprog hbooks hact
      have hforgot : q.forget.tasks[i]? = some t.forget := by simp [ht]
      have hallowed := hinv.sound.ok_of_prog hforgot hprog
      exact hbooks.step (hq.link_of_getElem? ht) (hq.ok_of_prog ht hprog) hallowed
        (hinv.writesBackLive hcond ht hprog) hact
    · intro i j t o k input r w hji ht hprog hbooks hact
      have hbooks' := hinv.books j
      rw [locOf_of_getElem? ht] at hbooks'
      exact hbooks.others hji (hq.linked i) (hq.link_of_getElem? ht) (hq.ok_of_prog ht hprog)
        hbooks' hact
    · intro i e w new hbooks henv
      obtain ⟨new', henv', -⟩ := env_withHistory bookkeeping henv
      exact hbooks.of_steps (Outside.act_rows henv').2
    · intro i e w new hbooks henv t ht
      obtain ⟨new', henv', rfl⟩ := env_withHistory bookkeeping henv
      obtain ⟨t', -, rfl⟩ := mem_map.mp ht
      exact (hbooks.of_steps (Outside.act_rows henv').2).fresh rfl rfl
  · obtain ⟨i, input, t, o, k, r, w, ht, hprog, hact⟩ | ⟨e, w, new, henv⟩ := isStep_of_step h
    · have hbooks := hinv.books i
      rw [locOf_of_getElem? ht] at hbooks
      exact settled_act (hq.link_of_getElem? ht) (hq.ok_of_prog ht hprog) hbooks hinv.settled hact
    · obtain ⟨new', henv', -⟩ := env_withHistory bookkeeping henv
      obtain ⟨hrun, hsteps⟩ := Outside.act_rows henv'
      intro row hrow hterm id c s hc hs
      exact hinv.settled row (hrun ▸ hrow) hterm id c s (hsteps ▸ hc) hs

theorem inOrder_bookInitial (start : Start) : InOrder env (bookInitial env start) := by
  refine ⟨sound_initialPool start, fun i => ?_, by simp [Settled, bookInitial, World.initial]⟩
  have hblank : ∀ x : Booked, x.2.owed = [] → StepBooks i x (World.initial start.definition) :=
    fun x howed => ⟨fun h => absurd howed h, by simp [World.initial], by simp [howed],
      by simp [World.initial]⟩
  cases i with
  | zero | succ => exact hblank _ rfl

/-! ## Cancelled steps -/

/-- The move is a sweep that finds step `id` live, and cancels it. -/
def cancelsStep (id : ℕ) (m : RunMove) (p : RunPool) : Bool :=
  match m, nextOp m p with
  | .step i _, some (.step .cancelPendingForRun) =>
    p.world.steps[id]?.any fun c => (c.seenBy i).any StepRow.isLive
  | _, _ => false

/-- Step `id` is cancelled: committed so, or drafted so by the continuation that has ended
the run and owes the step no outcome. -/
inductive Cancelled (id : ℕ) (q : BookPool) : Prop
  | drafted (i : ℕ) (c : StepCell) (s : StepRow) (hc : q.world.steps[id]? = some c)
      (hd : c.draft = some (i, s)) (hs : s.state = .cancelled)
      (hended : (q.locOf (blank, empty) i).1.ended = true)
      (howed : id ∉ (q.locOf (blank, empty) i).2.owed)
  | committed (c : StepCell) (s : StepRow) (hc : q.world.steps[id]? = some c)
      (hd : c.draft = none) (hcommitted : c.committed = some s) (hs : s.state = .cancelled)

/-- Step `id` is still to be recorded, by a continuation that knows the run to be over. -/
def Doomed (id : ℕ) (q : BookPool) : Prop :=
  ∃ i, id ∈ (q.locOf (blank, empty) i).2.owed ∧
    (q.locOf (blank, empty) i).2.swept = true

/-- No statement on an open or live step touches a cancelled one. -/
theorem not_live_of_cancelled (hs : s.state = .cancelled) :
    s.isLive = false ∧ s.isOpen = false := by
  simp [StepRow.isLive, StepRow.isOpen, hs]

/-- Continuation `i` sees step `id` cancelled and does not owe it: it leaves the row alone
until it commits. -/
theorem cell_of_cancelled (hok : Proper x o) (howed : id ∉ x.2.owed) (hc : cs[id]? = some c)
    (hs : c.seenBy i = some s) (hstate : s.state = .cancelled) (h : CellStep i o r cs id c') :
    o ≠ .commit ∧ c' = c ∨ o = .commit ∧ c' = c.commit i := by
  obtain ⟨hlive, hopen⟩ := not_live_of_cancelled hstate
  have hno : ∀ {c₀ : StepCell} {b : Bool} {p : StepRow → Bool} {f : StepRow → StepRow},
      cs[id]? = some c₀ → c₀.update i p f (fun _ _ => rfl) = some (b, c') → p s = false →
      c' = c := by
    intro c₀ b p f hold h hp
    cases hc.symm.trans hold
    obtain ⟨-, rfl, -⟩ | ⟨-, -, -, s', hs', hp', -⟩ := update_eq_some h
    · rfl
    · cases hs.symm.trans hs'
      simp [hp] at hp'
  cases h with
  | same hold hcommit => exact .inl ⟨hcommit, some.inj (hold.symm.trans hc)⟩
  | committed c₀ hold ho hc' =>
    cases hc.symm.trans hold
    exact .inr ⟨ho, hc'⟩
  | inserted =>
    have hlt := (List.getElem?_eq_some_iff.mp hc).1
    omega
  | updated c₀ hold outcome ho =>
    subst ho
    exact absurd (mem_of_mem_head? hok) howed
  | sealed c₀ hold nodeId state port ho b h =>
    subst ho
    exact .inl ⟨nofun, hno hold h (by simp [hopen])⟩
  | swept c₀ hold ho b h =>
    subst ho
    exact .inl ⟨nofun, hno hold h hlive⟩

/-- A continuation that has ended the run holds its row, in that state, until it commits. -/
theorem ended_after (hx : BookLink i x w) (hended : x.1.ended = true) (hcommit : o ≠ .commit)
    (hact : o.act runId i input x.1 w = some (r, w')) :
    (x.after (w.run.seenBy i) o r).1.ended = true := by
  obtain ⟨row, hrow, hterm⟩ := BookLink.terminal_of_ended hx.link hended
  have hdead : runActive (w.run.seenBy i) = false := by
    simp [hrow, runActive, RunState.isActive, hterm]
  have hsame := Op.changesRun_eq_false hdead (Link.coherent hact)
  cases o with
  | run o =>
    cases o with
    | insert =>
      obtain ⟨⟨_, c⟩, hinsert, -⟩ := map_eq_some_iff.mp hact
      obtain ⟨c, hc, -⟩ := map_eq_some_iff.mp hinsert
      exact (final_not_insert hrow hc).elim
    | get => exact hended
    | updateState | updateVariables =>
      obtain rfl : r = false := hsame
      exact hended
  | commit => exact absurd rfl hcommit
  | ctx o | step o | redis o | queue o | audit o => cases o <;> exact hended
  | service | diverge => exact hended

section Stepped

variable (hstep : step (bookMachine env) m q = some q')

include hstep

variable (hq : Conducted env q)

include hq

/-- **A cancelled step stays cancelled.** -/
theorem cancelled_step (hinv : InOrder env q) (h : Cancelled id q) : Cancelled id q' := by
  obtain ⟨j, input, t, o, k, r, w, ht, hprog, hact⟩ | ⟨e, w, new, henv⟩ := isStep_of_step hstep
  · have hok := hq.ok_of_prog ht hprog
    have hlink := hq.link_of_getElem? ht
    have hbooks := hinv.books j
    rw [locOf_of_getElem? ht] at hbooks
    cases h with
    | drafted i c s hc hd hs hended howed =>
      obtain ⟨c', hc'⟩ := exists_after hact hc
      have hcell := cellStep_of_act hact hc'
      have hdraft := draftOf_eq_some.mpr hd
      by_cases hji : j = i
      · subst hji
        rw [locOf_of_getElem? ht] at hended howed
        obtain ⟨hcommit, rfl⟩ | ⟨-, rfl⟩ :=
          cell_of_cancelled hok howed hc (seenBy_of_draftOf hdraft) hs hcell
        · refine .drafted j _ s hc' hd hs ?_ ?_
          · rw [locOf_set_self ht]
            exact ended_after hlink hended hcommit hact
          rw [locOf_set_self ht]
          intro hmem
          obtain hr | hmem := owed_note hmem
          · have hlt := (List.getElem?_eq_some_iff.mp hc).1
            have hlen := (draft_of_claimed hact hr).1
            omega
          · exact howed hmem
        · obtain ⟨hcommitted, hnone⟩ := commit_of_draftOf hdraft
          exact .committed _ s hc' hnone hcommitted hs
      · obtain ⟨c₀, hc₀, huntouched⟩ | ⟨-, hnew, -, -⟩ := hcell.untouched hji
        · cases hc.symm.trans hc₀
          have hd' := draftOf_eq_some.mp (huntouched.1.trans hdraft)
          refine .drafted i c' s hc' hd' hs ?_ ?_
          · rw [locOf_set_of_ne q.world hji]
            exact hended
          · rw [locOf_set_of_ne q.world hji]
            exact howed
        · have hlt := (List.getElem?_eq_some_iff.mp hc).1
          omega
    | committed c s hc hd hcommitted hs =>
      obtain ⟨c', hc'⟩ := exists_after hact hc
      have hnone := draftOf_of_draft_eq_none hd j
      have howed : id ∉ t.loc.2.owed := by
        intro hmem
        obtain ⟨c₀, s₀, hc₀, hd₀, -⟩ := hbooks.owed id hmem
        cases hc.symm.trans hc₀
        simp [hd] at hd₀
      have hseen := (seenBy_of_draftOf_eq_none hnone).trans hcommitted
      obtain ⟨-, rfl⟩ | ⟨-, rfl⟩ :=
        cell_of_cancelled hok howed hc hseen hs (cellStep_of_act hact hc')
      · exact .committed _ s hc' hd hcommitted hs
      · rw [commit_of_draftOf_eq_none hnone] at hc'
        exact .committed c s hc' hd hcommitted hs
  · obtain ⟨new', henv', -⟩ := env_withHistory bookkeeping henv
    have hsteps := (Outside.act_rows henv').2
    cases h with
    | drafted i c s hc hd hs hended howed =>
      obtain hsame | ⟨hblank, -⟩ := locOf_append (blank, empty) q.world q.tasks
        (new.map fun t => (⟨t.1, t.2⟩ : Task Op Op.Res Booked)) i
      · exact .drafted i c s (hsteps ▸ hc) hd hs (by rw [hsame]; exact hended)
          (by rw [hsame]; exact howed)
      · rw [hblank] at hended
        cases hended
    | committed c s hc hd hcommitted hs =>
      exact .committed c s (hsteps ▸ hc) hd hcommitted hs

/-- A step that is not recorded before the sweep is not written back after it. -/
theorem doomed_step (hinv : InOrder env q) (hcond : writesBackLive m q.forget = true)
    (h : Doomed id q) : Doomed id q' := by
  obtain ⟨i, hdoomed⟩ := h
  refine ⟨i, local_step (P := fun x => id ∈ x.2.owed ∧ x.2.swept = true) hstep ?_
    (by simp [empty]) hdoomed⟩
  rintro t o k input r w rfl ht hprog ⟨hid, hswept⟩ hact
  have hdead := (hq.link_of_getElem? ht).runActive_eq_false (by simp [closed, hswept])
  have howed := (owed_of_dead hdead (Link.coherent hact) (hinv.writesBackLive hcond ht hprog)).1
  exact ⟨howed ▸ hid, swept_note_of_swept hswept ..⟩

omit hq in
omit hstep in
/-- A sweep drafts the cancellation of every step it sees live. -/
theorem draft_of_swept {r : Op.Res (.step .cancelPendingForRun)}
    (h : CellStep i (.step .cancelPendingForRun) r cs id c') (hc : cs[id]? = some c)
    (hs : c.seenBy i = some s) (hlive : s.isLive = true) :
    ∃ s', c'.draft = some (i, s') ∧ s'.state = .cancelled := by
  cases h with
  | same hold hcommit hsweep => exact absurd rfl hsweep
  | committed c hold ho | inserted s ho | updated c hold outcome ho
  | sealed c hold nodeId state port ho => cases ho
  | swept c₀ hold ho b h =>
    cases hc.symm.trans hold
    obtain ⟨-, -, hno⟩ | ⟨-, -, -, s₀, -, -, hd⟩ := update_eq_some h
    · simp [hno s hs] at hlive
    · exact ⟨_, hd, rfl⟩

/-- What a sweep cancels is cancelled, or still to be recorded. -/
theorem cancelled_of_cancelsStep (h : cancelsStep id m q.forget = true) :
    Cancelled id q' ∨ Doomed id q' := by
  obtain ⟨i, input, t, o, k, r, w, ht, hprog, hact⟩ | ⟨e, w, new, henv⟩ := isStep_of_step hstep
  · have hforgot : q.forget.tasks[i]? = some t.forget := by simp [ht]
    have hnext : nextOp (.step i input) q.forget = _ := nextOp_of_prog hforgot hprog
    simp only [cancelsStep, hnext] at h
    split at h
    · rename_i i' input' hmove ho
      obtain ⟨rfl, rfl⟩ := Move.step.inj hmove
      cases ho
      have hended : t.loc.1.ended = true := hq.ok_of_prog ht hprog
      simp only [Option.any_eq_true] at h
      obtain ⟨c, hc, s, hs, hlive⟩ := h
      have hact : Op.act env.runId i (.step .cancelPendingForRun) input t.loc.1 q.world =
        some (r, w) := hact
      obtain ⟨c', hc'⟩ := exists_after hact hc
      by_cases howed : id ∈ t.loc.2.owed
      · refine .inr ⟨i, ?_, ?_⟩
        · rw [locOf_set_self ht]
          exact howed
        · rw [locOf_set_self ht]
          exact (Bool.or_eq_true ..).mpr (.inr hended)
      · obtain ⟨s', hd', hs'⟩ := draft_of_swept (cellStep_of_act hact hc') hc hs hlive
        refine .inl (.drafted i c' s' hc' hd' hs' ?_ ?_)
        · rw [locOf_set_self ht]
          exact hended
        · rw [locOf_set_self ht]
          exact howed
    · cases h
  · cases h

end Stepped

/-- Step `id` is committed as cancelled. -/
def cancelledIn (id : ℕ) (w : World) : Bool :=
  w.steps[id]?.any fun c => c.committed.any fun s => s.state == .cancelled

/-- Once the run is terminal and nobody executes nodes, what has been cancelled is committed
so. -/
theorem cancelledIn_of_done (hq : Conducted env q) (hinv : InOrder env q) {row : RunRow}
    (hrow : q.world.run.committed = some row) (hterm : row.state.isTerminal = true)
    (hdone : ∀ t ∈ q.tasks, t.finished = true ∨ t.loc.1.active = false)
    (h : Cancelled id q ∨ Doomed id q) : cancelledIn id q.world = true := by
  obtain h | ⟨i, hid, -⟩ := h
  · cases h with
    | drafted i c s hc hd hs hended howed =>
      -- the run row would be drafted over a terminal version
      obtain ⟨state, hstate, -⟩ := (Option.any_eq_true ..).mp hended
      have hlink : BookLink i (q.locOf (blank, empty) i) q.world := hq.linked i
      rw [hlink.link.own] at hstate
      obtain ⟨row', hrow', -⟩ := map_eq_some_iff.mp hstate
      rw [draftOf_of_draft_eq_none (draft_eq_none_of_final hrow hterm)] at hrow'
      cases hrow'
    | committed c s hc hd hcommitted hs => simp [cancelledIn, hc, hcommitted, hs]
  · -- nobody owes a step any more
    have hne := ne_nil_of_mem hid
    cases ht : q.tasks[i]? with
    | none =>
      rw [locOf_of_length_le (getElem?_eq_none_iff.mp ht)] at hid
      cases hid
    | some t =>
      rw [locOf_of_getElem? ht] at hne
      obtain hfinished | hidle := hdone t (mem_of_getElem? ht)
      · exact absurd (hq.post_of_finished ht hfinished).1.owed hne
      · have hactive := (hinv.books i).active
        rw [locOf_of_getElem? ht] at hactive
        rw [hactive hne] at hidle
        cases hidle

/-- **Over a run, what is cancelled stays cancelled**, or is never recorded. -/
theorem cancelled_run (ms : List RunMove) : ∀ q q', Conducted env q → InOrder env q →
      AllSteps (machine env) (fun m p => writesBackLive m p = true) ms q.forget →
      run (bookMachine env) ms q = some q' →
      (∀ id, Cancelled id q ∨ Doomed id q → Cancelled id q' ∨ Doomed id q') ∧
        AllSteps (machine env) (fun m p => ∀ id, cancelsStep id m p = true →
          Cancelled id q' ∨ Doomed id q') ms q.forget := by
  induction ms with
  | nil =>
    intro q q' _ _ _ hrun
    cases hrun
    exact ⟨fun _ h => h, trivial⟩
  | cons m ms ih =>
    intro q q' hq hinv hall hrun
    simp only [run] at hrun
    split at hrun
    · cases hrun
    rename_i q₁ hq₁
    have hforget : step (machine env) m q.forget = some q₁.forget := by
      rw [step_forget, hq₁]
      rfl
    obtain ⟨hkept, hsweeps⟩ := ih q₁ q' (hq.step conducts_started hq₁)
      (inOrder_step hq hinv hall.1 hq₁) (hall.2 _ hforget) hrun
    refine ⟨fun id h => hkept id ?_, fun id h => hkept id ?_, fun p hp => ?_⟩
    · exact h.imp (fun h => cancelled_step hq₁ hq hinv h)
        (fun h => doomed_step hq₁ hq hinv hall.1 h)
    · exact cancelled_of_cancelsStep hq₁ hq h
    · cases hforget.symm.trans hp
      exact hsweeps

/-- **A terminal run has no live step**, in any run in which every write-back of a claimed
step finds the run live: once the run is terminal and no continuation executes nodes, no
step is `PENDING` or `RUNNING`, and every step that a sweep has cancelled is cancelled. -/
theorem terminal_run_has_no_live_step (env : Services) (start : Start) (ms : List RunMove)
    (p : RunPool) (row : RunRow) (hrun : run (machine env) ms (initialPool env start) = some p)
    (hlive : AllSteps (machine env) (fun m q => writesBackLive m q = true) ms
      (initialPool env start))
    (hrow : p.world.run.committed = some row) (hterm : row.state.isTerminal = true)
    (hdone : ∀ t ∈ p.tasks, t.finished = true ∨ t.loc.active = false) :
    (∀ c ∈ p.world.steps, ∀ s, c.committed = some s → s.isLive = false) ∧
    AllSteps (machine env)
      (fun m q => ∀ id, cancelsStep id m q = true → cancelledIn id p.world = true) ms
      (initialPool env start) := by
  obtain ⟨q, hq, rfl, hconducted, hinv⟩ := run_invariant_of_conducted (InOrder env)
    (fun m q q' hq hinv hcond h => inOrder_step hq hinv hcond h) (inOrder_bookInitial start)
    hlive hrun
  constructor
  · intro c hc s hs
    obtain ⟨id, hid⟩ := getElem?_of_mem hc
    exact hinv.settled row hrow hterm id c s hid hs
  · have hdone' : ∀ t ∈ q.tasks, t.finished = true ∨ t.loc.1.active = false :=
      fun t ht => hdone t.forget (mem_map_of_mem ht)
    have hsweeps := (cancelled_run ms _ _ (conducted_bookInitial start)
      (inOrder_bookInitial start) hlive hq).2
    refine hsweeps.mono fun m p h id hid => ?_
    exact cancelledIn_of_done hconducted hinv hrow hterm hdone' (h id hid)

/-- The timer branch claims its step; the run is cancelled, and the branch goes on. -/
def cancelledUnderClaim : List RunMove :=
  turns 0 32 ++ deliver 0 ++ turns 1 12 ++ [.env .cancelRun] ++ turns 2 6 ++ turns 1 4

/-- An agent whose failure leads to the end of the run. -/
def endAsFallback : Definition where
  entryNodeId := "t"
  nodes := [triggerNode, agentNode "a" [("on_error", .obj [("strategy", .str "fallback"),
    ("fallback_node_id", .str "e")])], endNode "e"]
  edges := [⟨"e1", "t", "a", none, none⟩, ⟨"e2", "a", "e", some "success", none⟩,
    ⟨"e3", "a", "e", some "failure", none⟩]

/-- The agent fails, and its fallback ends the run up to the sweep. -/
def endedInFallback : List RunMove := turns 0 21 ++ failedCall 0 ++ turns 0 11

/-- Both halves fail.  A step claimed before the run is cancelled is committed `RUNNING`
after it; and the sweep at the end of a fallback cancels the step of the failed agent, which
is then recorded as `SUCCEEDED`.  In both, everybody is done. -/
theorem live_step_in_terminal_run :
    (∃ p row, runManually endBesideTimer cancelledUnderClaim = some p ∧
      p.world.run.committed = some row ∧ row.state = .cancelled ∧
      (∀ t ∈ p.tasks, t.finished = true) ∧
      ∃ c ∈ p.world.steps, ∃ s, c.committed = some s ∧ s.isLive = true) ∧
    ∃ q p row, runManually endAsFallback endedInFallback = some q ∧
      cancelsStep 1 (.step 0 .none) q = true ∧
      run (machine plainServices) (turns 0 8) q = some p ∧
      p.world.run.committed = some row ∧ row.state = .succeeded ∧
      (∀ t ∈ p.tasks, t.finished = true) ∧ cancelledIn 1 p.world = false := by
  simp only [exists_and_left]
  decide +kernel

/-- The timer has parked and committed when the run is cancelled. -/
def cancelledAfterPark : List RunMove :=
  turns 0 32 ++ deliver 0 ++ turns 1 19 ++ [.env .cancelRun] ++ turns 2 6

/-- The parked step is cancelled with the run. -/
theorem parked_step_cancelled :
    ∃ p row, runManually endBesideTimer cancelledAfterPark = some p ∧
      p.world.run.committed = some row ∧ row.state = .cancelled ∧
      cancelledIn 2 p.world = true ∧
      ∀ c ∈ p.world.steps, ∀ s, c.committed = some s → s.isLive = false := by
  obtain ⟨p, hp, row, hrow, hstate, hdone, hcancelled⟩ :
      ∃ p ∈ runManually endBesideTimer cancelledAfterPark, ∃ row ∈ p.world.run.committed,
        row.state = .cancelled ∧ (∀ t ∈ p.tasks, t.finished = true) ∧
        cancelledIn 2 p.world = true := by
    decide +kernel
  have hsettled := (terminal_run_has_no_live_step plainServices
    ⟨endBesideTimer, "manual", [], false⟩ cancelledAfterPark p row hp
    (by decide +kernel) hrow (by rw [hstate]; rfl)
    (fun t ht => .inl (hdone t ht))).1
  exact ⟨p, row, hp, hrow, hstate, hcancelled, hsettled⟩

end Smap.Workflow
