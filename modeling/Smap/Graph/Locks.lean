import Smap.Graph.Conduct

/-!
# Builds and cycles that interleave

Any number of builds and of reconciler cycles, in any order.  Each of them changes a config only
while it holds its lock, but has read the row before it takes it: a build just before, a cycle
at its start, for all configs at once.  By the time the lock is theirs the row may be another
one.
-/

namespace Smap.Graph

open Smap.Program Smap.RowVersions Smap.RowVersions.Versioned Function Program Site World Option

/-! ## What locks give -/

/-- The committed state of a row. -/
def Site.storedState (s : Site) : Option BuildState := s.row.committed.map ConfigRow.lastBuildState

/-- Who has noted a lock has it, and only they commit.  `G` relates the state that a process has
read to the one that was stored when it took the lock. -/
structure Locked (G : ℕ → BuildState → Option BuildState → Prop) (N : ℕ → Notes) (w : World) :
    Prop where
  holds : ∀ i c s, (N i).held = some (c, s) → i ∉ w.dead → (w.site c).lock = some i
  unwritten : ∀ i c s, (N i).held = some (c, s) → i ∉ w.dead → (N i).wrote = false →
    (w.site c).storedState = (w.site c).lockedIn
  fresh : ∀ i c s, (N i).held = some (c, s) → i ∉ w.dead → G i s (w.site c).lockedIn
  drafts : ∀ i c r, (w.site c).row.draft = some (i, r) → (N i).dirty = true ∧
    ∀ c' s, (N i).held = some (c', s) → c' = c

variable {G : ℕ → BuildState → Option BuildState → Prop} {N : ℕ → Notes} {w w' : World} {i : ℕ}

namespace Locked

variable {l : Notes}

theorem start {procs : List Proc} (hw : w.Quiet) :
    Locked G ((Graph.start w procs).locOf {}) (Graph.start w procs).world := by
  have hN : (Graph.start w procs).locOf {} = fun _ => {} :=
    funext fun i => locOf_launch _ _ _ i
  rw [hN]
  refine ⟨nofun, nofun, nofun, fun i c r hd => ?_⟩
  simp [show (Graph.start w procs).world = w from rfl, hw.committed c] at hd

variable (h : Locked G N w) (hdead : w'.dead = w.dead)

include h hdead

/-- A step of process `i`, by what it leaves of the locks and the rows of others. -/
theorem update
    (hothers : ∀ j c, j ≠ i → (w.site c).lock = some j → (w'.site c).lock = some j ∧
      (w'.site c).lockedIn = (w.site c).lockedIn ∧
      (w'.site c).storedState = (w.site c).storedState)
    (hdrafts : ∀ j c r, j ≠ i → (w'.site c).row.draft = some (j, r) →
      (w.site c).row.draft = some (j, r))
    (hself : ∀ c s, l.held = some (c, s) → (w'.site c).lock = some i ∧
      (l.wrote = false → (w'.site c).storedState = (w'.site c).lockedIn) ∧
      G i s (w'.site c).lockedIn)
    (hown : ∀ c r, (w'.site c).row.draft = some (i, r) → l.dirty = true ∧
      ∀ c' s, l.held = some (c', s) → c' = c) : Locked G (Function.update N i l) w' where
  holds j c s := by
    refine update_elim (fun hj _ => (hself c s hj).1) fun j hij hj hlive => ?_
    exact (hothers j c hij (h.holds j c s hj (hdead ▸ hlive))).1
  unwritten j c s := by
    refine update_elim (fun hj _ => (hself c s hj).2.1) fun j hij hj hlive hwrote => ?_
    obtain ⟨-, hin, hstored⟩ := hothers j c hij (h.holds j c s hj (hdead ▸ hlive))
    rw [hin, hstored]
    exact h.unwritten j c s hj (hdead ▸ hlive) hwrote
  fresh j c s := by
    refine update_elim (fun hj _ => (hself c s hj).2.2) fun j hij hj hlive => ?_
    rw [(hothers j c hij (h.holds j c s hj (hdead ▸ hlive))).2.1]
    exact h.fresh j c s hj (hdead ▸ hlive)
  drafts j c r :=
    update_elim (hown c r) fun j hij hd => h.drafts j c r (hdrafts j c r hij hd)

variable
  (hsite : ∀ c, (w'.site c).lock = (w.site c).lock ∧
    (w'.site c).lockedIn = (w.site c).lockedIn ∧ (w'.site c).row = (w.site c).row)

include hsite

/-- A step that leaves locks and rows as they are. -/
theorem keep (hlive : i ∉ w.dead) (hheld : l.held = (N i).held) (hwrote : l.wrote = (N i).wrote)
    (hdirty : l.dirty = (N i).dirty) : Locked G (Function.update N i l) w' := by
  have hstored : ∀ c, (w'.site c).storedState = (w.site c).storedState := by
    intro c
    rw [storedState, (hsite c).2.2, storedState]
  refine h.update hdead (fun j c _ hj => ?_) (fun j c r _ hd => ?_) (fun c s hl => ?_)
    fun c r hd => ?_
  · exact ⟨(hsite c).1.trans hj, (hsite c).2.1, hstored c⟩
  · rwa [(hsite c).2.2] at hd
  · rw [hheld] at hl
    rw [(hsite c).1, (hsite c).2.1, hstored c, hwrote]
    exact ⟨h.holds i c s hl hlive, h.unwritten i c s hl hlive, h.fresh i c s hl hlive⟩
  · rw [(hsite c).2.2] at hd
    rw [hdirty, hheld]
    exact h.drafts i c r hd

/-- Nothing happens to locks and rows. -/
theorem congr : Locked G N w' := by
  constructor
  · intro i c s hi hlive
    rw [(hsite c).1]
    exact h.holds i c s hi (hdead ▸ hlive)
  · intro i c s hi hlive
    rw [(hsite c).2.1, storedState, (hsite c).2.2]
    exact h.unwritten i c s hi (hdead ▸ hlive)
  · intro i c s hi hlive
    rw [(hsite c).2.1]
    exact h.fresh i c s hi (hdead ▸ hlive)
  · intro i c r hd
    rw [(hsite c).2.2] at hd
    exact h.drafts i c r hd

end Locked

@[simp] theorem callAct_keeps (input : Input) (k : Call) (s : Site) :
    (callAct input k s).2.lock = s.lock ∧ (callAct input k s).2.lockedIn = s.lockedIn ∧
      (callAct input k s).2.row = s.row := by
  cases k <;> exact ⟨rfl, rfl, rfl⟩

/-- A draft of the process, and nothing else, comes with `set_state`. -/
theorem setState_cases {c : ConfigId} {u : StateUpdate} {input : Input}
    {r : Unit} (h : act i (.setState c u) input w = some (r, w')) :
    ∃ row, row.committed = (w.site c).row.committed ∧
      (∀ j r, row.draft = some (j, r) → j = i ∨ (w.site c).row.draft = some (j, r)) ∧
      w' = { w.setSite c { w.site c with row := row } with clock := w.clock + input.elapsed } := by
  simp only [act] at h
  split at h
  · cases h
  rename_i changed row hrow
  cases h
  refine ⟨row, ?_, ?_, rfl⟩
  · exact committed_update hrow
  obtain ⟨-, rfl, -⟩ | ⟨-, -, -, r', -, -, hdraft⟩ := update_eq_some hrow
  · exact fun j r hd => .inr hd
  · intro j r hd
    rw [hdraft] at hd
    cases hd
    exact .inl rfl

variable {c : ConfigId}

section Steps

variable {input : Input}

variable {r : Unit}

variable (h : Locked G N w)

include h

theorem Locked.release (hact : act i (.release c) input w = some (r, w')) :
    Locked G (Function.update N i (note (N i) (.release c) r)) w' := by
  cases hact
  have hsite : ∀ c', ((w.setSite c ((w.site c).releasedBy i)).site c').row = (w.site c').row ∧
      ∀ j, j ≠ i → (w.site c').lock = some j →
        (w.setSite c ((w.site c).releasedBy i)).site c' = w.site c' := by
    intro c'
    rw [site_setSite]
    by_cases hc : c' = c
    · subst hc
      rw [if_pos rfl, releasedBy]
      refine ⟨by split <;> rfl, fun j hij hj => if_neg fun hi => ?_⟩
      rw [hj] at hi
      exact hij (some.inj hi)
    · rw [if_neg hc]
      exact ⟨rfl, fun _ _ _ => rfl⟩
  refine h.update rfl (fun j c' hij hj => ?_) (fun j c' r _ hd => ?_) nofun fun c' r hd => ?_
  · rw [(hsite c').2 j hij hj]
    exact ⟨hj, rfl, rfl⟩
  · rwa [(hsite c').1] at hd
  · rw [(hsite c').1] at hd
    exact ⟨(h.drafts i c' r hd).1, nofun⟩

/-- A process that dies leaves the others their locks. -/
theorem Locked.die (i : ℕ) : Locked G N { w.without i with dead := i :: w.dead } := by
  have hlive : ∀ j, j ∉ i :: w.dead → j ≠ i ∧ j ∉ w.dead := by
    intro j hj
    exact ⟨fun hji => hj (hji ▸ List.mem_cons_self), fun hd => hj (List.mem_cons_of_mem i hd)⟩
  have hsite : ∀ c, ((w.without i).site c).lockedIn = (w.site c).lockedIn ∧
      ((w.without i).site c).storedState = (w.site c).storedState ∧
      ∀ j, j ≠ i → (w.site c).lock = some j → ((w.without i).site c).lock = some j := by
    intro c
    simp only [without, releasedBy, storedState, committed_rollback]
    refine ⟨by split <;> rfl, trivial, fun j hij hj => ?_⟩
    rw [if_neg fun hi => hij (some.inj (hj.symm.trans hi))]
    exact hj
  constructor
  · intro j c s hj hd
    obtain ⟨hji, hd⟩ := hlive j hd
    exact (hsite c).2.2 j hji (h.holds j c s hj hd)
  · intro j c s hj hd hwrote
    rw [(hsite c).1, (hsite c).2.1]
    exact h.unwritten j c s hj (hlive j hd).2 hwrote
  · intro j c s hj hd
    rw [(hsite c).1]
    exact h.fresh j c s hj (hlive j hd).2
  · intro j c r hd
    exact h.drafts j c r (draft_rollback.mp hd).1

theorem Locked.outside {e : Outside} {new : List (Notes × Process Unit)}
    (henv : machine.env e w = some (w', new)) : new = [] ∧ Locked G N w' := by
  cases e with
  | die i =>
    cases henv
    exact ⟨rfl, h.die i⟩
  | post =>
    simp only [machine, post, map_eq_some_iff] at henv
    obtain ⟨w'', hpost, henv⟩ := henv
    cases henv
    split at hpost
    · cases hpost
      refine ⟨rfl, h.congr rfl fun c' => ?_⟩
      rw [site_setSite]
      split
      · rename_i hc
        rw [hc]
        exact ⟨rfl, rfl, rfl⟩
      · exact ⟨rfl, rfl, rfl⟩
    · cases hpost

variable (hlive : i ∉ w.dead)

include hlive

/-- The lock is taken, or is another's. -/
theorem Locked.acquire {r : Bool} (hok : Ok (N i) (.acquire c))
    (hG : (w.site c).lock = none → ∀ s rest, (N i).seen = (c, s) :: rest →
      G i s (w.site c).storedState) (hact : act i (.acquire c) input w = some (r, w')) :
    Locked G (Function.update N i (note (N i) (.acquire c) r)) w' := by
  obtain ⟨-, hclean, s, rest, hseen⟩ := hok
  simp only [act] at hact
  split at hact
  · cases hact
    exact h.keep rfl (fun c' => ⟨rfl, rfl, rfl⟩) hlive rfl rfl rfl
  rename_i hlock
  rw [not_isSome_iff_eq_none] at hlock
  cases hact
  have hrow : ∀ c', ((w.setSite c { w.site c with
      lock := some i, lockedIn := (w.site c).row.committed.map ConfigRow.lastBuildState }).site
        c').row = (w.site c').row := by
    intro c'
    rw [site_setSite]
    split
    · rename_i hc
      rw [hc]
    · rfl
  refine h.update rfl (fun j c' hij hj => ?_) (fun j c' r _ hd => ?_) (fun c' s' hl => ?_)
    fun c' r hd => ?_
  · have hc : c' ≠ c := by
      rintro rfl
      simp [hlock] at hj
    rw [site_setSite, if_neg hc]
    exact ⟨hj, rfl, rfl⟩
  · rwa [hrow c'] at hd
  · simp only [note, hseen, List.head?_cons, some.injEq, Prod.mk.injEq] at hl
    obtain ⟨rfl, rfl⟩ := hl
    rw [site_setSite, if_pos rfl]
    exact ⟨rfl, fun _ => rfl, hG hlock s rest hseen⟩
  · -- Whoever takes a lock has nothing to commit.
    rw [hrow c'] at hd
    have hdirty := (h.drafts i c' r hd).1
    simp [hclean] at hdirty

/-- The state is written under the lock. -/
theorem Locked.setState {u : StateUpdate} (hok : Ok (N i) (.setState c u))
    (hact : act i (.setState c u) input w = some (r, w')) :
    Locked G (Function.update N i (note (N i) (.setState c u) r)) w' := by
  obtain ⟨s, hheld⟩ := hok
  obtain ⟨row, hcommitted, hdraft, rfl⟩ := setState_cases hact
  have hsite : ∀ c', ((w.setSite c { w.site c with row := row }).site c').lock =
        (w.site c').lock ∧
      ((w.setSite c { w.site c with row := row }).site c').lockedIn = (w.site c').lockedIn ∧
      ((w.setSite c { w.site c with row := row }).site c').storedState =
        (w.site c').storedState := by
    intro c'
    rw [site_setSite]
    split
    · rename_i hc
      rw [hc]
      exact ⟨rfl, rfl, congrArg (Option.map ConfigRow.lastBuildState) hcommitted⟩
    · exact ⟨rfl, rfl, rfl⟩
  have hdraft' : ∀ c' j r, ((w.setSite c { w.site c with row := row }).site c').row.draft =
      some (j, r) → (j = i ∧ c' = c) ∨ (w.site c').row.draft = some (j, r) := by
    intro c' j r hd
    rw [site_setSite] at hd
    split at hd
    · rename_i hc
      rw [hc]
      exact (hdraft j r hd).imp_left fun hj => ⟨hj, rfl⟩
    · exact .inr hd
  refine h.update rfl (fun j c' _ hj => ?_) (fun j c' r hij hd => ?_) (fun c' s' hl => ?_)
    fun c' r hd => ⟨rfl, fun c'' s'' hl => ?_⟩
  · exact ⟨(hsite c').1.trans hj, (hsite c').2⟩
  · exact (hdraft' c' j r hd).resolve_left fun hj => hij hj.1
  · obtain ⟨hlock, hin, -⟩ := hsite c'
    refine ⟨hlock.trans (h.holds i c' s' hl hlive), nofun, ?_⟩
    rw [show ({ w.setSite c { w.site c with row := row } with
      clock := w.clock + input.elapsed } : World).site c' =
        (w.setSite c { w.site c with row := row }).site c' from rfl, hin]
    exact h.fresh i c' s' hl hlive
  · rcases hdraft' c' i r hd with ⟨-, rfl⟩ | hd
    · rw [show (note (N i) (.setState c' u) ()).held = (N i).held from rfl, hheld] at hl
      exact (Prod.mk.inj (some.inj hl)).1.symm
    · exact (h.drafts i c' r hd).2 c'' s'' hl

/-- A commit changes the rows that the process has written, and those are under its lock. -/
theorem Locked.commit (hok : Ok (N i) .commit) (hact : act i .commit input w = some (r, w')) :
    Locked G (Function.update N i (note (N i) .commit r)) w' := by
  cases hact
  have hsame : ∀ c', (w.site c').lock ≠ some i ∨ (N i).wrote = false →
      (w.site c').row.commit i = (w.site c').row := by
    intro c' hc'
    refine commit_of_draftOf_eq_none (eq_none_iff_forall_ne_some.mpr fun r' hr' => ?_)
    have hd := h.drafts i c' r' (draftOf_eq_some.mp hr')
    obtain ⟨hwrote, hheld⟩ := hok hd.1
    obtain ⟨⟨c'', s⟩, hheld⟩ := isSome_iff_exists.mp hheld
    obtain rfl := hd.2 c'' s hheld
    rcases hc' with hc' | hc'
    · exact hc' (h.holds i c'' s hheld hlive)
    · simp [hwrote] at hc'
  refine h.update rfl (fun j c' hij hj => ?_) (fun j c' r _ hd => (draft_commit hd).1)
    (fun c' s' hl => ⟨h.holds i c' s' hl hlive, fun hwrote => ?_, h.fresh i c' s' hl hlive⟩)
    fun c' r hd => absurd rfl (draft_commit hd).2
  · refine ⟨hj, rfl, ?_⟩
    have hne : (w.site c').lock ≠ some i := by
      rw [hj]
      exact fun hji => hij (some.inj hji)
    simp only [World.commit, storedState, hsame c' (.inl hne)]
  · simp only [World.commit, storedState, hsame c' (.inr hwrote)]
    exact h.unwritten i c' s' hl hlive hwrote

theorem Locked.rollback {l : Notes} (hheld : l.held = (N i).held) (hwrote : l.wrote = (N i).wrote) :
    Locked G (Function.update N i l) (w.rollback i) := by
  have hstored : ∀ c, ((w.rollback i).site c).storedState = (w.site c).storedState := by
    intro c
    simp [World.rollback, storedState]
  refine h.update rfl (fun j c' _ hj => ⟨hj, rfl, hstored c'⟩)
    (fun j c' r _ hd => (draft_rollback.mp hd).1) (fun c' s' hl => ?_)
    fun c' r hd => absurd rfl (draft_rollback.mp hd).2
  rw [hheld] at hl
  refine ⟨h.holds i c' s' hl hlive, fun hl' => ?_, h.fresh i c' s' hl hlive⟩
  rw [hstored c']
  exact h.unwritten i c' s' hl hlive (hwrote ▸ hl')

/-- Every step keeps it, if a process that takes a lock finds what `G` asks for. -/
theorem Locked.step {o : Op} {r : Res o} (hok : Ok (N i) o)
    (hG : ∀ c, o = .acquire c → (w.site c).lock = none → ∀ s rest,
      (N i).seen = (c, s) :: rest → G i s (w.site c).storedState)
    (hact : act i o input w = some (r, w')) :
    Locked G (Function.update N i (note (N i) o r)) w' := by
  cases o with
  | get c =>
    cases hact
    refine h.keep rfl (fun _ => ⟨rfl, rfl, rfl⟩) hlive ?_ ?_ ?_
    all_goals cases (w.site c).row.seenBy i <;> rfl
  | listInState _ | now | uuid4 | refresh _ | builderGroupProject _ =>
    cases hact
    exact h.keep rfl (fun _ => ⟨rfl, rfl, rfl⟩) hlive rfl rfl rfl
  | acquire c => exact h.acquire hlive hok (hG c rfl) hact
  | release => exact h.release hact
  | setState => exact h.setState hlive hok hact
  | commit => exact h.commit hlive hok hact
  | rollback | close =>
    cases hact
    exact h.rollback hlive rfl rfl
  | call =>
    simp only [act] at hact
    split at hact
    · cases hact
      exact h.keep rfl (fun _ => ⟨rfl, rfl, rfl⟩) hlive rfl rfl rfl
    cases hact
    refine h.keep rfl (fun c' => ?_) hlive rfl rfl rfl
    rw [site_setSite]
    split
    · rename_i hc
      rw [hc]
      exact callAct_keeps _ _ _
    · exact ⟨rfl, rfl, rfl⟩

end Steps

/-! ## Runs -/

section Runs

variable {procs : List Proc}

/-- The obligations of a process in its place. -/
def okOf (procs : List Proc) (i : ℕ) (l : Notes) (o : Op) : Prop :=
  match procs[i]? with
  | some (.build _) => OkBuild l o
  | some (.reconcile _) => OkCycle l o
  | none => False

variable {o : Op}

theorem okOf_ok {l : Notes} (h : okOf procs i l o) : Ok l o := by
  unfold okOf at h
  split at h
  · exact h.1
  · exact h.1
  · cases h

theorem obeyed_start (w : World) (procs : List Proc) :
    Obeyed machine {} (okOf procs) (fun _ _ _ => True) (start w procs) := by
  refine obeyed_launch w fun i p hp => ?_
  rw [List.getElem?_map, map_eq_some_iff] at hp
  obtain ⟨proc, hproc, rfl⟩ := hp
  cases proc with
  | build j =>
    refine (obeys_build j).mono (fun l o h => ?_) fun _ _ => id
    simpa [okOf, hproc] using h
  | reconcile r =>
    refine obeys_reconcile.mono (fun l o h => ?_) fun _ _ => id
    simpa [okOf, hproc] using h

/-- The locks in every state of a run. -/
theorem locked_run {C : ℕ → Notes → Op → World → Prop} (hw : w.Quiet)
    (hG : ∀ i l c s rest w, okOf procs i l (.acquire c) → C i l (.acquire c) w →
      (w.site c).lock = none → l.seen = (c, s) :: rest → G i s (w.site c).storedState)
    {ms : List (Move Input Outside)} {p : Procs}
    (hall : AllSteps machine (atTasks C) ms (start w procs))
    (hrun : run machine ms (start w procs) = some p) :
    Obeyed machine {} (okOf procs) (fun _ _ _ => True) p ∧ Locked G (p.locOf {}) p.world := by
  refine tasks_invariant (R := Locked G) ?_ ?_ hall (obeyed_start w procs) (.start hw) hrun
  · intro N w i o input r w' hok hC hR hact
    simp only [machine] at hact
    split at hact
    · cases hact
    · rename_i hlive
      refine hR.step hlive (okOf_ok hok) ?_ hact
      rintro c rfl hlock s rest hseen
      exact hG i (N i) c s rest w hok hC hlock hseen
  · exact fun N w e w' new hR henv => hR.outside henv

/-- A build that takes the lock finds the row startable, if that is what it has read. -/
def stillStartable (procs : List Proc) (i : ℕ) (l : Notes) (o : Op) (w : World) : Prop :=
  ∀ j c s rest, procs[i]? = some (.build j) → o = .acquire c → l.seen = (c, s) :: rest →
    (w.site c).lock = none → s.startable = true →
    ∃ st, (w.site c).storedState = some st ∧ st.startable = true

/-- **No build starts over an unfinished one**, if all steps are `stillStartable`: the state that
is stored when a build writes `running` is one that a build may start from. -/
theorem running_over_startable (w : World) (hw : w.Quiet) (procs : List Proc)
    (ms : List (Move Input Outside)) (p p' : Procs)
    (hall : AllSteps machine (atTasks (stillStartable procs)) ms (start w procs))
    (hrun : run machine ms (start w procs) = some p) (i : ℕ) (j : Job)
    (hi : procs[i]? = some (.build j)) (t : Task Op Res Notes) (c : ConfigId) (u : StateUpdate)
    (k : Unit → Process Unit) (ht : p.tasks[i]? = some t) (hprog : t.prog = .op (.setState c u) k)
    (hu : u.state = .running) (input : Input) (hstep : step machine (.step i input) p = some p') :
    ∃ st, (p.world.site c).storedState = some st ∧ st.startable = true := by
  let G : ℕ → BuildState → Option BuildState → Prop := fun i s o =>
    (∃ j, procs[i]? = some (.build j)) → s.startable = true →
      ∃ st, o = some st ∧ st.startable = true
  have hG : ∀ i l c s rest w, okOf procs i l (.acquire c) →
      stillStartable procs i l (.acquire c) w → (w.site c).lock = none →
      l.seen = (c, s) :: rest → G i s (w.site c).storedState := by
    rintro i l c s rest w - hC hlock hseen ⟨j, hj⟩ hs
    exact hC j c s rest hj rfl hseen hlock hs
  obtain ⟨hobeyed, hlocked⟩ := locked_run hw hG hall hrun
  have hok := hobeyed i t ht
  rw [hprog] at hok
  have hok' := hok.1
  simp only [okOf, hi] at hok'
  obtain ⟨hwrote, s, hheld, hstartable⟩ := hok'.2 c u rfl hu
  have hloc : p.locOf {} i = t.loc := Pool.locOf_of_getElem? ht
  rw [← hloc] at hwrote hheld
  have hlive : i ∉ p.world.dead := by
    intro hdead
    simp [step, stepTask, ht, hprog, machine, hdead] at hstep
  rw [hlocked.unwritten i c s hheld hlive hwrote]
  exact hlocked.fresh i c s hheld hlive ⟨j, hi⟩ hstartable

/-! ### Schedules -/

/-- One config, at rest, with some messages. -/
def resting (messages : List Message) : World where
  configs := [0]
  site _ :=
    { row := ⟨some { projectId := 0, lastBuildState := .idle }, none, nofun⟩
      graph := .empty
      points := fun _ _ => none
      snapshots := []
      current := none
      lock := none
      messages := messages
      log := []
      lockedIn := none }
  clock := 0

theorem quiet_resting (messages : List Message) : (resting messages).Quiet :=
  ⟨fun _ => rfl, fun _ => rfl⟩

/-- Steps of one process. -/
def goes (i : ℕ) (inputs : List Input) : List (Move Input Outside) := inputs.map (.step i)

/-- Steps without anything to choose. -/
def proceed (n : ℕ) : List Input := List.replicate n {}

def hello : Message := { id := 0, role := "user", content := "hello", createdAt := 0 }

def fact : Triple := { subject := "a", relation := "r", object := "b", confidence := 1 }

/-- A build reads its config, takes the lock and writes `running`. -/
def starting (b : BuildId) : List Input :=
  proceed 3 ++ [{ buildId := b }, { groupProject := some 0 }] ++ proceed 2

/-- A build of one message, from its config to its release of the lock. -/
def succeeding (b : BuildId) : List Input :=
  starting b ++ proceed 4 ++ [{ triples := [fact] }] ++ proceed 17

/-- A build of one message the embedder of which raises. -/
def failingPhase2 (b : BuildId) : List Input :=
  starting b ++ proceed 4 ++ [{ triples := [fact] }] ++ proceed 4 ++
    [{ fault := some "embedder down" }] ++ proceed 5

/-- The state that a task is about to write. -/
def Task.writes (t : Task Op Res Notes) : Option (ConfigId × BuildState) :=
  match t.prog with
  | .op (.setState c u) _ => some (c, u.state)
  | _ => none

theorem Task.writes_eq_some {t : Task Op Res Notes} {st : BuildState}
    (h : Task.writes t = some (c, st)) : ∃ u k, t.prog = .op (.setState c u) k ∧ u.state = st := by
  unfold Task.writes at h
  split at h
  · rename_i c' u k hprog
    cases h
    exact ⟨u, k, hprog, rfl⟩
  · cases h

def oneBuild : List Proc := [.build { config := 0, pages := 1 }]

def twoBuilds : List Proc :=
  [.build { config := 0, pages := 1 }, .build { config := 0, pages := 1 }]

/-- The first build reads its config, the second takes the lock, succeeds and releases it, and the
first goes on. -/
def startsAfter : List (Move Input Outside) :=
  goes 0 (proceed 2) ++ goes 1 (succeeding 1) ++
    goes 0 [{}, { buildId := 2 }, { groupProject := some 0 }]

/-- A test for `stillStartable`. -/
def stillStartableB (_i : ℕ) (l : Notes) (o : Op) (w : World) : Bool :=
  match o, l.seen with
  | .acquire c, (_, s) :: _ =>
    !s.startable || (w.site c).lock.isSome || (w.site c).storedState.any BuildState.startable
  | _, _ => true

theorem stillStartable_of_stillStartableB (procs : List Proc) (i : ℕ) (l : Notes) (o : Op)
    (w : World) (h : stillStartableB i l o w = true) : stillStartable procs i l o w := by
  rintro j c s rest - rfl hseen hlock hs
  simpa [stillStartableB, hseen, hlock, hs, any_eq_true] using h

/-- The row is idle again when the first build takes the lock. -/
theorem running_over_finished :
    ∃ p p' t u k, run machine startsAfter (start (resting [hello]) twoBuilds) = some p ∧
      p.tasks[0]? = some t ∧ t.prog = .op (.setState 0 u) k ∧ u.state = .running ∧
      step machine (.step 0 {}) p = some p' ∧
      ∃ st, (p.world.site 0).storedState = some st ∧ st.startable = true := by
  have hcheck : checkSteps machine (checkTasks stillStartableB) startsAfter
      (start (resting [hello]) twoBuilds) = true := by decide +kernel
  have hall := allSteps_of_checkSteps
    (atTasks_of_checkTasks (stillStartable_of_stillStartableB twoBuilds)) _ _ hcheck
  obtain ⟨p, hp, ⟨t, ht, hwrites⟩, p', hp', -⟩ :
      ∃ p ∈ run machine startsAfter (start (resting [hello]) twoBuilds),
        (∃ t ∈ p.tasks[0]?, Task.writes t = some (0, .running)) ∧
        ∃ p' ∈ step machine (.step 0 {}) p, True := by
    decide +kernel
  obtain ⟨u, k, hprog, hu⟩ := Task.writes_eq_some hwrites
  exact ⟨p, p', t, u, k, hp, ht, hprog, hu, hp', running_over_startable _ (quiet_resting [hello])
    _ _ p p' hall hp 0 _ rfl t 0 u k ht hprog hu {} hp'⟩

/-- The first build reads its config, the second fails in phase 2, and the first goes on. -/
def startsOver : List (Move Input Outside) :=
  goes 0 (proceed 2) ++ goes 1 (failingPhase2 1) ++
    goes 0 [{}, { buildId := 2 }, { groupProject := some 0 }]

/-- **A build over an unfinished one**: it has read `idle`, and writes `running` over
`failed_compensating`. -/
theorem running_over_unfinished :
    ∃ p p' t u k, run machine startsOver (start (resting [hello]) twoBuilds) = some p ∧
      p.tasks[0]? = some t ∧ t.prog = .op (.setState 0 u) k ∧ u.state = .running ∧
      step machine (.step 0 {}) p = some p' ∧
      (p.world.site 0).storedState = some .failedCompensating := by
  obtain ⟨p, hp, ⟨t, ht, hwrites⟩, ⟨p', hp', -⟩, hstored⟩ :
      ∃ p ∈ run machine startsOver (start (resting [hello]) twoBuilds),
        (∃ t ∈ p.tasks[0]?, Task.writes t = some (0, .running)) ∧
        (∃ p' ∈ step machine (.step 0 {}) p, True) ∧
        (p.world.site 0).storedState = some .failedCompensating := by
    decide +kernel
  obtain ⟨u, k, hprog, hu⟩ := Task.writes_eq_some hwrites
  exact ⟨p, p', t, u, k, hp, ht, hprog, hu, hp', hstored⟩

/-! ### Cycles -/

/-- A cycle that takes the lock finds the row in the state it was listed in. -/
def asListed (procs : List Proc) (i : ℕ) (l : Notes) (o : Op) (w : World) : Prop :=
  ∀ r c s rest, procs[i]? = some (.reconcile r) → o = .acquire c → l.seen = (c, s) :: rest →
    (w.site c).lock = none → (w.site c).storedState = some s

/-- The row, the subgraph, the snapshots and the pointer are what they were. -/
def Site.sameStores (s s' : Site) : Prop :=
  s'.row.committed = s.row.committed ∧ s'.graph = s.graph ∧ s'.snapshots = s.snapshots ∧
    s'.current = s.current

theorem Site.sameStores.refl (s : Site) : s.sameStores s := ⟨rfl, rfl, rfl, rfl⟩

theorem Site.sameStores_releasedBy (s : Site) (i : ℕ) :
    s.sameStores (s.releasedBy i) ∧ (s.releasedBy i).points = s.points := by
  unfold releasedBy
  split
  · exact ⟨⟨rfl, rfl, rfl, rfl⟩, rfl⟩
  · exact ⟨.refl _, rfl⟩

theorem sameStores_setSite {c' : ConfigId} {s : Site}
    (hs : (w.site c').sameStores s ∧ s.points = (w.site c').points) :
    (w.site c).sameStores ((w.setSite c' s).site c) ∧
      ((w.setSite c' s).site c).points = (w.site c).points := by
  rw [site_setSite]
  split
  · rename_i hc
    exact hc ▸ hs
  · exact ⟨.refl _, rfl⟩

/-- What is stored for a config is changed by a commit or by a call. -/
theorem stores_of_act {input : Input} {r : Res o} (c : ConfigId)
    (hact : act i o input w = some (r, w')) :
    ((w.site c).sameStores (w'.site c) ∧ (w'.site c).points = (w.site c).points) ∨
      (o = .commit ∧ w' = w.commit i) ∨
      ∃ k, o = .call c k ∧ w'.site c = (callAct input k (w.site c)).2 := by
  cases o with
  | get _ | listInState _ | now | uuid4 | refresh _ | builderGroupProject _ =>
    cases hact
    exact .inl ⟨.refl _, rfl⟩
  | acquire c' =>
    simp only [act] at hact
    split at hact
    · cases hact
      exact .inl ⟨.refl _, rfl⟩
    · obtain ⟨-, rfl⟩ := Prod.mk.inj (some.inj hact)
      exact .inl (sameStores_setSite ⟨⟨rfl, rfl, rfl, rfl⟩, rfl⟩)
  | release c' =>
    cases hact
    exact .inl (sameStores_setSite ((w.site c').sameStores_releasedBy i))
  | setState c' =>
    obtain ⟨row, hcommitted, -, hw'⟩ := setState_cases hact
    have hsite : w'.site c = (w.setSite c' { w.site c' with row := row }).site c := by
      rw [hw']
    rw [hsite]
    exact .inl (sameStores_setSite ⟨⟨hcommitted, rfl, rfl, rfl⟩, rfl⟩)
  | commit =>
    cases hact
    exact .inr (.inl ⟨rfl, rfl⟩)
  | rollback | close =>
    cases hact
    refine .inl ⟨⟨?_, rfl, rfl, rfl⟩, rfl⟩
    simp only [World.rollback, committed_rollback]
  | call c' k =>
    simp only [act] at hact
    split at hact
    · cases hact
      exact .inl ⟨.refl _, rfl⟩
    cases hact
    by_cases hc : c = c'
    · subst hc
      exact .inr (.inr ⟨k, rfl, by rw [site_setSite, if_pos rfl]⟩)
    · rw [site_setSite, if_neg hc]
      exact .inl ⟨.refl _, rfl⟩

/-- What is changed is under the lock of who changes it. -/
theorem Locked.changed {input : Input} {r : Res o} (h : Locked G N w)
    (hok : Ok (N i) o) (hact : act i o input w = some (r, w'))
    (hchanged : ¬ (w.site c).sameStores (w'.site c)) : ∃ s, (N i).held = some (c, s) := by
  obtain hsame | ⟨rfl, rfl⟩ | ⟨k, rfl, -⟩ := stores_of_act c hact
  · exact absurd hsame.1 hchanged
  · cases hd : (w.site c).row.draftOf i with
    | none =>
      refine absurd ⟨?_, rfl, rfl, rfl⟩ hchanged
      simp only [World.commit, commit_of_draftOf_eq_none hd]
    | some r =>
      obtain ⟨hdirty, hheld⟩ := h.drafts i c r (draftOf_eq_some.mp hd)
      obtain ⟨⟨c', s⟩, hs⟩ := isSome_iff_exists.mp (hok hdirty).2
      obtain rfl := hheld c' s hs
      exact ⟨s, hs⟩
  · exact hok

/-- **The reconciler changes stuck builds only**, if all steps are `asListed`: when it changes the
committed row, the subgraph, the snapshots or the pointer of a config, it has the lock, and the
state stored when it took it was a stuck one. -/
theorem reconciler_changes_stuck (w : World) (hw : w.Quiet) (procs : List Proc)
    (ms : List (Move Input Outside)) (p p' : Procs)
    (hall : AllSteps machine (atTasks (asListed procs)) ms (start w procs))
    (hrun : run machine ms (start w procs) = some p) (i : ℕ) (r : Bool)
    (hi : procs[i]? = some (.reconcile r)) (input : Input)
    (hstep : step machine (.step i input) p = some p') (c : ConfigId)
    (hchanged : ¬ (p.world.site c).sameStores (p'.world.site c)) :
    (p.world.site c).lock = some i ∧
      ∃ st, (p.world.site c).lockedIn = some st ∧ st.stuck = true := by
  let G : ℕ → BuildState → Option BuildState → Prop := fun i s o =>
    (∃ r, procs[i]? = some (.reconcile r)) → o = some s ∧ s.stuck = true
  have hG : ∀ i l c s rest w, okOf procs i l (.acquire c) →
      asListed procs i l (.acquire c) w → (w.site c).lock = none →
      l.seen = (c, s) :: rest → G i s (w.site c).storedState := by
    rintro i l c s rest w hok hC hlock hseen ⟨r, hr⟩
    simp only [okOf, hr] at hok
    obtain ⟨s', rest', hseen', hstuck⟩ := hok.2 c rfl
    rw [hseen] at hseen'
    obtain ⟨-, rfl⟩ := Prod.mk.inj (List.cons.inj hseen').1
    exact ⟨hC r c s rest hr rfl hseen hlock, hstuck⟩
  obtain ⟨hobeyed, hlocked⟩ := locked_run hw hG hall hrun
  obtain ⟨_, _, t, o, k, answer, w', ht, hprog, hact⟩ | _ := isStep_of_step hstep
  have hok := hobeyed i t ht
  rw [hprog] at hok
  have hloc : p.locOf {} i = t.loc := Pool.locOf_of_getElem? ht
  simp only [machine] at hact
  split at hact
  · cases hact
  · rename_i hlive
    obtain ⟨s, hheld⟩ := hlocked.changed (hloc ▸ okOf_ok hok.1) hact hchanged
    obtain ⟨hin, hstuck⟩ := hlocked.fresh i c s hheld hlive ⟨r, hi⟩
    exact ⟨hlocked.holds i c s hheld hlive, s, hin, hstuck⟩

/-- A build, and a cycle that runs beside it. -/
def buildAndCycle : List Proc := [.build { config := 0, pages := 1 }, .reconcile false]

/-- A test for `asListed`. -/
def asListedB (_i : ℕ) (l : Notes) (o : Op) (w : World) : Bool :=
  match o, l.seen with
  | .acquire c, (_, s) :: _ => (w.site c).lock.isSome || (w.site c).storedState == some s
  | _, _ => true

/-- A test for `asListed` on a schedule of `buildAndCycle`, where the build is the first. -/
def asListedCycle (i : ℕ) (l : Notes) (o : Op) (w : World) : Bool := i == 0 || asListedB i l o w

theorem asListed_of_asListedCycle (i : ℕ) (l : Notes) (o : Op) (w : World)
    (h : asListedCycle i l o w = true) : asListed buildAndCycle i l o w := by
  rintro r c s rest hi rfl hseen hlock
  have hne : i ≠ 0 := by
    rintro rfl
    cases hi
  simpa [asListedCycle, asListedB, hne, hseen, hlock] using h

/-- The build fails in phase 2, and the cycle recovers it. -/
def recovering : List (Move Input Outside) := goes 0 (failingPhase2 1) ++ goes 1 (proceed 11)

theorem recovery_changes_stuck :
    ∃ p p', run machine recovering (start (resting [hello]) buildAndCycle) = some p ∧
      step machine (.step 1 {}) p = some p' ∧
      ¬ (p.world.site 0).sameStores (p'.world.site 0) ∧ (p.world.site 0).lock = some 1 ∧
      ∃ st, (p.world.site 0).lockedIn = some st ∧ st.stuck = true := by
  have hcheck : checkSteps machine (checkTasks asListedCycle) recovering
      (start (resting [hello]) buildAndCycle) = true := by decide +kernel
  have hall := allSteps_of_checkSteps (atTasks_of_checkTasks asListed_of_asListedCycle) _ _ hcheck
  obtain ⟨p, hp, p', hp', hlength⟩ :
      ∃ p ∈ run machine recovering (start (resting [hello]) buildAndCycle),
        ∃ p' ∈ step machine (.step 1 {}) p,
          (p'.world.site 0).snapshots.length ≠ (p.world.site 0).snapshots.length := by
    decide +kernel
  have hchanged : ¬ (p.world.site 0).sameStores (p'.world.site 0) :=
    fun h => hlength (congrArg List.length h.2.2.1)
  exact ⟨p, p', hp, hp', hchanged, reconciler_changes_stuck _ (quiet_resting [hello]) _ _ p p' hall
    hp 1 false rfl {} hp' 0 hchanged⟩

/-- The cycle lists the config while the build runs, and takes it up when the build is over. -/
def listedEarly : List (Move Input Outside) :=
  goes 0 (starting 1) ++ goes 1 (proceed 3) ++ goes 0 (proceed 15) ++ goes 1 (proceed 5)

/-- **A finished build is reconciled**: the config is idle when the cycle takes the lock, and
ends up as `recovery_unavailable`. -/
theorem finished_build_reconciled :
    ∃ p p', run machine listedEarly (start (resting []) buildAndCycle) = some p ∧
      step machine (.step 1 {}) p = some p' ∧
      (p.world.site 0).lock = some 1 ∧ (p.world.site 0).lockedIn = some .idle ∧
      (p.world.site 0).storedState = some .idle ∧
      (p'.world.site 0).storedState = some .recoveryUnavailable := by
  simp only [exists_and_left]
  decide +kernel

end Runs

end Smap.Graph
