import Smap.Workflow.Operations

/-!
# What a continuation can rely on

A continuation sees the committed run row until it writes the row itself; from then on
it sees its own version, which nobody else can touch before it commits.  A row that has
been read goes on existing, and a terminal one stays.  `Link` states this about the notes
of a continuation, `Coherent` about the answers it gets, and the lemmas below say that its
own operations and those of all others keep it so.
-/

namespace Smap.Workflow

open RowVersions Versioned RunOp Option StepRow

/-- The run row a continuation may see: its own version if it has written one, and some
version if it has seen one before. -/
structure Sees (l : Local) (v : Option RunRow) : Prop where
  own : ∀ s, l.own = some s → v.map RunRow.state = some s
  seen : l.seen = true → v.isSome = true

/-- What every arrival at a join comes to. -/
structure JoinOutcome (outcome : StepOutcome) : Prop where
  state : outcome.state = .succeeded
  port : outcome.port = "default"
  park : outcome.park = false
  timeoutTask : outcome.timeoutTask = none

/-- What the answer of an operation says about the row `v` the continuation sees. -/
def Op.Coherent (l : Local) (v : Option RunRow) : (o : Op) → o.Res → Prop
  | .ctx o, r => r = o.answer l
  | .run .get, r => r = v
  | .run (.updateState target), changed => changed = v.any fun r => validTransition r.state target
  | .run (.updateVariables _), changed => changed = runActive v
  | .step (.insertIfRunActive ..), (id : Option ℕ) => id.isSome = runActive v
  | .redis (.joinArrive ..), (arrived : Except String StepOutcome) =>
    ∀ outcome, arrived = .ok outcome → JoinOutcome outcome
  | _, _ => True

/-- The notes of continuation `i` agree with the shared state. -/
structure Link (i : ℕ) (l : Local) (w : World) : Prop where
  own : l.own = (w.run.draftOf i).map RunRow.state
  seen : l.seen = true → (w.run.seenBy i).isSome = true
  dead : l.sawDead = true → l.seen = true →
    ∃ r, w.run.committed = some r ∧ r.state.isTerminal = true

namespace Link

variable {i j : ℕ} {l l' : Local} {w w' : World}

theorem sees (h : Link i l w) : Sees l (w.run.seenBy i) := by
  refine ⟨fun s hs => ?_, h.seen⟩
  rw [h.own] at hs
  obtain ⟨r, hr, rfl⟩ := map_eq_some_iff.mp hs
  rw [seenBy_of_draftOf hr]
  rfl

/-! ## Answers -/

theorem insertIfRunActive_isSome {nodeId : String} {input : JsonObject} {id : Option ℕ}
    {steps : List StepCell}
    (h : StepOp.act i w (.insertIfRunActive nodeId input) = some (id, steps)) :
    id.isSome = runActive (w.run.seenBy i) := by
  simp only [StepOp.act] at h
  split at h
  · rename_i hactive
    split at h
    · cases h
      simp [hactive]
    · cases h
  · rename_i hactive
    cases h
    simpa using hactive

variable {runId : String} {edges : List EdgeDef} {arrivedVia : Option String} {node : NodeSpec}
  {outcome : StepOutcome} {o : Op} {input : Input} {r : o.Res} {c : RunCell}

theorem joinOutcome_of_joinExecute {keys keys' : Redis.Store String}
    (h : joinExecute runId edges arrivedVia node keys = .ok (outcome, keys')) :
    JoinOutcome outcome := by
  simp only [joinExecute, bind, Except.bind] at h
  split at h
  · cases h
  split at h
  · cases h
  · split at h
    · obtain ⟨rfl, -⟩ := Prod.mk.inj (Except.ok.inj h)
      exact ⟨rfl, rfl, rfl, rfl⟩
    · obtain ⟨rfl, -⟩ := Prod.mk.inj (Except.ok.inj h)
      exact ⟨rfl, rfl, rfl, rfl⟩

theorem joinOutcome_of_act
    (h : (RedisOp.act runId w (.joinArrive edges arrivedVia node)).1 = .ok outcome) :
    JoinOutcome outcome := by
  simp only [RedisOp.act] at h
  split at h
  · rename_i joined keys hjoin
    obtain rfl := Except.ok.inj h
    exact joinOutcome_of_joinExecute hjoin
  · cases h

/-- **An operation answers coherently** with the row its continuation sees. -/
theorem coherent (h : o.act runId i input l w = some (r, w')) :
    o.Coherent l (w.run.seenBy i) r := by
  cases effect_of_act h with
  | ctx => exact rfl
  | run o r c hact =>
    cases o with
    | insert => trivial
    | get => exact (Prod.mk.inj (some.inj hact)).1.symm
    | updateState | updateVariables =>
      rw [act] at hact
      exact update_answer hact
  | step o r cs hact =>
    cases o with
    | insertIfRunActive => exact insertIfRunActive_isSome hact
    | update | sealOpen | cancelPendingForRun => trivial
  | redis o =>
    cases o with
    | joinArrive => exact fun _ h => joinOutcome_of_act h
    | _ => trivial
  | queue | audit | service | commit => trivial

/-! ## The others -/

/-- A statement on the run row moves it forward and leaves the drafts of others alone. -/
theorem runOp_act {c' : RunCell} {o : RunOp} {r : o.Res} (h : o.act j c = some (r, c')) :
    Evolves c c' ∧ ∀ i, j ≠ i → Untouched i c c' := by
  cases o with
  | insert =>
    obtain ⟨c₁, hc, ⟨⟩⟩ := map_eq_some_iff.mp h
    exact ⟨evolves_insert hc, fun _ hji => untouched_insert hji hc⟩
  | get =>
    cases h
    exact ⟨Evolves.refl _, fun _ _ => Untouched.refl _ _⟩
  | updateState | updateVariables =>
    rw [act] at h
    exact ⟨evolves_update h, fun _ hji => untouched_update hji h⟩

theorem act_run (h : o.act runId j input l w = some (r, w')) :
    Evolves w.run w'.run ∧ ∀ i, j ≠ i → Untouched i w.run w'.run := by
  have same : ∀ {w' : World}, w'.run = w.run →
      Evolves w.run w'.run ∧ ∀ i, j ≠ i → Untouched i w.run w'.run := by
    intro w' hw
    rw [hw]
    exact ⟨Evolves.refl _, fun _ _ => Untouched.refl _ _⟩
  cases effect_of_act h with
  | run o r c hact => exact runOp_act hact
  | commit => exact ⟨evolves_commit _ _, fun _ hji => untouched_commit hji⟩
  | ctx | step | service => exact same rfl
  | redis | queue | audit => exact same (by simp)

/-- **A terminal run is absorbing**: who has seen it over, sees it as it is for good. -/
theorem act_seenBy_of_terminal {row : RunRow} (h : o.act runId j input l w = some (r, w'))
    (hrow : w.run.seenBy i = some row) (hterm : row.state.isTerminal = true) :
    w'.run.seenBy i = some row := by
  have same : ∀ {w' : World}, w'.run = w.run → w'.run.seenBy i = some row := by
    intro w' hw
    rw [hw, hrow]
  cases effect_of_act h with
  | run o r c hact =>
    cases o with
    | insert =>
      obtain ⟨c₁, hc, -⟩ := map_eq_some_iff.mp hact
      exact (final_not_insert hrow hc).elim
    | get =>
      cases hact
      exact hrow
    | updateState | updateVariables =>
      rw [act] at hact
      exact final_seenBy_update hrow hterm hact
  | commit => exact final_seenBy_commit hrow hterm j
  | ctx | step | service => exact same rfl
  | redis | queue | audit => exact same (by simp)

variable (h : Link i l w)

include h

/-- What moves the row forward and leaves the draft of `i` alone keeps `i` linked. -/
theorem of_evolves (he : Evolves w.run w'.run) (hu : Untouched i w.run w'.run) : Link i l w' := by
  refine ⟨by rw [h.own, hu.1], fun hseen => ?_, fun hdead hseen => ?_⟩
  · cases hd : w.run.draftOf i with
    | some =>
      rw [seenBy_of_draftOf (hu.1.trans hd)]
      rfl
    | none =>
      have hs := h.seen hseen
      rw [seenBy_of_draftOf_eq_none hd] at hs
      obtain ⟨r, hr⟩ := isSome_iff_exists.mp hs
      obtain ⟨r', hr', -⟩ := he r hr
      rw [seenBy_of_draftOf_eq_none (hu.1.trans hd), hr']
      rfl
  · obtain ⟨r, hr, hterm⟩ := h.dead hdead hseen
    obtain ⟨r', hr', hsame⟩ := he r hr
    exact ⟨r', hr', by rw [hsame hterm]; exact hterm⟩

/-- **The others keep a continuation linked.** -/
theorem others (hji : j ≠ i) (hact : o.act runId j input l' w = some (r, w')) : Link i l w' :=
  h.of_evolves (act_run hact).1 ((act_run hact).2 i hji)

/-! ## The continuation itself -/

/-- Notes that do not concern the run row change nothing. -/
theorem congr (hrun : w'.run = w.run) (hown : l'.own = l.own) (hseen : l'.seen = l.seen)
    (hdead : l'.sawDead = l.sawDead) : Link i l' w' := by
  refine ⟨by rw [hown, hrun, h.own], ?_, ?_⟩
  · rw [hseen, hrun]
    exact h.seen
  · rw [hdead, hseen, hrun]
    exact h.dead

/-- A continuation without a draft of the row sees the committed version. -/
theorem seenBy_of_own_eq_none (hown : l.own = none) : w.run.seenBy i = w.run.committed := by
  have hdraft := h.own
  rw [hown] at hdraft
  exact seenBy_of_draftOf_eq_none (by simpa using hdraft.symm)

/-- A look at the row that finds it dead, while no draft is held, looks at the committed
version. -/
theorem dead_of_findsDead (hdead : l.findsDead (w.run.seenBy i) = true)
    (hsome : (w.run.seenBy i).isSome = true) :
    ∃ r, w.run.committed = some r ∧ r.state.isTerminal = true := by
  simp only [Local.findsDead, Bool.and_eq_true, isNone_iff_eq_none, Bool.not_eq_true'] at hdead
  rw [h.seenBy_of_own_eq_none hdead.1] at hdead hsome
  obtain ⟨r, hr⟩ := isSome_iff_exists.mp hsome
  refine ⟨r, hr, ?_⟩
  simpa [runActive, hr, RunState.isActive] using hdead.2

theorem own_runOp {o : RunOp} {r : o.Res} (hact : o.act i w.run = some (r, c)) :
    Link i (o.record l (w.run.seenBy i) r) { w with run := c } := by
  cases o with
  | insert =>
    obtain ⟨c₁, hc, ⟨⟩⟩ := map_eq_some_iff.mp hact
    have hd := draftOf_eq_some.mpr (insert_eq_some hc).2.2.2
    refine ⟨by simp [record, hd], fun _ => ?_, fun hdead => ?_⟩
    · simp [seenBy_of_draftOf hd]
    · simp [record] at hdead
  | get =>
    cases hact
    have hsome : (record l (w.run.seenBy i) .get (w.run.seenBy i)).seen = true →
        (w.run.seenBy i).isSome = true := by
      intro hseen
      simp only [record, Bool.or_eq_true] at hseen
      exact hseen.elim h.seen id
    exact ⟨h.own, hsome, fun hdead hseen => h.dead_of_findsDead hdead (hsome hseen)⟩
  | updateState =>
    rw [act] at hact
    obtain ⟨rfl, rfl, -⟩ | ⟨rfl, -, hcommitted, row, hs, -, hdraft⟩ :=
      update_eq_some hact
    · exact h.congr rfl (by simp [record]) rfl rfl
    · have hd := draftOf_eq_some.mpr hdraft
      refine ⟨by simp [record, hd], fun _ => by simp [seenBy_of_draftOf hd], ?_⟩
      intro hdead hseen
      obtain ⟨r, hr, hterm⟩ := h.dead hdead hseen
      exact ⟨r, hcommitted.trans hr, hterm⟩
  | updateVariables =>
    rw [act] at hact
    obtain ⟨rfl, rfl, -⟩ | ⟨rfl, -, hcommitted, row, hs, -, hdraft⟩ :=
      update_eq_some hact
    · refine ⟨by simpa [record] using h.own, h.seen, fun hdead hseen => ?_⟩
      exact h.dead_of_findsDead (by simpa [record] using hdead) (h.seen hseen)
    · have hd := draftOf_eq_some.mpr hdraft
      refine ⟨by simp [record, hd, hs], fun _ => by simp [seenBy_of_draftOf hd], ?_⟩
      intro hdead hseen
      obtain ⟨r, hr, hterm⟩ := h.dead (by simpa [record] using hdead) hseen
      exact ⟨r, hcommitted.trans hr, hterm⟩

theorem own_commit (v : Option RunRow) :
    Link i (Op.record l v .commit ())
      { w with run := w.run.commit i, steps := w.steps.map fun c => c.commit i } := by
  refine ⟨by simp [Op.record], fun hseen => ?_, fun hdead hseen => ?_⟩
  · rw [seenBy_of_draftOf_eq_none (draftOf_commit _ _), committed_commit]
    exact h.seen hseen
  · obtain ⟨r, hr, hterm⟩ := h.dead hdead hseen
    obtain ⟨r', hr', hsame⟩ := evolves_commit w.run i r hr
    exact ⟨r', hr', by rw [hsame hterm]; exact hterm⟩

/-- **A continuation keeps itself linked.** -/
theorem step (hact : o.act runId i input l w = some (r, w')) :
    Link i (o.record l (w.run.seenBy i) r) w' := by
  cases effect_of_act hact with
  | run o r c hrun => exact h.own_runOp hrun
  | commit => exact h.own_commit _
  | ctx o | step o => cases o <;> exact h.congr rfl rfl rfl rfl
  | redis o | queue o | audit o => cases o <;> exact h.congr (by simp) rfl rfl rfl
  | service => exact h.congr rfl rfl rfl rfl

end Link

/-! ## What becomes of a step row -/

/-- `state IN ('pending', 'running')`. -/
def StepRow.isLive (s : StepRow) : Bool := s.state == .pending || s.state == .running

/-- The step an operation has claimed. -/
def Op.claimed : (o : Op) → o.Res → Option ℕ
  | .step (.insertIfRunActive ..), (id : Option ℕ) => id
  | _, _ => none

/-- Where the row of step `id` comes from, after an operation of continuation `j`. -/
inductive CellStep (j : ℕ) (o : Op) (r : o.Res) (cs : List StepCell) (id : ℕ) (c' : StepCell) :
    Prop
  | same (hold : cs[id]? = some c') (hcommit : o ≠ .commit)
      (hsweep : o ≠ .step .cancelPendingForRun)
  | committed (c : StepCell) (hold : cs[id]? = some c) (ho : o = .commit) (hc' : c' = c.commit j)
  | inserted (s : StepRow) (hr : o.claimed r = some id) (hid : id = cs.length)
      (hc : c'.committed = none) (hd : c'.draft = some (j, s)) (hbegun : s.state = .running)
  | updated (c : StepCell) (hold : cs[id]? = some c) (outcome : StepOutcome)
      (ho : o = .step (.update id outcome)) (b : Bool)
      (h : c.update j (fun _ => true) (finish outcome) (fun _ _ => rfl) = some (b, c'))
  | sealed (c : StepCell) (hold : cs[id]? = some c) (nodeId : String) (state : StepState)
      (port : Option String) (ho : o = .step (.sealOpen nodeId state port)) (b : Bool)
      (h : c.update j (fun s => s.nodeId == nodeId && s.isOpen) (close state port)
        (fun _ _ => rfl) = some (b, c'))
  | swept (c : StepCell) (hold : cs[id]? = some c) (ho : o = .step .cancelPendingForRun) (b : Bool)
      (h : c.update j isLive (close .cancelled none) (fun _ _ => rfl) =
        some (b, c'))

section Cells

variable {i j id : ℕ} {cs : List StepCell} {c' : StepCell} {w w' : World} {runId : String} {o : Op}
  {input : Input} {l : Local} {r : o.Res}

theorem length_updateSteps {p : StepRow → Bool} {f : StepRow → StepRow} :
    ∀ {cs cs' : List StepCell}, updateSteps i p f cs = some cs' → cs'.length = cs.length
  | [], cs', h => by simp_all [updateSteps]
  | c :: rest, cs', h => by
    simp only [updateSteps] at h
    split at h
    · rename_i hc hrest
      simp [← some.inj h, length_updateSteps hrest]
    · cases h

/-- No step is ever removed. -/
theorem length_steps_le (h : o.act runId j input l w = some (r, w')) :
    w.steps.length ≤ w'.steps.length := by
  cases effect_of_act h with
  | step o r cs hact =>
    cases o with
    | insertIfRunActive =>
      simp only [StepOp.act] at hact
      split at hact
      · split at hact
        · cases hact
          simp
        · cases hact
      · cases hact
        exact le_refl _
    | update =>
      simp only [StepOp.act] at hact
      split at hact
      · cases hact
        exact le_refl _
      · obtain ⟨⟨b, c₁⟩, -, ⟨⟩⟩ := map_eq_some_iff.mp hact
        simp
    | sealOpen | cancelPendingForRun =>
      obtain ⟨steps, hsteps, ⟨⟩⟩ := map_eq_some_iff.mp hact
      simp [length_updateSteps hsteps]
  | _ => simp

theorem cellStep_of_stepOp {o : StepOp} {r : o.Res} (h : o.act j w = some (r, cs))
    (hc' : cs[id]? = some c') : CellStep j (.step o) r w.steps id c' := by
  cases o with
  | insertIfRunActive =>
    simp only [StepOp.act] at h
    split at h
    · split at h
      · rename_i c hinsert
        cases h
        by_cases hid : id < w.steps.length
        · rw [List.getElem?_append_left hid] at hc'
          exact .same hc' (by simp) (by simp)
        obtain rfl : id = w.steps.length := by
          have hlen := (List.getElem?_eq_some_iff.mp hc').1
          simp at hlen
          omega
        obtain rfl : c = c' := by simpa using hc'
        obtain ⟨-, -, hnone, hdraft⟩ := insert_eq_some hinsert
        exact .inserted _ rfl rfl hnone hdraft rfl
      · cases h
    · cases h
      exact .same hc' (by simp) (by simp)
  | update id' outcome =>
    simp only [StepOp.act] at h
    split at h
    · cases h
      exact .same hc' (by simp) (by simp)
    rename_i c hc
    obtain ⟨⟨b, c₁⟩, hupdate, ⟨⟩⟩ := map_eq_some_iff.mp h
    by_cases hid : id' = id
    · subst hid
      have hlt := (List.getElem?_eq_some_iff.mp hc).1
      obtain rfl : c₁ = c' := by simpa [hlt] using hc'
      exact .updated c hc outcome rfl b hupdate
    · rw [List.getElem?_set_ne hid] at hc'
      exact .same hc' (by simp) (by simp)
  | sealOpen nodeId state port =>
    obtain ⟨steps, hsteps, ⟨⟩⟩ := map_eq_some_iff.mp h
    obtain ⟨c, b, hc, hupdate⟩ := getElem?_updateSteps hsteps hc'
    exact .sealed c hc nodeId state port rfl b hupdate
  | cancelPendingForRun =>
    obtain ⟨steps, hsteps, ⟨⟩⟩ := map_eq_some_iff.mp h
    obtain ⟨c, b, hc, hupdate⟩ := getElem?_updateSteps hsteps hc'
    exact .swept c hc rfl b hupdate

/-- **What an operation can do to a step row.** -/
theorem cellStep_of_act (h : o.act runId j input l w = some (r, w'))
    (hc' : w'.steps[id]? = some c') : CellStep j o r w.steps id c' := by
  cases effect_of_act h with
  | step o r cs hact => exact cellStep_of_stepOp hact hc'
  | commit =>
    obtain ⟨c, hc, rfl⟩ : ∃ c, w.steps[id]? = some c ∧ c.commit j = c' := by
      simpa [List.getElem?_map, map_eq_some_iff] using hc'
    exact .committed c hc rfl rfl
  | run | ctx | service => exact .same hc' nofun nofun
  | redis | queue | audit => exact .same (by simpa using hc') nofun nofun

theorem isOpen_close (state : StepState) (port : Option String) (s : StepRow) :
    (s.close state port).isOpen = false := by
  simp [isOpen, close]

namespace CellStep

variable (h : CellStep j o r cs id c')

include h

/-- The others leave the draft of a continuation alone, and what is committed beneath it. -/
theorem untouched (hji : j ≠ i) :
    (∃ c, cs[id]? = some c ∧ Untouched i c c') ∨
      o.claimed r = some id ∧ id = cs.length ∧ c'.committed = none ∧ c'.draftOf i = none := by
  cases h <;>
    grind [Untouched.refl, untouched_commit, untouched_update, draftOf_eq_none_of_ne]

variable {s : StepRow}

/-- Before its commit nothing of a continuation is published. -/
theorem committed_eq (ho : o ≠ .commit) (hs : c'.committed = some s) :
    ∃ c, cs[id]? = some c ∧ c.committed = some s := by
  cases h <;> grind [committed_update]

end CellStep

/-- The operations of others leave the step drafts of a continuation alone. -/
theorem draftOf_of_act (hji : j ≠ i) (h : o.act runId j input l w = some (r, w'))
    (hc' : c' ∈ w'.steps) {s : StepRow} (hs : c'.draftOf i = some s) :
    ∃ c ∈ w.steps, c.draftOf i = some s := by
  obtain ⟨id, hid⟩ := List.getElem?_of_mem hc'
  obtain ⟨c, hc, huntouched⟩ | ⟨-, -, -, hnone⟩ := (cellStep_of_act h hid).untouched hji
  · exact ⟨c, List.mem_of_getElem? hc, huntouched.1 ▸ hs⟩
  · simp [hnone] at hs

end Cells

end Smap.Workflow
