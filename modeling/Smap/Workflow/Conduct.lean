import Mathlib.Algebra.Group.Action.Defs
import Mathlib.Algebra.Order.BigOperators.Group.List
import Mathlib.Algebra.Order.Ring.Nat
import Smap.Workflow.Protocol

/-!
# How a continuation conducts itself

The protocol says what a continuation promises to the others; this module follows its own
conduct, over a history that no program reads: the steps it has claimed and not yet written
back, whether it has swept the open steps of a run it ended, and whether it knows the run
to be over.  From it: a step is recorded by the call that claimed it, innermost first; a
transaction commits with every claimed step written back, and a terminal run only after
sweeping it; a node is entered only while the loop guard admits it, and a visit beyond the
guard ends the run.  The visits that are left bound the recursion, so it never runs out of
budget.
-/

namespace Smap.Workflow

open Program RowVersions Function List Local RunState Op Option

/-- The history of a continuation. -/
structure Books where
  /-- The definition it has read last. -/
  loaded : Option Definition
  /-- The steps it has claimed and not yet written back, innermost first. -/
  owed : List ℕ
  /-- It has cancelled the open steps of the run it has ended. -/
  swept : Bool
  /-- It has announced the end of the run. -/
  announced : Bool
  /-- It knows that the run is over: it has ended it, or asked for `FAILED` or `CANCELLED`. -/
  finished : Bool
  /-- The terminal state it has won. -/
  won : Option RunState

open Books

def Books.empty : Books where
  loaded := none
  owed := []
  swept := false
  announced := false
  finished := false
  won := none

/-- The continuation holds the run row, in a terminal state. -/
def Local.ended (l : Local) : Bool := l.own.any isTerminal

def Books.note (b : Books) (l : Local) (v : Option RunRow) : (o : Op) → o.Res → Books
  | .service (.getWorkflow _), (d : Option Definition) => { b with loaded := d }
  | .step (.insertIfRunActive ..), (id : Option ℕ) => { b with owed := id.toList ++ b.owed }
  | .step .cancelPendingForRun, _ => { b with swept := b.swept || l.ended }
  | .run (.updateVariables _), _ => { b with owed := b.owed.tail }
  | .run (.updateState target), (changed : Bool) =>
    { b with
      finished := b.finished ||
        (target.isTerminal && (changed || (target != .succeeded && v.isSome)))
      won := if target.isTerminal && changed then some target else b.won }
  | .audit (.runFinished ..), _ => { b with announced := b.announced || l.ended }
  | _, _ => b

def bookkeeping : History Op Op.Res Local (Option RunRow) Books where
  empty := empty
  note := Books.note

/-- The private record of a continuation, with its history. -/
abbrev Booked := Local × Books

/-- The run is over, as far as the books can tell. -/
def Books.closed (b : Books) : Bool := b.finished || b.swept || b.announced

/-- The history agrees with the run row: what it takes to be over is over. -/
structure BookLink (i : ℕ) (x : Booked) (w : World) : Prop where
  link : Link i x.1 w
  closed : x.2.closed = true →
    ∃ row, w.run.seenBy i = some row ∧ row.state.isTerminal = true
  won : ∀ s, x.2.won = some s → s.isTerminal = true ∧ x.2.finished = true ∧
    (w.run.seenBy i).map RunRow.state = some s

namespace BookLink

variable {i j : ℕ} {x x' : Booked} {w w' : World}

theorem runActive_eq_false (h : BookLink i x w) (hclosed : x.2.closed = true) :
    runActive (w.run.seenBy i) = false := by
  obtain ⟨row, hrow, hterm⟩ := h.closed hclosed
  simp [hrow, runActive, isActive, hterm]

/-- The continuation sees a run that is over. -/
abbrev SeesOver (i : ℕ) (c : RunCell) : Prop :=
  ∃ row, c.seenBy i = some row ∧ row.state.isTerminal = true

variable {runId : String} {o : Op} {input : Input} {l : Local} {r : o.Res} {s : RunState}

theorem SeesOver.act (h : SeesOver i w.run) (hact : o.act runId j input l w = some (r, w')) :
    SeesOver i w'.run := by
  obtain ⟨row, hrow, hterm⟩ := h
  exact ⟨row, Link.act_seenBy_of_terminal hact hrow hterm, hterm⟩

/-- A terminal state that has been seen stays. -/
theorem state_of_act (hact : o.act runId j input l w = some (r, w')) (hterm : s.isTerminal = true)
    (hs : (w.run.seenBy i).map RunRow.state = some s) :
    (w'.run.seenBy i).map RunRow.state = some s := by
  obtain ⟨row, hrow, rfl⟩ := map_eq_some_iff.mp hs
  rw [Link.act_seenBy_of_terminal hact hrow hterm]
  rfl

theorem others (hji : j ≠ i) (h : BookLink i x w) (hact : o.act runId j input l w = some (r, w')) :
    BookLink i x w' := by
  refine ⟨h.link.others hji hact, fun hclosed => SeesOver.act (h.closed hclosed) hact,
    fun s hs => ?_⟩
  obtain ⟨hterm, hover, hstate⟩ := h.won s hs
  exact ⟨hterm, hover, state_of_act hact hterm hstate⟩

/-- A continuation that holds the row in a terminal state sees a run that is over. -/
theorem terminal_of_ended (h : Link i x.1 w) (hended : x.1.ended = true) : SeesOver i w.run := by
  obtain ⟨s, hs, hterm⟩ := (Option.any_eq_true ..).mp hended
  obtain ⟨row, hrow, rfl⟩ := map_eq_some_iff.mp (h.sees.own s hs)
  exact ⟨row, hrow, hterm⟩

/-- Whoever asks for a terminal state other than `SUCCEEDED`, of a run that exists, finds
it over afterwards; so does whoever ends it. -/
theorem terminal_of_updateState {target : RunState} {changed : Bool} {c : RunCell}
    (hact : RunOp.act i w.run (.updateState target) = some (changed, c))
    (hover : (target.isTerminal &&
      (changed || (target != .succeeded && (w.run.seenBy i).isSome))) = true) :
    SeesOver i c := by
  simp only [Bool.and_eq_true, Bool.or_eq_true, bne_iff_ne] at hover
  obtain ⟨hterm, hover⟩ := hover
  rw [RunOp.act] at hact
  obtain ⟨rfl, rfl, hno⟩ | ⟨rfl, -, -, row, -, -, hdraft⟩ := Versioned.update_eq_some hact
  · simp only [Bool.false_eq_true, false_or] at hover
    obtain ⟨row, hrow⟩ := isSome_iff_exists.mp hover.2
    refine ⟨row, hrow, ?_⟩
    have hstuck := hno row hrow
    cases hstate : row.state <;> cases target <;> simp_all [validTransition, isTerminal]
  · exact ⟨_, Versioned.seenBy_of_draft hdraft, hterm⟩

variable (hact : o.act runId i input x.1 w = some (r, w'))

include hact

/-- A state it has won is the one it sees. -/
theorem won_step (h : BookLink i x w) (hs : (x.2.note x.1 (w.run.seenBy i) o r).won = some s) :
    s.isTerminal = true ∧ (x.2.note x.1 (w.run.seenBy i) o r).finished = true ∧
      (w'.run.seenBy i).map RunRow.state = some s := by
  have hknown : x.2.won = some s → s.isTerminal = true ∧ x.2.finished = true ∧
      (w'.run.seenBy i).map RunRow.state = some s := by
    intro hs
    obtain ⟨hterm, hover, hstate⟩ := h.won s hs
    exact ⟨hterm, hover, state_of_act hact hterm hstate⟩
  cases effect_of_act hact with
  | run o r c hrun =>
    cases o with
    | updateState target =>
      simp only [Books.note] at hs
      split at hs
      · rename_i hwon
        obtain rfl := some.inj hs
        rw [RunOp.act] at hrun
        obtain ⟨rfl, -, -⟩ | ⟨rfl, -, -, row, -, -, hdraft⟩ := Versioned.update_eq_some hrun
        · simp at hwon
        · have hterm : target.isTerminal = true := by simpa using hwon
          refine ⟨hterm, by simp [Books.note, hterm], ?_⟩
          rw [Versioned.seenBy_of_draft hdraft]
          rfl
      · obtain ⟨hterm, hover, hstate⟩ := hknown hs
        exact ⟨hterm, by simp [Books.note, hover], hstate⟩
    | _ => exact hknown hs
  | step o | audit o | service o => cases o <;> exact hknown hs
  | ctx | redis | queue | commit => exact hknown hs

/-- **A continuation's own operations keep its history true.** -/
theorem step (h : BookLink i x w) :
    BookLink i (o.record x.1 (w.run.seenBy i) r, x.2.note x.1 (w.run.seenBy i) o r) w' := by
  refine ⟨h.link.step hact, fun hclosed => ?_, fun s hs => h.won_step hact hs⟩
  -- what was known stays true; only a few operations add to what is known
  have hknown : x.2.closed = true → SeesOver i w'.run := fun hclosed =>
    SeesOver.act (h.closed hclosed) hact
  have hnow : x.2.closed = true ∨ x.1.ended = true → SeesOver i w'.run := fun hor =>
    hor.elim hknown fun hended => (terminal_of_ended h.link hended).act hact
  cases effect_of_act hact with
  | run o r c hrun =>
    cases o with
    | updateState =>
      by_cases hbefore : x.2.closed = true
      · exact hknown hbefore
      · refine terminal_of_updateState hrun ?_
        simp only [Books.note, Books.closed, Bool.or_eq_true] at hclosed hbefore
        tauto
    | _ => exact hknown hclosed
  | step o =>
    cases o with
    | cancelPendingForRun =>
      refine hnow ?_
      simp only [Books.note, Books.closed, Bool.or_eq_true] at hclosed ⊢
      tauto
    | _ => exact hknown hclosed
  | audit e =>
    cases e with
    | runFinished =>
      refine hnow ?_
      simp only [Books.note, Books.closed, Bool.or_eq_true] at hclosed ⊢
      tauto
    | _ => exact hknown hclosed
  | service o => cases o <;> exact hknown hclosed
  | ctx | redis | queue | commit => exact hknown hclosed

end BookLink

/-- The continuations of one run, with their histories. -/
abbrev bookMachine (env : Services) :
    Machine Op Op.Res Booked World (Option RunRow) Input Outside :=
  (machine env).withHistory bookkeeping

/-- The discipline of the continuations, with their histories. -/
def bookDiscipline (env : Services) : Discipline (bookMachine env) where
  blank := (blank, empty)
  coherent x v o r := Sees x.1 v ∧ o.Coherent x.1 v r ∧ (x.2.closed = true → runActive v = false)
  link := BookLink
  answers _ _ _ _ _ _ _ hlink hact :=
    ⟨hlink.link.sees, Link.coherent hact, hlink.runActive_eq_false⟩
  own _ _ _ _ _ _ _ hlink hact := hlink.step hact
  others _ _ _ _ _ _ _ _ _ hji hlink hact := hlink.others hji hact
  outside i e x w w' new hlink henv := by
    obtain ⟨new', henv, -⟩ := env_withHistory bookkeeping henv
    have hrun := (Outside.act_rows henv).1
    refine ⟨(discipline env).outside i e x.1 w w' new' hlink.link henv, ?_, ?_⟩
    · rw [hrun]
      exact hlink.closed
    · rw [hrun]
      exact hlink.won
  starts i e w w' new hlink henv t ht := by
    obtain ⟨new', henv', rfl⟩ := env_withHistory bookkeeping henv
    obtain ⟨t', ht', rfl⟩ := mem_map.mp ht
    exact ⟨(discipline env).starts i e w w' new' hlink.link henv' t' ht', nofun, nofun⟩

/-! ## Obligations -/

/-- A node visited beyond the guard is known to have ended the run. -/
def Guarded (x : Booked) : Prop :=
  ∀ nodeId, x.1.ctx.workflowDef.maxVisitsPerNode < x.1.ctx.nodeVisitCounts nodeId →
    x.2.finished = true

/-- What a continuation must have established before an operation. -/
def Proper (x : Booked) : Op → Prop
  | .diverge => False
  | .run (.insert row) => row.state = .running
  | .run (.updateState .succeeded) | .run (.updateState .cancelled) => Guarded x
  | .ctx (.visit _) => x.2.finished = false
  | .ctx (.invoke nodeId _) => x.1.executed.count nodeId < x.1.entered.count nodeId
  | .ctx (.create d ..) => x.2.loaded = some d ∧ x.1.entered = []
  | .step (.insertIfRunActive nodeId _) =>
    (x.1.ctx.workflowDef.nodesById nodeId).isSome = true ∧
      x.1.entered.count nodeId < x.1.ctx.nodeVisitCounts nodeId ∧
      x.1.ctx.nodeVisitCounts nodeId ≤ x.1.ctx.workflowDef.maxVisitsPerNode
  | .step (.update id _) => x.2.owed.head? = some id
  | .step (.sealOpen _ state _) => state ≠ .pending ∧ state ≠ .running
  | .step .cancelPendingForRun => x.1.ended = true
  | .audit (.runFinished ..) => x.1.ended = true ∧ x.2.announced = false
  | .commit => x.2.owed = [] ∧ (x.1.ended = true → x.2.swept = true)
  | _ => True

/-- Each executor has been called for a claimed step, and each claimed step is a visit. -/
def Counted (l : Local) : Prop :=
  ∀ nodeId, l.executed.count nodeId ≤ l.entered.count nodeId ∧
    l.entered.count nodeId ≤ l.ctx.nodeVisitCounts nodeId

/-- What the execution of nodes leaves alone, and what holds whenever it returns: a run it
has ended is swept, and what it has entered and executed is counted. -/
structure Steady (x₀ x : Booked) : Prop where
  owed : x.2.owed = x₀.2.owed
  workflowDef : x.1.ctx.workflowDef = x₀.1.ctx.workflowDef
  visits : ∀ nodeId, x₀.1.ctx.nodeVisitCounts nodeId ≤ x.1.ctx.nodeVisitCounts nodeId
  seen : x₀.1.seen = true → x.1.seen = true
  swept : x.1.ended = true → x.2.swept = true
  counted : Counted x.1

/-- Between the entry points: no claimed step is open, and the above holds. -/
structure Tidy (x : Booked) : Prop where
  owed : x.2.owed = []
  swept : x.1.ended = true → x.2.swept = true
  counted : Counted x.1
  guarded : Guarded x

/-- How a continuation ends: nothing of the run row in its hand. -/
def Ended (x : Booked) (_ : Unit) : Prop := Tidy x ∧ x.1.own = none

variable {x₀ x x' : Booked}

theorem Steady.here (h : Steady x₀ x) : Steady x x :=
  ⟨rfl, rfl, fun _ => le_refl _, id, h.swept, h.counted⟩

theorem Steady.trans (h : Steady x₀ x) (h' : Steady x x') : Steady x₀ x' where
  owed := h'.owed.trans h.owed
  workflowDef := h'.workflowDef.trans h.workflowDef
  visits nodeId := le_trans (h.visits nodeId) (h'.visits nodeId)
  seen := h'.seen ∘ h.seen
  swept := h'.swept
  counted := h'.counted

theorem Tidy.steady (h : Tidy x) : Steady x x :=
  ⟨rfl, rfl, fun _ => le_refl _, id, h.swept, h.counted⟩

theorem Tidy.of_steady (h : Tidy x) (hs : Steady x x') (hg : Guarded x') : Tidy x' :=
  ⟨hs.owed.trans h.owed, hs.swept, hs.counted, hg⟩

/-- The operations that enter no node, record no step and leave the run row alone. -/
def Op.plain : Op → Bool
  | .ctx (.create ..) | .ctx (.visit _) | .ctx (.invoke ..) | .commit | .diverge => false
  | .run .get => true
  | .run _ | .step _ | .audit (.runFinished ..) => false
  | .ctx _ | .redis _ | .queue _ | .service _ | .audit _ => true

/-- The operations that leave the run, its steps and the course of the context alone. -/
def Op.aside : Op → Bool
  | .ctx .get | .ctx (.assign ..) | .ctx (.pend ..) => true
  | .redis (.setClaim ..) | .redis (.joinArrive ..) => true
  | .queue _ | .service _ => true
  | _ => false

theorem plain_of_aside {o : Op} (ho : o.aside = true) : o.plain = true := by
  cases o with
  | ctx o =>
    cases o with
    | create | visit | invoke => cases ho
    | _ => rfl
  | run | step | audit | commit | diverge => cases ho
  | _ => rfl

section Programs

variable {env : Services} {α : Type} {x₀ x : Booked}

/-- The private record after an operation, with its history. -/
abbrev Booked.after (x : Booked) (v : Option RunRow) (o : Op) (r : o.Res) : Booked :=
  (o.record x.1 v r, x.2.note x.1 v o r)

variable {o : Op} {post : Booked → α → Prop} {p : Engine α} {nodeId port id : String}
  {state : RunState} {reason fromEdge : Option String} {f : Unit → Engine α} {key : ClaimKey}
  {claim : Claim} {attempt : ℕ} {again : Job}

theorem proper_of_plain (ho : o.plain = true) (x : Booked) : Proper x o := by
  cases o with
  | ctx o =>
    cases o with
    | invoke => cases ho
    | _ => trivial
  | step o | audit o => cases o <;> trivial
  | run o =>
    cases o with
    | get => trivial
    | _ => cases ho
  | _ => trivial

section Steady

variable (hs : Steady x₀ x)

include hs

variable (hg : Guarded x)

include hg

theorem plain_steady (ho : o.plain = true) (v : Option RunRow) (r : o.Res) :
    Steady x₀ (x.after v o r) ∧ Guarded (x.after v o r) := by
  obtain ⟨howed, hdef, hvisits, hseen, hswept, hcounted⟩ := hs
  cases o with
  | ctx o =>
    cases o with
    | create | visit | invoke => cases ho
    | _ => exact ⟨⟨howed, hdef, hvisits, hseen, hswept, hcounted⟩, hg⟩
  | run o =>
    cases o with
    | get =>
      refine ⟨⟨howed, hdef, hvisits, fun h => ?_, hswept, hcounted⟩, hg⟩
      simp [record, RunOp.record, hseen h]
    | _ => cases ho
  | step o => cases o <;> cases ho
  | redis o | queue o | service o =>
    cases o <;> exact ⟨⟨howed, hdef, hvisits, hseen, hswept, hcounted⟩, hg⟩
  | audit e =>
    cases e with
    | runFinished => cases ho
    | _ => exact ⟨⟨howed, hdef, hvisits, hseen, hswept, hcounted⟩, hg⟩
  | commit | diverge => cases ho

/-- The program conducts itself. -/
abbrev Conducts (env : Services) (post : Booked → α → Prop) (p : Engine α) (x : Booked) : Prop :=
  Obeys (bookDiscipline env) Proper post p x

/-- What a part of the execution of nodes comes to. -/
abbrev Returns (env : Services) (x₀ : Booked) (p : Engine α) (x : Booked) : Prop :=
  Conducts env (fun x' _ => Steady x₀ x' ∧ Guarded x') p x

/-- One plain operation, then the rest. -/
theorem conducts_plain {f : o.Res → Engine α} (ho : o.plain = true)
    (h : ∀ v r, o.Coherent x.1 v r → Steady x₀ (x.after v o r) → Guarded (x.after v o r) →
      Conducts env post (f r) (x.after v o r)) : Conducts env post (perform o >>= f) x := by
  refine obeys_perform_bind (proper_of_plain ho x) ?_
  intro v r hc
  obtain ⟨hs', hg'⟩ := plain_steady hs hg ho v r
  exact h v r hc.2.1 hs' hg'

/-- A program of plain operations. -/
theorem returns_of_uses (hp : Uses plain p) : Returns env x₀ p x := by
  refine obeys_of_uses (P := fun x => Steady x₀ x ∧ Guarded x) ?_ ?_ hp ⟨hs, hg⟩
  · intro x o ho _
    exact proper_of_plain ho x
  · intro x v o r ho _ h
    exact plain_steady h.1 h.2 ho v r

theorem returns_of_aside (hp : Uses aside p) : Returns env x₀ p x :=
  returns_of_uses hs hg (hp.mono fun _ => plain_of_aside)

end Steady

/-! ## Executors -/

theorem aside_of_ofExecutors (ho : o.ofExecutors = true) : o.aside = true := by
  unfold ofExecutors at ho
  split at ho
  · rfl
  · rfl
  · rfl
  · rfl
  · rfl
  · rfl
  · cases ho

/-- **Executors stay aside of the run**, and each is called for a step that was claimed. -/
theorem returns_runExecutor {node : NodeSpec} {dry : Bool} (hs : Steady x₀ x) (hg : Guarded x)
    (hclaimed : x.1.executed.count node.id < x.1.entered.count node.id) :
    Returns env x₀ (runExecutor env dry node) x := by
  unfold runExecutor
  split
  · exact ⟨hs, hg⟩
  refine obeys_perform_bind hclaimed fun v r _ => ?_
  obtain ⟨howed, hdef, hvisits, hseen, hswept, hcounted⟩ := hs
  refine returns_of_aside ⟨howed, hdef, hvisits, hseen, hswept, fun n => ⟨?_, (hcounted n).2⟩⟩ hg
    ((uses_getExecutor node).mono fun _ => aside_of_ofExecutors)
  show (node.id :: x.1.executed).count n ≤ x.1.entered.count n
  rw [count_cons]
  split
  · rename_i hn
    obtain rfl : node.id = n := by simpa using hn
    exact hclaimed
  · exact (hcounted n).1

theorem uses_pendBranches (edges : List EdgeDef) : Uses aside (pendBranches edges) := by
  induction edges with
  | nil => trivial
  | cons edge rest ih => exact uses_perform_bind rfl fun _ => ih

theorem uses_signalAssignment (nodeId : String) (node : NodeSpec) (outcome : StepOutcome) :
    Uses aside (signalAssignment nodeId node outcome) := by
  unfold signalAssignment
  split
  · exact uses_perform rfl
  · trivial

/-! ## The loop guard -/

/-- The visits the loop guard still admits. -/
def Local.visitsLeft (l : Local) : ℕ :=
  (l.ctx.workflowDef.nodes.map fun n =>
    l.ctx.workflowDef.maxVisitsPerNode - l.ctx.nodeVisitCounts n.id).sum

theorem Steady.visitsLeft_le (h : Steady x₀ x) : x.1.visitsLeft ≤ x₀.1.visitsLeft := by
  unfold visitsLeft
  rw [h.workflowDef]
  exact sum_le_sum fun n _ => Nat.sub_le_sub_left (h.visits n.id) _

/-- A fresh context has no more of them than `visitBudget` allows for. -/
theorem visitsLeft_lt_visitBudget (l : Local) : l.visitsLeft < l.ctx.workflowDef.visitBudget := by
  have hle : l.visitsLeft ≤
      (l.ctx.workflowDef.nodes.map fun _ => l.ctx.workflowDef.maxVisitsPerNode).sum :=
    sum_le_sum fun _ _ => Nat.sub_le _ _
  rw [map_const', sum_replicate, smul_eq_mul] at hle
  exact Nat.lt_succ_of_le hle

theorem le_visit (counts : String → ℕ) (nodeId n : String) :
    counts n ≤ Function.update counts nodeId (counts nodeId + 1) n := by
  rw [update_apply]
  split
  · rename_i hn
    rw [hn]
    exact Nat.le_succ _
  · exact le_refl _

/-- A visit to a node of the definition that the guard admits uses one up. -/
theorem visitsLeft_visit_lt {l : Local} {raw : NodeDef}
    (hraw : l.ctx.workflowDef.nodesById nodeId = some raw)
    (hadmitted : l.ctx.nodeVisitCounts nodeId < l.ctx.workflowDef.maxVisitsPerNode) :
    (CtxOp.record l (.visit nodeId)).visitsLeft < l.visitsLeft := by
  refine sum_lt_sum _ _ (fun n _ => Nat.sub_le_sub_left (le_visit _ _ _) _)
    ⟨raw, Definition.mem_of_nodesById hraw, ?_⟩
  rw [Definition.id_of_nodesById hraw]
  simp only [CtxOp.record, update_self]
  omega

/-! ## The engine -/

/-- A transition to a state that is not terminal. -/
theorem live_steady (hstate : state.isTerminal = false) (hs : Steady x₀ x) (hg : Guarded x)
    (v : Option RunRow) (changed : Bool) :
    Steady x₀ (x.after v (.run (.updateState state)) changed) ∧
      Guarded (x.after v (.run (.updateState state)) changed) := by
  obtain ⟨howed, hdef, hvisits, hseen, hswept, hcounted⟩ := hs
  refine ⟨⟨howed, hdef, hvisits, hseen, fun hended => hswept ?_, hcounted⟩, fun n hvisit => ?_⟩
  · cases changed with
    | true => simp [record, RunOp.record, ended, hstate] at hended
    | false => exact hended
  · exact (Bool.or_eq_true ..).mpr (.inl (hg n hvisit))

/-- A write-back that succeeds leaves a live row in hand. -/
theorem swept_of_updateVariables {v : Option RunRow} {vars : JsonObject} {updated : Bool}
    (hswept : x.1.ended = true → x.2.swept = true)
    (hc : Op.Coherent x.1 v (.run (.updateVariables vars)) updated)
    (hended : (x.after v (.run (.updateVariables vars)) updated).1.ended = true) :
    x.2.swept = true := by
  cases updated with
  | true =>
    obtain ⟨row, rfl, hactive⟩ := (Option.any_eq_true ..).mp hc.symm
    have hterm : row.state.isTerminal = true := hended
    simp [isActive, hterm] at hactive
  | false => exact hswept hended

theorem runActive_of_changed {v : Option RunRow} {target : RunState}
    (h : (v.any fun r => validTransition r.state target) = true) : runActive v = true := by
  obtain ⟨row, rfl, hvalid⟩ := (Option.any_eq_true ..).mp h
  exact isActive_of_validTransition hvalid

section Steady

variable (hs : Steady x₀ x)

include hs

/-- **Ending a run**: whoever wins sweeps the open steps and announces the end, once. -/
theorem conducts_finalizeRun (hstate : state.isTerminal = true)
    (hguard : state ≠ .failed → Guarded x) :
    Conducts env (fun x' _ => Steady x₀ x' ∧ (Guarded x → Guarded x') ∧
        (state ≠ .succeeded → x.1.seen = true → x'.2.finished = true))
      (finalizeRun state reason) x := by
  have hproper : Proper x (.run (.updateState state)) := by
    cases state with
    | succeeded | cancelled => exact hguard nofun
    | _ => trivial
  refine obeys_perform_bind hproper ?_
  intro v changed hc
  obtain ⟨hsees, hcoherent, hclosed⟩ := hc
  obtain ⟨howed, hdef, hvisits, hseen, hswept, hcounted⟩ := hs
  cases changed with
  | true =>
    have hended : (x.after v (.run (.updateState state)) true).1.ended = true := by
      simp [record, RunOp.record, ended, hstate]
    have hover : (x.after v (.run (.updateState state)) true).2.finished = true := by
      simp [Books.note, hstate]
    have hopen : x.2.announced = false := by
      have hactive := runActive_of_changed hcoherent.symm
      have hfalse : ¬ x.2.closed = true := fun h => by rw [hclosed h] at hactive; cases hactive
      simp only [Books.closed, Bool.or_eq_true, not_or, Bool.not_eq_true] at hfalse
      exact hfalse.2
    refine obeys_perform_bind hended fun v' _ _ => ?_
    refine obeys_perform_bind ⟨hended, hopen⟩ fun v'' _ _ => ?_
    refine ⟨⟨howed, hdef, hvisits, hseen, fun _ => ?_, hcounted⟩, fun _ _ _ => hover,
      fun _ _ => hover⟩
    exact (Bool.or_eq_true ..).mpr (.inr hended)
  | false =>
    refine ⟨⟨howed, hdef, hvisits, hseen, hswept, hcounted⟩, fun hg nodeId hvisit => ?_,
      fun hfail hseen => ?_⟩
    · exact (Bool.or_eq_true ..).mpr (.inl (hg nodeId hvisit))
    · simp [machine, Machine.withHistory, bookkeeping, Books.note, hstate, hfail, hsees.seen hseen]

theorem conducts_failRun {reason : String} (hseen : x.1.seen = true) :
    Conducts env (fun x' _ => Steady x₀ x' ∧ x'.2.finished = true) (failRun reason) x := by
  refine obeys_perform_bind trivial fun v _ _ => ?_
  obtain ⟨howed, hdef, hvisits, hseen', hswept, hcounted⟩ := hs
  refine obeys_bind (conducts_finalizeRun ⟨howed, hdef, hvisits, hseen', hswept, hcounted⟩ rfl
    (fun h => absurd rfl h)) fun x' _ h => ?_
  exact ⟨h.1, h.2.2 nofun hseen⟩

omit hs in
theorem guarded_of_over (h : x.2.finished = true) : Guarded x := fun _ _ => h

theorem returns_failRun {reason : String} (hseen : x.1.seen = true) :
    Returns env x₀ (failRun reason) x :=
  Obeys.mono (fun _ _ h => h) (fun _ _ h => ⟨h.1, guarded_of_over h.2⟩) (conducts_failRun hs hseen)

theorem returns_parkNode {outcome : StepOutcome} (hg : Guarded x) :
    Returns env x₀ (parkNode nodeId outcome) x := by
  refine obeys_perform_bind trivial fun v changed _ => ?_
  have hlive : waiting.isTerminal = false := rfl
  obtain ⟨hs', hg'⟩ := live_steady hlive hs hg v changed
  split
  · split
    · exact obeys_perform trivial fun v r _ =>
        plain_steady hs' hg' rfl v r
    · exact ⟨hs', hg'⟩
  · exact ⟨hs', hg'⟩

/-- A visit is counted. -/
theorem visit_steady (nodeId : String) (v : Option RunRow) (count : ℕ) :
    Steady x₀ (x.after v (.ctx (.visit nodeId)) count) := by
  obtain ⟨howed, hdef, hvisits, hseen, hswept, hcounted⟩ := hs
  exact ⟨howed, hdef, fun n => le_trans (hvisits n) (le_visit _ _ _), hseen, hswept,
    fun n => ⟨(hcounted n).1, le_trans (hcounted n).2 (le_visit _ _ _)⟩⟩

end Steady

/-- A visit the guard admits is not beyond it. -/
theorem visit_guarded (hg : Guarded x)
    (hadmitted : x.1.ctx.nodeVisitCounts nodeId + 1 ≤ x.1.ctx.workflowDef.maxVisitsPerNode)
    (v : Option RunRow) (count : ℕ) : Guarded (x.after v (.ctx (.visit nodeId)) count) := by
  intro n hbeyond
  have hcount : x.1.ctx.workflowDef.maxVisitsPerNode <
      Function.update x.1.ctx.nodeVisitCounts nodeId (x.1.ctx.nodeVisitCounts nodeId + 1) n :=
    hbeyond
  rw [update_apply] at hcount
  split at hcount
  · omega
  · exact hg n hcount

/-- The recursive call returns, while fewer visits than `bound` are left. -/
abbrev NextReturns (env : Services) (bound : ℕ)
    (executeNext : String → Option String → Engine Unit) : Prop :=
  ∀ nodeId fromEdge {x₀ x : Booked}, Steady x₀ x → Guarded x → x.1.visitsLeft < bound →
    Returns env x₀ (executeNext nodeId fromEdge) x

section Body

variable {bound : ℕ} {executeNext : String → Option String → Engine Unit}
  (hnext : NextReturns env bound executeNext)

include hnext

variable {nodeId : String} {node : NodeSpec} {outcome : StepOutcome} {continued : Bool}
  {original : Option String} {stepId : ℕ} {dry : Bool}

variable (hs : Steady x₀ x) (hg : Guarded x) (hroom : x.1.visitsLeft < bound)

include hs hg hroom

theorem returns_advanceFrom : Returns env x₀ (advanceFrom executeNext nodeId port) x := by
  refine conducts_plain hs hg rfl fun _ ctx _ hs hg => ?_
  split
  · exact ⟨hs, hg⟩
  · exact obeys_bind (hnext _ _ hs hg hroom) fun _ _ h => h
  · exact obeys_bind (returns_of_aside hs hg (uses_pendBranches _)) fun _ _ h => h

theorem returns_applyOnError : Returns env x₀ (applyOnError executeNext node outcome) x := by
  unfold applyOnError
  cases node.onError.strategy with
  | fail | «continue» => exact ⟨hs, hg⟩
  | retry =>
    refine conducts_plain hs hg rfl fun _ count _ hs hg => ?_
    split
    · exact conducts_plain hs hg rfl fun _ _ _ hs hg => ⟨hs, hg⟩
    · exact ⟨hs, hg⟩
  | fallback =>
    dsimp only
    split
    · exact obeys_bind (hnext _ _ hs hg hroom) fun _ _ h => h
    · exact ⟨hs, hg⟩

variable (hseen : x.1.seen = true)

include hseen

theorem returns_followEdges :
    Returns env x₀ (followEdges executeNext nodeId outcome continued original) x := by
  refine obeys_bind (returns_advanceFrom hnext hs.here hg hroom) fun x₁ advanced h₁ => ?_
  obtain ⟨hs₁, hg₁⟩ := h₁
  refine conducts_plain (hs.trans hs₁) hg₁ rfl fun _ ctx _ hs hg => ?_
  split
  · exact returns_failRun hs (hs₁.seen hseen)
  · exact ⟨hs, hg⟩

theorem returns_settleNode :
    Returns env x₀ (settleNode executeNext nodeId node outcome continued original) x := by
  refine obeys_bind (returns_of_aside hs.here hg (uses_signalAssignment nodeId node outcome))
    fun x₁ _ h₁ => ?_
  obtain ⟨hs₁, hg₁⟩ := h₁
  have hs' := hs.trans hs₁
  have hseen' := hs₁.seen hseen
  split
  · exact returns_parkNode hs' hg₁
  split
  · exact ⟨hs', hg₁⟩
  split
  · have hterm : (if endStatus node = "success" then succeeded else .failed).isTerminal = true := by
      split <;> rfl
    exact obeys_bind (conducts_finalizeRun hs' hterm (fun _ => hg₁)) fun _ _ h =>
      ⟨h.1, h.2.1 hg₁⟩
  · split
    · exact returns_failRun hs' hseen'
    · exact returns_followEdges hnext hs' hg₁ (lt_of_le_of_lt hs₁.visitsLeft_le hroom) hseen'

omit hs in
/-- The claimed step is recorded and written back by the call that claimed it. -/
theorem returns_runClaimed (howed : x.2.owed = stepId :: x₀.2.owed)
    (hclaimed : x.1.executed.count node.id < x.1.entered.count node.id)
    (hs : Steady { x₀ with snd := { x₀.2 with owed := stepId :: x₀.2.owed } } x) :
    Returns env x₀ (runClaimed env executeNext dry nodeId node stepId) x := by
  refine obeys_bind (returns_runExecutor hs.here hg hclaimed) fun x₁ outcome h₁ => ?_
  obtain ⟨hs₁, hg₁⟩ := h₁
  have hsettled : Returns env x (recover executeNext node outcome) x₁ := by
    unfold recover
    split
    · exact returns_applyOnError hnext hs₁ hg₁ (lt_of_le_of_lt hs₁.visitsLeft_le hroom)
    · exact ⟨hs₁, hg₁⟩
  refine obeys_bind hsettled fun x₂ settled h₂ => ?_
  obtain ⟨hs₂, hg₂⟩ := h₂
  have howed₂ : x₂.2.owed = stepId :: x₀.2.owed := hs₂.owed.trans howed
  refine obeys_perform_bind (by simp [Proper, howed₂]) fun v₁ r₁ _ => ?_
  refine obeys_perform_bind trivial fun _ ctx _ => ?_
  refine obeys_perform_bind trivial fun v updated hc => ?_
  obtain ⟨-, hupdated, -⟩ := hc
  have hs₃ : Steady x₀ ((x₂.after v₁ (.step (.update stepId settled)) r₁).after v
      (.run (.updateVariables ctx.vars)) updated) := by
    obtain ⟨-, hdef, hvisits, hseen', hswept, hcounted⟩ := hs.trans hs₂
    exact ⟨by simp [Books.note, howed₂], hdef, hvisits, hseen',
      swept_of_updateVariables hswept hupdated, hcounted⟩
  have hg₃ : Guarded ((x₂.after v₁ (.step (.update stepId settled)) r₁).after v
      (.run (.updateVariables ctx.vars)) updated) := hg₂
  split
  · exact returns_settleNode hnext hs₃ hg₃ (lt_of_le_of_lt hs₂.visitsLeft_le hroom) (hs₂.seen hseen)
  · exact ⟨hs₃, hg₃⟩

theorem returns_claimNode (hid : node.id = nodeId)
    (hnode : (x.1.ctx.workflowDef.nodesById nodeId).isSome = true)
    (hvisited : x.1.entered.count nodeId < x.1.ctx.nodeVisitCounts nodeId)
    (hadmitted : x.1.ctx.nodeVisitCounts nodeId ≤ x.1.ctx.workflowDef.maxVisitsPerNode) :
    Returns env x₀ (claimNode env executeNext dry nodeId node) x := by
  refine obeys_perform_bind ⟨hnode, hvisited, hadmitted⟩ fun v stepId _ => ?_
  obtain ⟨howed, hdef, hvisits, hseen', hswept, hcounted⟩ := hs
  cases stepId with
  | none =>
    exact obeys_perform trivial fun _ _ _ =>
      ⟨⟨howed, hdef, hvisits, hseen', hswept, hcounted⟩, hg⟩
  | some =>
    refine returns_runClaimed hnext hg hroom hseen ?_ ?_
      ⟨?_, hdef, hvisits, hseen', hswept, fun n => ?_⟩
    · simp [machine, Machine.withHistory, bookkeeping, Books.note, howed]
    · show x.1.executed.count node.id < (nodeId :: x.1.entered).count node.id
      rw [hid, count_cons_self]
      exact Nat.lt_succ_of_le (hcounted nodeId).1
    · simp [machine, Machine.withHistory, bookkeeping, Books.note, howed]
    -- the node just entered has been visited once more than it was entered
    show x.1.executed.count n ≤ (nodeId :: x.1.entered).count n ∧
      (nodeId :: x.1.entered).count n ≤ x.1.ctx.nodeVisitCounts n
    obtain ⟨hexecuted, hentered⟩ := hcounted n
    rw [count_cons]
    split
    · rename_i hn
      obtain rfl : nodeId = n := by simpa using hn
      omega
    · exact ⟨hexecuted, hentered⟩

omit hroom in
/-- Entering a node: beyond the guard it ends the run, within it a visit is used up. -/
theorem returns_visit (hopen : x.2.finished = false) (hroom : x.1.visitsLeft < bound + 1) :
    Returns env x₀ (do
      let count : ℕ ← perform (.ctx (.visit nodeId))
      if x.1.ctx.workflowDef.maxVisitsPerNode < count then
        failRun s!"Loop guard: node '{nodeId}' visited {count} times"
      else match x.1.ctx.workflowDef.nodesById nodeId with
      | none => failRun s!"Node '{nodeId}' not found in definition"
      | some raw => claimNode env executeNext x.1.ctx.isDryRun nodeId (parseNode raw)) x := by
  refine obeys_perform_bind hopen fun v count hc => ?_
  obtain ⟨-, hcount, -⟩ := hc
  obtain rfl : count = x.1.ctx.nodeVisitCounts nodeId + 1 := hcount
  have hs' := visit_steady hs nodeId v (x.1.ctx.nodeVisitCounts nodeId + 1)
  split
  · exact returns_failRun hs' hseen
  rename_i hadmitted
  have hadmitted := Nat.not_lt.mp hadmitted
  have hg' := visit_guarded hg hadmitted v (x.1.ctx.nodeVisitCounts nodeId + 1)
  have hnow : (x.after v (.ctx (.visit nodeId))
      (x.1.ctx.nodeVisitCounts nodeId + 1)).1.ctx.nodeVisitCounts nodeId =
      x.1.ctx.nodeVisitCounts nodeId + 1 :=
    update_self ..
  split
  · exact returns_failRun hs' hseen
  rename_i raw hraw
  refine returns_claimNode hnext hs' hg' ?_ hseen (Definition.id_of_nodesById hraw)
    (isSome_iff_exists.mpr ⟨raw, hraw⟩) ?_ ?_
  · exact lt_of_lt_of_le (visitsLeft_visit_lt hraw hadmitted) (Nat.le_of_lt_succ hroom)
  · exact lt_of_lt_of_eq (Nat.lt_succ_of_le (hs.counted nodeId).2) hnow.symm
  · exact le_of_eq_of_le hnow hadmitted

omit hs hg hroom hseen in
theorem returns_executeNodeBody :
    NextReturns env (bound + 1) (executeNodeBody env executeNext) := by
  intro nodeId fromEdge x₀ x hs hg hroom
  refine conducts_plain hs hg rfl fun _ ctx hctx hs hg => ?_
  obtain rfl : ctx = x.1.ctx := hctx
  split
  · exact ⟨hs, hg⟩
  refine obeys_perform_bind trivial fun v run hc => ?_
  obtain ⟨-, hrun, hclosed⟩ := hc
  obtain ⟨hs, hg⟩ := plain_steady hs hg rfl v run
  split
  · rename_i hlive
    have hseen : (x.1.seen || isSome run) = true := seen_of_runActive hlive
    have hopen : x.2.finished = false := by
      obtain rfl : run = v := hrun
      cases hover : x.2.finished with
      | false => rfl
      | true =>
        have hdead := hclosed (by simp [Books.closed, Books.note, hover])
        simp [hdead] at hlive
    refine conducts_plain hs hg rfl fun _ _ _ hs hg => ?_
    exact returns_visit hnext hs hg hseen hopen hroom
  · exact obeys_perform trivial fun v r _ => plain_steady hs hg rfl v r

end Body

/-- **Executing a node** returns: the visits that are left bound how deep it recurses. -/
theorem returns_executeNode (budget : ℕ) : NextReturns env budget (executeNode env budget) := by
  induction budget with
  | zero =>
    intro nodeId fromEdge x₀ x hs hg hroom
    exact absurd hroom (Nat.not_lt_zero _)
  | succ budget ih => exact returns_executeNodeBody ih

theorem returns_enterNode (hs : Steady x₀ x) (hg : Guarded x) :
    Returns env x₀ (enterNode env nodeId fromEdge) x := by
  refine conducts_plain hs hg rfl fun _ ctx hctx hs hg => ?_
  obtain rfl : ctx = x.1.ctx := hctx
  exact returns_executeNode _ _ _ hs hg (visitsLeft_lt_visitBudget x.1)

/-! ## Entry points -/

/-- What an entry point comes to. -/
abbrev Leaves (env : Services) (p : Engine α) (x : Booked) : Prop :=
  Conducts env (fun x' _ => Tidy x') p x

theorem leaves_of_returns (ht : Tidy x) (h : Returns env x p x) : Leaves env p x :=
  Obeys.mono (fun _ _ h => h) (fun _ _ h => ht.of_steady h.1 h.2) h

/-- One plain operation of an entry point. -/
theorem leaves_plain {f : o.Res → Engine α} (ho : o.plain = true) (ht : Tidy x)
    (h : ∀ v r, o.Coherent x.1 v r → Tidy (x.after v o r) →
      Conducts env post (f r) (x.after v o r)) :
    Conducts env post (perform o >>= f) x :=
  conducts_plain ht.steady ht.guarded ho fun v r hc hs hg => h v r hc (ht.of_steady hs hg)

/-- A new context starts counting from zero. -/
theorem leaves_create {d : Definition} {vars payload : JsonObject} {dry : Bool}
    (hloaded : x.2.loaded = some d) (hfresh : x.1.entered = []) (ht : Tidy x)
    (h : ∀ v r, Tidy (x.after v (.ctx (.create d vars payload dry)) r) →
      Conducts env post (f r) (x.after v (.ctx (.create d vars payload dry)) r)) :
    Conducts env post (perform (.ctx (.create d vars payload dry)) >>= f) x := by
  refine obeys_perform_bind ⟨hloaded, hfresh⟩ fun v r _ => h v r ?_
  refine ⟨ht.owed, ht.swept, fun n => ?_, fun n hbeyond => absurd hbeyond (Nat.not_lt_zero _)⟩
  have hnone : x.1.entered.count n = 0 := by simp [hfresh]
  exact ⟨(ht.counted n).1, Nat.le_of_eq hnone⟩

theorem leaves_enterNode (ht : Tidy x) : Leaves env (enterNode env nodeId fromEdge) x :=
  leaves_of_returns ht (returns_enterNode ht.steady ht.guarded)

/-- A parked step is sealed with a state that is not live. -/
theorem leaves_sealOpen {state : StepState} {port : Option String}
    (hstate : state ≠ .pending ∧ state ≠ .running) (ht : Tidy x)
    (h : ∀ v r, Tidy (x.after v (.step (.sealOpen nodeId state port)) r) →
      Conducts env post (f r) (x.after v (.step (.sealOpen nodeId state port)) r)) :
    Conducts env post (perform (.step (.sealOpen nodeId state port)) >>= f) x :=
  obeys_perform_bind hstate fun v r _ => h v r ⟨ht.owed, ht.swept, ht.counted, ht.guarded⟩

/-- A transition out of the terminal states keeps the books in order. -/
theorem tidy_running (ht : Tidy x) (v : Option RunRow) (changed : Bool) :
    Tidy (x.after v (.run (.updateState .running)) changed) := by
  have hlive : running.isTerminal = false := rfl
  obtain ⟨hs, hg⟩ := live_steady hlive ht.steady ht.guarded v changed
  exact ht.of_steady hs hg

theorem leaves_finalizeRun (hstate : state.isTerminal = true) (ht : Tidy x) :
    Leaves env (finalizeRun state reason) x :=
  Obeys.mono (fun _ _ h => h) (fun _ _ h => ht.of_steady h.1 (h.2.1 ht.guarded))
    (conducts_finalizeRun ht.steady hstate (fun _ => ht.guarded))

section Fresh

variable (hfresh : x.1.entered = [])

include hfresh

theorem leaves_startRun {start : Start} (hloaded : x.2.loaded = some start.definition)
    (ht : Tidy x) :
    Leaves env (startRun env start.definition start.triggerType start.triggerPayload
      start.isDryRun) x := by
  refine obeys_perform_bind rfl fun _ _ _ => ?_
  refine leaves_plain rfl ⟨ht.owed, nofun, ht.counted, ht.guarded⟩ fun _ _ _ ht => ?_
  exact leaves_create hloaded hfresh ht fun _ _ ht => leaves_enterNode ht

theorem leaves_runStep (ht : Tidy x) : Leaves env (runStep env nodeId fromEdge) x := by
  refine leaves_plain rfl ht fun _ run _ ht => ?_
  split
  · exact ht
  · refine leaves_plain rfl ht fun _ workflow _ ht => ?_
    split
    · exact obeys_bind (leaves_finalizeRun rfl ht) fun _ _ h => h
    · exact leaves_create rfl hfresh ht fun _ _ ht => leaves_enterNode ht

theorem leaves_retryNode (ht : Tidy x) : Leaves env (retryNode env nodeId) x := by
  refine leaves_plain rfl ht fun _ run _ ht => ?_
  split
  · exact ht
  refine leaves_plain rfl ht fun _ workflow _ ht => ?_
  split
  · exact ht
  refine obeys_perform_bind trivial fun v claimed _ => ?_
  have ht := tidy_running ht v claimed
  split
  · refine leaves_sealOpen ⟨nofun, nofun⟩ ht fun _ _ ht => ?_
    exact leaves_create rfl hfresh ht fun _ _ ht => leaves_enterNode ht
  · exact ht

omit hfresh in
theorem leaves_followResumed (hseen : x.1.seen = true) (ht : Tidy x) :
    Leaves env (followResumed env nodeId port) x := by
  have hsealed : sealedState port ≠ .pending ∧ sealedState port ≠ .running := by
    unfold sealedState
    split <;> exact ⟨nofun, nofun⟩
  refine leaves_sealOpen hsealed ht fun _ _ ht => ?_
  refine leaves_plain rfl ht fun _ ctx hctx ht => ?_
  obtain rfl : ctx = x.1.ctx := hctx
  refine obeys_bind (returns_advanceFrom (returns_executeNode _) ht.steady ht.guarded
    (visitsLeft_lt_visitBudget x.1)) fun x₁ advanced h₁ => ?_
  obtain ⟨hs₁, hg₁⟩ := h₁
  have ht₁ := ht.of_steady hs₁ hg₁
  split
  · exact leaves_of_returns ht₁ (returns_failRun ht₁.steady (hs₁.seen hseen))
  · exact ht₁

theorem leaves_resumeAtPort (ht : Tidy x) : Leaves env (resumeAtPort env nodeId port) x := by
  refine leaves_plain rfl ht fun _ run _ ht => ?_
  split
  · exact ht
  rename_i row hrow
  have hseen : (x.1.seen || run.isSome) = true := seen_of_filter hrow
  refine leaves_plain rfl ht fun _ workflow _ ht => ?_
  split
  · exact obeys_bind (leaves_finalizeRun rfl ht) fun _ _ h => h
  refine leaves_create rfl hfresh ht fun _ _ ht => ?_
  refine obeys_perform_bind trivial fun v claimed _ => ?_
  have ht := tidy_running ht v claimed
  split
  · exact obeys_bind (leaves_followResumed hseen ht) fun _ _ h => h
  · exact ht

end Fresh

theorem leaves_finalizeLive (hstate : state.isTerminal = true) (ht : Tidy x) :
    Leaves env (finalizeLive state reason) x := by
  refine leaves_plain rfl ht fun _ run _ ht => ?_
  split
  · exact obeys_bind (leaves_finalizeRun hstate ht) fun _ _ h => h
  · exact ht

/-! ## Jobs -/

/-- A commit lets go of the run row. -/
theorem ended_commit (ht : Tidy x) (v : Option RunRow) (r : Unit) :
    Ended (x.after v .commit r) () :=
  ⟨⟨ht.owed, nofun, ht.counted, ht.guarded⟩, rfl⟩

theorem conducts_commit (ht : Tidy x)
    (h : ∀ v r, Ended (x.after v .commit r) () → Conducts env post (f r) (x.after v .commit r)) :
    Conducts env post (perform .commit >>= f) x :=
  obeys_perform_bind ⟨ht.owed, ht.swept⟩ fun v r _ => h v r (ended_commit ht v r)

/-- What comes after the commit is plain. -/
theorem ended_of_uses {p : Engine Unit} (hp : Uses plain p) (h : Ended x ()) :
    Conducts env Ended p x := by
  refine Obeys.mono (fun _ _ h => h) ?_
    (obeys_of_uses (P := fun x => Ended x ()) (fun x o ho _ => proper_of_plain ho x) ?_ hp h)
  · exact fun _ _ h => h
  intro x v o r ho _ h
  obtain ⟨hs, hg⟩ := plain_steady h.1.steady h.1.guarded ho v r
  refine ⟨h.1.of_steady hs hg, ?_⟩
  have hown : (o.record x.1 v r).own = x.1.own := by
    cases o with
    | ctx o | redis o | queue o | audit o => cases o <;> rfl
    | run o =>
      cases o with
      | get => rfl
      | _ => cases ho
    | step o => cases o <;> cases ho
    | service => rfl
    | commit | diverge => cases ho
  exact hown.trans h.2

theorem uses_dispatchEnqueues : Uses plain dispatchEnqueues :=
  uses_perform_bind rfl (uses_dispatchLoop rfl)

theorem uses_restoreAndRetry : Uses plain (restoreAndRetry key claim attempt again) := by
  refine uses_perform_bind rfl fun _ => ?_
  split
  · exact uses_perform rfl
  · trivial

theorem ended_commitAndDispatch (ht : Tidy x) : Conducts env Ended commitAndDispatch x :=
  conducts_commit ht fun _ _ h => ended_of_uses uses_dispatchEnqueues h

theorem ended_giveBack (ht : Tidy x) : Conducts env Ended (giveBack key claim attempt again) x := by
  refine conducts_commit ht fun _ _ h => ended_of_uses ?_ h
  refine uses_perform_bind rfl fun run => ?_
  dsimp only
  split
  · trivial
  · exact uses_restoreAndRetry

theorem ended_resumeClaimed {reason : String} (hfresh : x.1.entered = []) (ht : Tidy x) :
    Conducts env Ended (resumeClaimed env key claim nodeId port reason attempt again) x := by
  refine obeys_bind (leaves_resumeAtPort hfresh ht) fun x₁ resumed ht => ?_
  split
  · exact leaves_plain rfl ht fun _ _ _ ht => ended_commitAndDispatch ht
  · exact ended_giveBack ht

/-- Storing the output of an instruction claims no step. -/
theorem leaves_storeOnSuccess (hfresh : x.1.entered = []) (ht : Tidy x) :
    Conducts env (fun x' _ => Tidy x' ∧ x'.1.entered = []) (storeOnSuccess port nodeId id) x := by
  unfold storeOnSuccess
  split
  · refine leaves_plain rfl ht fun _ run _ ht => ?_
    split
    · exact ⟨ht, hfresh⟩
    refine leaves_plain rfl ht fun _ workflow _ ht => ?_
    split
    · exact ⟨ht, hfresh⟩
    dsimp only
    split
    · exact ⟨ht, hfresh⟩
    refine leaves_create rfl hfresh ht fun _ _ ht => ?_
    refine leaves_plain rfl ht fun _ _ _ ht => ?_
    refine leaves_plain rfl ht fun _ ctx _ ht => ?_
    refine obeys_perform_bind trivial fun v updated hc => ?_
    obtain ⟨-, hupdated, -⟩ := hc
    exact ⟨⟨congrArg List.tail ht.owed, swept_of_updateVariables ht.swept hupdated,
      ht.counted, ht.guarded⟩, hfresh⟩
  · exact ⟨ht, hfresh⟩

variable {park : ℕ} (hx : Ended x ())

include hx

theorem ended_instructTimeout : Conducts env Ended (workflowInstructTimeout id) x := by
  refine leaves_plain rfl hx.1 fun _ marked _ ht => ?_
  split
  · exact ⟨ht, hx.2⟩
  · exact conducts_commit ht fun _ _ h => ended_of_uses (uses_perform rfl) h

variable (hfresh : x.1.entered = [])

include hfresh

theorem ended_eventTimeout :
    Conducts env Ended (workflowEventTimeout env nodeId attempt park) x := by
  refine leaves_plain rfl hx.1 fun _ claimed _ ht => ?_
  split
  · exact ⟨ht, hx.2⟩
  refine obeys_bind (leaves_resumeAtPort hfresh ht) fun x₁ resumed ht => ?_
  have hemit : Leaves env (emitIfResumed resumed nodeId "timeout") x₁ := by
    unfold emitIfResumed
    split
    · exact leaves_of_returns ht (returns_of_uses ht.steady ht.guarded (uses_perform rfl))
    · exact ht
  refine obeys_bind hemit fun x₂ _ ht => conducts_commit ht fun _ _ h => ?_
  refine ended_of_uses ?_ h
  split
  · exact uses_dispatchEnqueues
  · refine uses_perform_bind rfl fun run => ?_
    dsimp only
    split
    · exact uses_dispatchEnqueues
    · exact uses_restoreAndRetry

theorem ended_eventResume : Conducts env Ended (workflowEventResume env nodeId attempt) x := by
  refine leaves_plain rfl hx.1 fun _ claimed _ ht => ?_
  split
  · exact ⟨ht, hx.2⟩
  · exact ended_resumeClaimed hfresh ht

theorem ended_resumeApproval : Conducts env Ended (workflowResumeApproval env id attempt) x := by
  refine leaves_plain rfl hx.1 fun _ present _ ht => ?_
  split
  · exact ⟨ht, hx.2⟩
  refine leaves_plain rfl ht fun _ approval _ ht => ?_
  split
  · exact ended_of_uses (uses_perform rfl) ⟨ht, hx.2⟩
  · split
    · exact ended_of_uses (uses_perform rfl) ⟨ht, hx.2⟩
    · exact ⟨ht, hx.2⟩
  · refine leaves_plain rfl ht fun _ votes _ ht => ?_
    refine leaves_plain rfl ht fun _ claimed _ ht => ?_
    split
    · exact ⟨ht, hx.2⟩
    · exact ended_resumeClaimed hfresh ht

theorem ended_resumeInstruct : Conducts env Ended (workflowResumeInstruct env id attempt) x := by
  refine leaves_plain rfl hx.1 fun _ present _ ht => ?_
  split
  · exact ⟨ht, hx.2⟩
  refine leaves_plain rfl ht fun _ instruction _ ht => ?_
  split
  · exact ended_of_uses (uses_perform rfl) ⟨ht, hx.2⟩
  split
  · exact ⟨ht, hx.2⟩
  · refine leaves_plain rfl ht fun _ claimed _ ht => ?_
    split
    · exact ⟨ht, hx.2⟩
    · refine obeys_bind (leaves_storeOnSuccess hfresh ht) fun x₁ _ h₁ => ?_
      exact ended_resumeClaimed h₁.2 h₁.1

end Programs

/-! ## The system -/

variable {env : Services}

/-- A continuation that has done nothing but start. -/
theorem ended_of_blank (howed : x.2.owed = []) (hown : x.1.own = none) (hentered : x.1.entered = [])
    (hexecuted : x.1.executed = []) (hvisits : x.1.ctx.nodeVisitCounts = fun _ => 0) :
    Ended x () := by
  refine ⟨⟨howed, fun h => ?_, fun n => ?_, fun n h => ?_⟩, hown⟩
  · simp [ended, hown] at h
  · simp [hentered, hexecuted]
  · simp [hvisits] at h

theorem ended_jobProgram (job : Job) :
    Conducts env Ended (jobProgram env job) (ofJob job, empty) := by
  have hx : Ended (ofJob job, empty) () := ended_of_blank rfl rfl rfl rfl rfl
  cases job with
  | runWorkflowStep =>
    exact obeys_bind (leaves_runStep rfl hx.1) fun _ _ ht => ended_commitAndDispatch ht
  | retryWorkflowNode =>
    exact obeys_bind (leaves_retryNode rfl hx.1) fun _ _ ht => ended_commitAndDispatch ht
  | workflowVariableSignal => exact hx
  | workflowEventTimeout => exact ended_eventTimeout hx rfl
  | workflowEventResume => exact ended_eventResume hx rfl
  | workflowResumeApproval => exact ended_resumeApproval hx rfl
  | workflowResumeInstruct => exact ended_resumeInstruct hx rfl
  | workflowInstructTimeout => exact ended_instructTimeout hx

theorem ended_byHand {state : RunState} {reason : Option String}
    (hstate : state.isTerminal = true) :
    Conducts env Ended (do finalizeLive state reason; commitAndDispatch) (blank, empty) := by
  have hx : Ended (blank, empty) () := ended_of_blank rfl rfl rfl rfl rfl
  exact obeys_bind (leaves_finalizeLive hstate hx.1) fun _ _ ht => ended_commitAndDispatch ht

/-- The failure marker sweeps the run it has ended, like `_finalize_run`. -/
theorem ended_markRunFailedIsolated : Conducts env Ended markRunFailedIsolated (blank, empty) := by
  refine obeys_perform_bind trivial fun v changed _ => ?_
  have hx : Tidy (blank, empty) :=
    (ended_of_blank rfl rfl rfl rfl rfl).1
  have hg : ∀ {b}, Guarded (blank, b) := fun n h => absurd h (Nat.not_lt_zero _)
  cases changed with
  | true =>
    refine obeys_perform_bind rfl fun _ _ _ => ?_
    refine obeys_perform ⟨rfl, fun _ => rfl⟩ fun v r _ => ?_
    exact ⟨⟨rfl, nofun, hx.counted, hg⟩, rfl⟩
  | false =>
    refine obeys_perform ⟨rfl, nofun⟩ fun v r _ => ?_
    exact ⟨⟨rfl, nofun, hx.counted, hg⟩, rfl⟩

/-- **Whatever is started from outside conducts itself.** -/
theorem conducts_started (e : Outside) (w w' : World) (new : List (Booked × Engine Unit))
    (h : (bookMachine env).env e w = some (w', new)) :
    ∀ t ∈ new, Conducts env Ended t.2 t.1 := by
  intro t ht
  obtain ⟨new', henv, rfl⟩ := env_withHistory bookkeeping h
  obtain ⟨t', ht', rfl⟩ := mem_map.mp ht
  obtain ⟨job, rfl, -⟩ | rfl | ⟨reason, rfl⟩ | rfl := Outside.act_starts henv ht'
  · exact ended_jobProgram job
  · exact ended_byHand rfl
  · exact ended_byHand rfl
  · exact ended_markRunFailedIsolated

abbrev BookPool := Pool Op Op.Res Booked World

/-- Every continuation conducts itself. -/
abbrev Conducted (env : Services) (q : BookPool) : Prop :=
  Good (bookDiscipline env) Proper Ended q

/-- The start of a run, with the history of its first continuation. -/
def bookInitial (env : Services) (start : Start) : BookPool where
  world := World.initial start.definition
  tasks := (initialPool env start).tasks.map fun t =>
    ⟨(t.loc, { empty with loaded := some start.definition }), t.prog⟩

@[simp] theorem forget_bookInitial (start : Start) :
    (bookInitial env start).forget = initialPool env start := rfl

theorem conducted_bookInitial (start : Start) : Conducted env (bookInitial env start) := by
  refine ⟨fun i => ?_, fun t ht => ?_⟩
  · have hsound : Sound env (initialPool env start) := sound_initialPool start
    have hlink := hsound.linked i
    cases i with
    | zero | succ => exact ⟨hlink, nofun, nofun⟩
  · obtain rfl := mem_singleton.mp ht
    have hx : Ended (starting, { empty with loaded := some start.definition }) () :=
      ended_of_blank rfl rfl rfl rfl rfl
    exact obeys_bind (leaves_startRun rfl rfl hx.1) fun _ _ ht => ended_commitAndDispatch ht

/-- **Invariants of runs, with the histories at hand.**  Every pool of a run is one with
histories, forgotten. -/
theorem run_invariant_of_conducted {cond : RunMove → RunPool → Prop} (Inv : BookPool → Prop)
    (hstep : ∀ m q q', Conducted env q → Inv q → cond m q.forget →
      step (bookMachine env) m q = some q' → Inv q')
    {start : Start} {ms : List RunMove} {p : RunPool} (hinit : Inv (bookInitial env start))
    (hall : AllSteps (machine env) cond ms (initialPool env start))
    (hrun : run (machine env) ms (initialPool env start) = some p) :
    ∃ q, run (bookMachine env) ms (bookInitial env start) = some q ∧ q.forget = p ∧
      Conducted env q ∧ Inv q := by
  obtain ⟨q, hq, hforget⟩ := exists_run_withHistory bookkeeping (q := bookInitial env start) hrun
  refine ⟨q, hq, hforget, ?_⟩
  exact Good.run_invariant Inv conducts_started hstep
    (allSteps_withHistory bookkeeping ms (bookInitial env start) hall)
    (conducted_bookInitial start) hinit hq

end Smap.Workflow
