import Smap.Turns.RunTurn

/-!
# What the calls keep to

A call pops and re-checks only with the lock, drains only after it, and whatever trigger it has
taken it serves, enqueues, parks again or commits before it ends.  `Ok` says this of the steps
of a call, in terms of what is noted of the steps before.
-/

namespace Smap.Turns

open Smap.Program List

/-- What holds before a step of a call. -/
def Ok (call : Call) (l : Notes) : Op → Prop
  | .acquire => l.lock = false ∧ l.drains = false ∧ l.hand = false ∧ l.claim = none
  | .release => l.lock = true ∧ l.hand = false ∧ l.claim = none
  | .markTriggerQueued attempt _ messageId => messageId = call.triggerMessageId ∧
      l.retries = false ∧ (attempt = 0 ∨ l.marked = true)
  | .popQueuedTrigger .retry => l.lock = true ∧ l.running = false ∧ l.hand = false ∧
      l.claim = none
  | .popQueuedTrigger .recheck => l.lock = true ∧ l.running = true ∧ l.hand = false ∧
      l.claim = none ∧ l.rechecked = false
  | .popQueuedTrigger .drain => l.lock = false ∧ l.drains = true ∧ l.hand = false ∧
      l.claim = none
  | .recordCovered _ => l.claim = some []
  | .forgetCovered shown => ∃ s, l.claim = some s ∧ s ⊆ shown
  | .reparkQueuedTrigger _ => l.lock = true ∧ l.running = true
  | .enqueue _ => l.hand = true ∧ l.running = false
  | .start _ => l.lock = true
  | .returns r => r = .locked → l.marked = true
  | _ => True

/-- Nothing is owed. -/
structure Idle (l : Notes) : Prop where
  drains : l.drains = false
  hand : l.hand = false
  claim : l.claim = none
  retries : l.retries = false

section Rules

variable {call : Call} {α β : Type} {l : Notes}

/-- A part of a call meets the obligations, and what holds of its result. -/
def Does (call : Call) (x : Script α) (l : Notes) (post : Notes → α → Prop) : Prop :=
  Obeys (free machine {}) (Ok call) post x l

variable {post : Notes → β → Prop} {o : Op}

theorem does_bind {x : Script α} {f : α → Script β} {mid : Notes → α → Prop}
    (hx : Does call x l mid) (hf : ∀ l a, mid l a → Does call (f a) l post) :
    Does call (x >>= f) l post :=
  obeys_bind hx hf

/-- One step, then the rest. -/
theorem does_step {f : Answer o → Script β} (hok : Ok call l o)
    (h : ∀ a, Does call (f a) (note l o a) post) : Does call (perform o >>= f) l post :=
  obeys_perform_bind hok fun _ a _ => h a

theorem does_perform {post : Notes → Answer o → Prop} (hok : Ok call l o)
    (h : ∀ a, post (note l o a) a) : Does call (perform o) l post :=
  obeys_perform hok fun _ a _ => h a

end Rules

/-! ## A turn -/

section Turn

variable {call : Call} {l : Notes}

/-- A turn that is running, and has this claim. -/
structure Running (claim : Option (List MessageId)) (l : Notes) : Prop where
  lock : l.lock = true
  drains : l.drains = true
  running : l.running = true
  hand : l.hand = false
  claim : l.claim = claim
  retries : l.retries = false

variable {s : List MessageId} {claim : RecheckClaim}

theorem does_releaseRecheckClaim (h : Running (some s) l) (hs : s ⊆ claim.shown) :
    Does call (releaseRecheckClaim claim) l fun l _ => Running none l := by
  refine does_step ⟨s, h.claim, hs⟩ fun _ => ?_
  refine does_perform ⟨h.lock, h.running⟩ fun _ => ?_
  exact ⟨h.lock, h.drains, h.running, rfl, rfl, h.retries⟩

/-- What a re-check leaves: its claim, or none. -/
def Rechecked (l : Notes) (r : Except Unit (Option RecheckClaim)) : Prop :=
  match r with
  | .ok (some claim) => Running (some claim.shown) l
  | _ => Running none l

theorem does_giveUp (h : Running (some s) l) (hs : s ⊆ claim.shown) (recoverable : Bool) :
    Does call (giveUp claim recoverable) l Rechecked := by
  refine does_bind (does_releaseRecheckClaim h hs) fun l' _ hl' => ?_
  cases recoverable <;> exact hl'

theorem does_showFresh (h : Running (some []) l) (seen : List MessageId) :
    Does call (showFresh seen claim) l Rechecked := by
  refine does_step trivial fun labels => ?_
  match labels with
  | .error recoverable => exact does_giveUp h (nil_subset _) recoverable
  | .ok () =>
  refine does_step h.claim fun _ => ?_
  have h' : Running (some claim.shown) (note l (.recordCovered claim.shown) ()) :=
    ⟨h.lock, h.drains, h.running, h.hand, rfl, h.retries⟩
  refine does_step trivial fun streamed => ?_
  match streamed with
  | .error recoverable => exact does_giveUp h' (List.Subset.refl _) recoverable
  | .ok outcome =>
    by_cases hfailed : (outcome.synthesisFailed && outcome.readOnly) = true
    · simp only [hfailed, ↓reduceIte]
      exact does_bind (does_releaseRecheckClaim h' (List.Subset.refl _)) fun _ _ hl' => hl'
    simp only [hfailed]
    by_cases hunseen : (claim.parked.messageId.any fun m =>
        decide (m ∉ claim.shown) && decide (m ∉ seen)) = true
    · simp only [hunseen, ↓reduceIte]
      refine does_step ⟨h'.lock, h'.running⟩ fun _ => ?_
      exact ⟨h'.lock, h'.drains, h'.running, rfl, h'.claim, h'.retries⟩
    · simp only [hunseen]
      exact h'

theorem does_recheckReply (h : Running none l) (hfirst : l.rechecked = false)
    (seen : List MessageId) : Does call (recheckReply seen) l Rechecked := by
  refine does_step ⟨h.lock, h.running, h.hand, h.claim, hfirst⟩ fun q => ?_
  match q with
  | none => exact ⟨h.lock, h.drains, h.running, h.hand, rfl, h.retries⟩
  | some parked =>
    have h' : Running (some []) (note l (.popQueuedTrigger .recheck) (some parked)) :=
      ⟨h.lock, h.drains, h.running, h.hand, rfl, h.retries⟩
    refine does_step trivial fun rows => ?_
    match rows with
    | .error recoverable => exact does_giveUp h' (nil_subset _) recoverable
    | .ok rows =>
      by_cases hfresh :
          (rows.filter fun h => decide (h.id ∉ seen) && !h.own).isEmpty = true
      · simp only [hfresh, ↓reduceIte]
        exact does_bind (does_releaseRecheckClaim h' (nil_subset _)) fun _ _ hl' => hl'
      · simp only [hfresh]
        exact does_showFresh h' seen

theorem does_recheck (h : Running none l) (hfirst : l.rechecked = false) (seen : List MessageId)
    (recheckable : Bool) : Does call (recheck seen recheckable) l Rechecked := by
  cases recheckable with
  | false => exact h
  | true =>
    refine does_step trivial fun parked => ?_
    cases parked with
    | false => exact h
    | true => exact does_recheckReply h hfirst seen

/-- Before a turn starts. -/
structure Ready (l : Notes) : Prop where
  lock : l.lock = true
  drains : l.drains = true
  claim : l.claim = none
  rechecked : l.rechecked = false
  retries : l.retries = false

theorem does_runLocked (h : Ready l) (run : Run) :
    Does call (runLocked run) l fun l _ => Running none l := by
  have h' : Running none (note l (.start run) ()) :=
    ⟨h.lock, h.drains, rfl, rfl, h.claim, h.retries⟩
  refine does_step h.lock fun _ => does_step trivial fun prepared => ?_
  match prepared with
  | .raised => exact h'
  | .ended o => exact h'
  | .drafted seen recheckable =>
    refine does_bind (does_recheck h' h.rechecked seen recheckable) fun l' r hr => ?_
    match r with
    | .error () => exact hr
    | .ok none =>
      refine does_step trivial fun committed => ?_
      cases committed with
      | true => exact ⟨hr.lock, hr.drains, hr.running, hr.hand, rfl, hr.retries⟩
      | false => exact hr
    | .ok (some claim) =>
      refine does_step trivial fun committed => ?_
      cases committed with
      | true => exact ⟨hr.lock, hr.drains, hr.running, hr.hand, rfl, hr.retries⟩
      | false =>
        exact does_bind (does_releaseRecheckClaim hr (List.Subset.refl _))
          fun _ _ hl' => hl'

end Turn

/-! ## The calls -/

section Calls

variable {call : Call} {l : Notes}

/-- Before a drain. -/
structure Draining (l : Notes) : Prop where
  lock : l.lock = false
  drains : l.drains = true
  hand : l.hand = false
  claim : l.claim = none
  retries : l.retries = false
  running : l.running = false

/-- A drain ends with nothing owed, and forgets no mark. -/
theorem does_drainQueuedTrigger (h : Draining l) :
    Does call drainQueuedTrigger l fun l' _ => Idle l' ∧ l'.marked = l.marked := by
  refine does_step trivial fun notice => ?_
  refine does_step ⟨h.lock, h.drains, h.hand, h.claim⟩ fun q => ?_
  cases q with
  | none => exact ⟨⟨rfl, rfl, h.claim, h.retries⟩, rfl⟩
  | some =>
    refine does_perform ⟨rfl, h.running⟩ fun _ => ?_
    exact ⟨⟨rfl, rfl, h.claim, h.retries⟩, rfl⟩

theorem does_serve (h : Ready l) (run : Run) : Does call (serve run) l fun l _ => Idle l := by
  refine does_bind (does_runLocked h run) fun l' r hr => ?_
  refine does_step ⟨hr.lock, hr.hand, hr.claim⟩ fun _ => ?_
  have hdrain : Draining (note l' .release ()) :=
    ⟨rfl, hr.drains, hr.hand, hr.claim, hr.retries, rfl⟩
  refine does_bind (does_drainQueuedTrigger hdrain) fun l' _ hl' => ?_
  cases r with
  | some => exact does_perform nofun fun _ => hl'.1
  | none => exact hl'.1

/-- A call that has not had the lock. -/
structure Waiting (marked retries : Bool) (l : Notes) : Prop where
  lock : l.lock = false
  drains : l.drains = false
  hand : l.hand = false
  claim : l.claim = none
  rechecked : l.rechecked = false
  running : l.running = false
  marked : l.marked = marked
  retries : l.retries = retries

theorem does_park {attempt : ℕ} {marked : Bool} (h : Waiting marked false l)
    (hattempt : attempt = 0 ∨ marked = true) :
    Does call (park attempt call) l fun l' _ => Waiting true (decide (attempt = 0)) l' := by
  have hmark : Does call
      (do let _ ← perform (.markTriggerQueued attempt call.trigger call.triggerMessageId)) l
      fun l' _ => Waiting true (decide (attempt = 0)) l' := by
    refine does_step ⟨rfl, h.retries, by rwa [h.marked]⟩ fun _ => ?_
    exact ⟨h.lock, h.drains, h.hand, h.claim, h.rechecked, h.running, rfl, rfl⟩
  unfold park
  split
  · split
    · exact does_step trivial fun _ => hmark
    · exact hmark
  · exact hmark

/-- The second try has the lock. -/
structure Retrying (l : Notes) : Prop where
  lock : l.lock = true
  drains : l.drains = true
  hand : l.hand = false
  claim : l.claim = none
  rechecked : l.rechecked = false
  running : l.running = false
  retries : l.retries = false
  marked : l.marked = true

theorem does_retry (h : Retrying l) : Does call (retry call) l fun l _ => Idle l := by
  refine does_step ⟨h.lock, h.running, h.hand, h.claim⟩ fun q => ?_
  match q with
  | none =>
    refine does_step ⟨h.lock, rfl, h.claim⟩ fun _ => ?_
    have hdrain : Draining (note (note l (.popQueuedTrigger .retry) none) .release ()) :=
      ⟨rfl, h.drains, rfl, h.claim, h.retries, rfl⟩
    refine does_bind (does_drainQueuedTrigger hdrain) fun l' _ hl' => ?_
    exact does_perform (fun _ => hl'.2.trans h.marked) fun _ => hl'.1
  | some parked =>
    refine does_step trivial fun notice => ?_
    exact does_serve ⟨h.lock, h.drains, h.claim, h.rechecked, h.retries⟩ _

theorem does_tries (h : Waiting false false l) :
    Does call (tries call) l fun l _ => Idle l := by
  refine does_step ⟨h.lock, h.drains, h.hand, h.claim⟩ fun got => ?_
  cases got with
  | true =>
    have hready : Ready (note l .acquire true) := ⟨rfl, rfl, h.claim, h.rechecked, rfl⟩
    exact does_serve hready _
  | false =>
    have h' : Waiting false false (note l .acquire false) :=
      ⟨rfl, rfl, h.hand, h.claim, h.rechecked, h.running, h.marked, rfl⟩
    refine does_bind (does_park h' (.inl rfl)) fun l₁ _ h₁ => ?_
    refine does_step ⟨h₁.lock, h₁.drains, h₁.hand, h₁.claim⟩ fun got => ?_
    cases got with
    | true =>
      exact does_retry ⟨rfl, rfl, h₁.hand, h₁.claim, h₁.rechecked, h₁.running, rfl, h₁.marked⟩
    | false =>
      have h₂ : Waiting true false (note l₁ .acquire false) :=
        ⟨rfl, rfl, h₁.hand, h₁.claim, h₁.rechecked, h₁.running, h₁.marked, rfl⟩
      refine does_bind (does_park h₂ (.inr rfl)) fun l₃ _ h₃ => ?_
      refine does_perform (fun _ => h₃.marked) fun _ => ?_
      exact ⟨h₃.drains, h₃.hand, h₃.claim, h₃.retries⟩

/-- **Every call meets its obligations**, and owes nothing at its end. -/
theorem does_runTurn (call : Call) : Does call (runTurn call) {} fun l _ => Idle l := by
  have h : Waiting false false {} := ⟨rfl, rfl, rfl, rfl, rfl, rfl, rfl, rfl⟩
  cases hm : call.triggerMessageId with
  | none =>
    simp only [runTurn, hm]
    exact does_tries h
  | some =>
    simp only [runTurn, hm]
    refine does_step trivial fun covered => ?_
    cases covered with
    | true => exact does_perform nofun fun _ => ⟨rfl, rfl, rfl, rfl⟩
    | false => exact does_tries h

end Calls

/-- The obligations of each place. -/
def oks (calls : List Call) (i : ℕ) (l : Notes) (o : Op) : Prop :=
  ∃ call, calls[i]? = some call ∧ Ok call l o

/-- What each place owes at its end. -/
def posts (_ : ℕ) (l : Notes) (_ : Unit) : Prop := Idle l

theorem obeyed_start (w : World) (calls : List Call) :
    Obeyed machine {} (oks calls) posts (start w calls) := by
  apply obeyed_launch
  intro i p hp
  rw [getElem?_map, Option.map_eq_some_iff] at hp
  obtain ⟨call, hcall, rfl⟩ := hp
  exact Obeys.mono (fun _ _ ho => ⟨call, hcall, ho⟩) (fun _ _ hl => hl) (does_runTurn call)

/-- **Invariants of the calls**: what a step of a call keeps, if it meets its obligations and a
condition on the schedule, holds in every state that is reached. -/
theorem invariant_of_run {R : (ℕ → Notes) → World → Prop}
    {C : ℕ → Input → (ℕ → Notes) → Op → World → Prop} {w₀ : World} {calls : List Call}
    {ms : List (Move Input Empty)} {p : Pool Op Answer Notes World}
    (hstep : ∀ N w i o input, oks calls i (N i) o → C i input N o w → R N w →
      R (Function.update N i (note (N i) o (act i o input w).1)) (act i o input w).2)
    (hall : AllSteps machine (atRecords {} C fun _ _ _ => True) ms (start w₀ calls))
    (hstart : R (fun _ => {}) w₀) (hrun : run machine ms (start w₀ calls) = some p) :
    Obeyed machine {} (oks calls) posts p ∧ R (p.locOf {}) p.world := by
  refine records_invariant ?_ (fun _ _ e => nomatch e) hall (obeyed_start w₀ calls) ?_ hrun
  · intro N w i o input r w' hok hC hR hact
    obtain ⟨rfl, rfl⟩ := Prod.mk.inj (Option.some.inj hact)
    exact hstep N w i o input hok hC hR
  · have hblank : (start w₀ calls).locOf {} = fun _ => {} :=
      funext fun i => locOf_launch ({} : Notes) w₀ _ i
    rw [hblank]
    exact hstart

/-- When all calls are over, no call owes anything. -/
theorem idle_of_finished {calls : List Call} {p : Pool Op Answer Notes World}
    (hobeyed : Obeyed machine {} (oks calls) posts p) (hdone : p.tasks.all Task.finished = true)
    (i : ℕ) : Idle (p.locOf {} i) := by
  cases ht : p.tasks[i]? with
  | none =>
    rw [Pool.locOf_of_length_le (List.getElem?_eq_none_iff.mp ht)]
    exact ⟨rfl, rfl, rfl, rfl⟩
  | some t =>
    rw [Pool.locOf_of_getElem? ht]
    exact hobeyed.post ht (all_eq_true.mp hdone t (mem_of_getElem? ht))

end Smap.Turns
