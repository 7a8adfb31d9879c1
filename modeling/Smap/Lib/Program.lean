import Mathlib.Logic.Relation
import Mathlib.Data.List.GetD

/-!
# Programs that interleave

Sequential programs over a set of atomic operations, and a pool of tasks that run such
programs side by side on a shared world.  Each task has a private record; a `Machine`
says what an operation does to the world (`act`) and what the task notes down about it
(`record`), and which moves come from outside (`env`), among them the start of tasks.

A program is reasoned about alone, over its private record only.  `Obeys` follows a
program through every answer its operations may give, constrained by nothing but the
`coherent` relation of a `Discipline`; the discipline's `link` ties the private record to
the shared world, and is what the others must leave intact.  `Good.step` turns this into
a fact about every pool reached by any schedule, and `Exec.post` into one about a single
program run among arbitrary others.

## Main definitions

* `Prog` — programs; `perform` — a single operation.
* `Machine`, `Task`, `Pool`, `Move`, `step`, `run` — tasks on a shared world.
* `AllSteps` — every step of a schedule meets a condition.
* `Discipline`, `Obeys`, `Good` — obligations and results of programs.
* `Prog.Only` — a condition on the operations of a program, whatever their answers.
* `Interferes`, `Exec` — one program among others.
-/

namespace Smap.Program

open List

/-- A program: a value, or an operation and what follows each of its answers. -/
inductive Prog (Op : Type) (Res : Op → Type) (α : Type) where
  | pure (a : α)
  | op (o : Op) (k : Res o → Prog Op Res α)

variable {Op α β : Type} {Res : Op → Type}

namespace Prog

/-- Sequence two programs. -/
def bind : Prog Op Res α → (α → Prog Op Res β) → Prog Op Res β
  | .pure a, f => f a
  | .op o k, f => .op o fun r => (k r).bind f

instance : Monad (Prog Op Res) where
  pure := .pure
  bind := bind

/-- A single operation. -/
def perform (o : Op) : Prog Op Res (Res o) := .op o .pure

end Prog

variable {L W V I E : Type}

/-- What operations do.  `view` is the part of the world a task can tell apart, `act` is
`none` while the operation has to wait, and `env` lists the moves from outside together
with the tasks they start. -/
structure Machine (Op : Type) (Res : Op → Type) (L W V I E : Type) where
  view : ℕ → W → V
  record : L → V → (o : Op) → Res o → L
  act : ℕ → (o : Op) → I → L → W → Option (Res o × W)
  env : E → W → Option (W × List (L × Prog Op Res Unit))

/-- A task: its private record and the rest of its program. -/
structure Task (Op : Type) (Res : Op → Type) (L : Type) where
  loc : L
  prog : Prog Op Res Unit

/-- The task has nothing left to do. -/
def Task.finished (t : Task Op Res L) : Bool :=
  match t.prog with
  | .pure _ => true
  | .op _ _ => false

/-- Tasks on a shared world.  A task keeps its place when it is done. -/
structure Pool (Op : Type) (Res : Op → Type) (L W : Type) where
  world : W
  tasks : List (Task Op Res L)

/-- A move of the schedule: one operation of a task, or a move from outside. -/
inductive Move (I E : Type) where
  | step (i : ℕ) (input : I)
  | env (e : E)

variable {i : ℕ} {p p' : Pool Op Res L W} {l : L} {w : W}
  {cond cond' : Move I E → Pool Op Res L W → Prop} {m : Move I E} {ms : List (Move I E)} {l' : L}
  {w' : W}

/-- Whoever is not the task that has been replaced is still there. -/
theorem eq_or_mem_set {ts : List (Task Op Res L)} {t u : Task Op Res L} (ht : ts[i]? = some t)
    (t' : Task Op Res L) (hu : u ∈ ts) : u = t ∨ u ∈ ts.set i t' := by
  obtain ⟨j, hj⟩ := getElem?_of_mem hu
  by_cases hij : i = j
  · subst hij
    exact .inl (Option.some.inj (hj.symm.trans ht))
  · refine .inr (mem_of_getElem? (i := j) ?_)
    rwa [getElem?_set_ne hij]

variable {t : Task Op Res L}

namespace Pool

/-- The private record at an index, blank where no task has been started yet. -/
def locOf (blank : L) (p : Pool Op Res L W) (i : ℕ) : L :=
  (p.tasks[i]?.map Task.loc).getD blank

variable {blank : L} {t' : Task Op Res L} {ts : List (Task Op Res L)}

theorem locOf_of_getElem? (h : p.tasks[i]? = some t) : p.locOf blank i = t.loc := by
  simp [locOf, h]

theorem locOf_of_length_le (h : p.tasks.length ≤ i) : p.locOf blank i = blank := by
  simp [locOf, h]

theorem locOf_set_self (h : ts[i]? = some t) :
    (⟨w, ts.set i t'⟩ : Pool Op Res L W).locOf blank i = t'.loc := by
  have hi := (List.getElem?_eq_some_iff.mp h).1
  simp [locOf, hi]

theorem locOf_set_of_ne (w' : W) {j : ℕ} (h : i ≠ j) :
    (⟨w, ts.set i t'⟩ : Pool Op Res L W).locOf blank j =
      (⟨w', ts⟩ : Pool Op Res L W).locOf blank j := by
  simp [locOf, getElem?_set_ne h]

/-- Started tasks take fresh indices. -/
theorem locOf_append (blank : L) (w' : W) (ts new : List (Task Op Res L)) (i : ℕ) :
    (⟨w, ts ++ new⟩ : Pool Op Res L W).locOf blank i =
        (⟨w', ts⟩ : Pool Op Res L W).locOf blank i ∨
      (⟨w', ts⟩ : Pool Op Res L W).locOf blank i = blank ∧
        ∃ t ∈ new, (⟨w, ts ++ new⟩ : Pool Op Res L W).locOf blank i = t.loc := by
  by_cases hi : i < ts.length
  · exact .inl (by simp [locOf, getElem?_append_left hi])
  have hblank : (⟨w', ts⟩ : Pool Op Res L W).locOf blank i = blank :=
    locOf_of_length_le (Nat.not_lt.mp hi)
  cases hnew : new[i - ts.length]? with
  | none =>
    refine .inl ?_
    rw [hblank, locOf, getElem?_append_right (Nat.not_lt.mp hi), hnew]
    rfl
  | some t =>
    refine .inr ⟨hblank, t, mem_of_getElem? hnew, ?_⟩
    rw [locOf, getElem?_append_right (Nat.not_lt.mp hi), hnew]
    rfl

end Pool

/-! ## Schedules -/

/-- Task `i` performs its next operation. -/
def stepTask (M : Machine Op Res L W V I E) (i : ℕ) (input : I) (p : Pool Op Res L W) :
    Option (Pool Op Res L W) :=
  match p.tasks[i]? with
  | none => none
  | some t =>
    match t.prog with
    | .pure _ => none
    | .op o k =>
      match M.act i o input t.loc p.world with
      | none => none
      | some (r, w) =>
        some ⟨w, p.tasks.set i ⟨M.record t.loc (M.view i p.world) o r, k r⟩⟩

/-- One move of the schedule; `none` when it is not possible. -/
def step (M : Machine Op Res L W V I E) :
    Move I E → Pool Op Res L W → Option (Pool Op Res L W)
  | .step i input, p => stepTask M i input p
  | .env e, p =>
    match M.env e p.world with
    | none => none
    | some (w, new) => some ⟨w, p.tasks ++ new.map fun t => ⟨t.1, t.2⟩⟩

/-- A whole schedule. -/
def run (M : Machine Op Res L W V I E) :
    List (Move I E) → Pool Op Res L W → Option (Pool Op Res L W)
  | [], p => some p
  | m :: ms, p =>
    match step M m p with
    | none => none
    | some p' => run M ms p'

/-- Every step the schedule takes from the pool meets the condition. -/
def AllSteps (M : Machine Op Res L W V I E) (cond : Move I E → Pool Op Res L W → Prop) :
    List (Move I E) → Pool Op Res L W → Prop
  | [], _ => True
  | m :: ms, p => cond m p ∧ ∀ p', step M m p = some p' → AllSteps M cond ms p'

variable {M : Machine Op Res L W V I E}

theorem AllSteps.mono (h : ∀ m p, cond m p → cond' m p) :
    ∀ {ms : List (Move I E)} {p : Pool Op Res L W}, AllSteps M cond ms p → AllSteps M cond' ms p
  | [], _, _ => trivial
  | _ :: _, _, hall => ⟨h _ _ hall.1, fun q hq => (hall.2 q hq).mono h⟩

theorem AllSteps.and :
    ∀ {ms p}, AllSteps M cond ms p → AllSteps M cond' ms p →
      AllSteps M (fun m p => cond m p ∧ cond' m p) ms p
  | [], _, _, _ => trivial
  | _ :: _, _, h, h' => ⟨⟨h.1, h'.1⟩, fun p' hp' => (h.2 p' hp').and (h'.2 p' hp')⟩

/-- What a given schedule comes to can be evaluated. -/
instance decidableSome {x : Option α} {P : α → Prop} [DecidablePred P] :
    Decidable (∃ a, x = some a ∧ P a) :=
  inferInstanceAs (Decidable (∃ a ∈ x, P a))

instance AllSteps.decidable [∀ m p, Decidable (cond m p)] :
    ∀ ms p, Decidable (AllSteps M cond ms p)
  | [], _ => isTrue trivial
  | m :: ms, p =>
    haveI := decidable ms
    inferInstanceAs (Decidable (cond m p ∧ ∀ p' ∈ step M m p, AllSteps M cond ms p'))

/-- A test for `AllSteps` on a given schedule. -/
def checkSteps (M : Machine Op Res L W V I E) (check : Move I E → Pool Op Res L W → Bool) :
    List (Move I E) → Pool Op Res L W → Bool
  | [], _ => true
  | m :: ms, p => check m p && (step M m p).all fun p' => checkSteps M check ms p'

theorem allSteps_of_checkSteps {check : Move I E → Pool Op Res L W → Bool}
    (h : ∀ m p, check m p = true → cond m p) :
    ∀ ms p, checkSteps M check ms p = true → AllSteps M cond ms p := by
  intro ms
  induction ms with
  | nil => exact fun _ _ => trivial
  | cons m ms ih =>
    intro p hcheck
    simp only [checkSteps, Bool.and_eq_true] at hcheck
    refine ⟨h m p hcheck.1, fun p' hp' => ih p' ?_⟩
    simpa [hp'] using hcheck.2

/-- What a step is: an operation of a task, or a move from outside. -/
inductive IsStep (M : Machine Op Res L W V I E) (p : Pool Op Res L W) :
    Move I E → Pool Op Res L W → Prop
  | task (i : ℕ) (input : I) (t : Task Op Res L) (o : Op) (k : Res o → Prog Op Res Unit)
      (r : Res o) (w : W) (ht : p.tasks[i]? = some t) (hprog : t.prog = .op o k)
      (hact : M.act i o input t.loc p.world = some (r, w)) :
      IsStep M p (.step i input)
        ⟨w, p.tasks.set i ⟨M.record t.loc (M.view i p.world) o r, k r⟩⟩
  | env (e : E) (w : W) (new : List (L × Prog Op Res Unit))
      (henv : M.env e p.world = some (w, new)) :
      IsStep M p (.env e) ⟨w, p.tasks ++ new.map fun t => ⟨t.1, t.2⟩⟩

theorem isStep_of_step (h : step M m p = some p') : IsStep M p m p' := by
  cases m with
  | step i input =>
    simp only [step, stepTask] at h
    split at h
    · cases h
    rename_i t ht
    split at h
    · cases h
    rename_i o k hprog
    split at h
    · cases h
    · rename_i r w hact
      cases h
      exact .task i input t o k r w ht hprog hact
  | env e =>
    simp only [step] at h
    split at h
    · cases h
    · rename_i w new henv
      cases h
      exact .env e w new henv

/-- One schedule after another. -/
theorem run_append {ms' : List (Move I E)} {p'' : Pool Op Res L W} (h : run M ms p = some p')
    (h' : run M ms' p' = some p'') : run M (ms ++ ms') p = some p'' := by
  induction ms generalizing p with
  | nil =>
    cases h
    exact h'
  | cons m ms ih =>
    simp only [run, cons_append] at h ⊢
    split at h
    · cases h
    · rename_i q hq
      exact ih h

/-- **Invariants of schedules.**  What every admitted step preserves holds at the end. -/
theorem run_invariant (Inv : Pool Op Res L W → Prop)
    (hstep : ∀ m p p', Inv p → cond m p → step M m p = some p' → Inv p') :
    ∀ ms p p', AllSteps M cond ms p → Inv p → run M ms p = some p' → Inv p' := by
  intro ms
  induction ms with
  | nil =>
    intro p p' _ hinv hrun
    cases hrun
    exact hinv
  | cons m ms ih =>
    intro p p' hall hinv hrun
    simp only [run] at hrun
    split at hrun
    · cases hrun
    · rename_i q hq
      exact ih q p' (hall.2 q hq) (hstep m p q hinv hall.1 hq) hrun

theorem allSteps_true (M : Machine Op Res L W V I E) (ms : List (Move I E)) :
    ∀ p : Pool Op Res L W, AllSteps M (fun _ _ => True) ms p := by
  induction ms with
  | nil => exact fun _ => trivial
  | cons m ms ih => exact fun p => ⟨trivial, fun p' _ => ih p'⟩

theorem allSteps_of_forall_mem {P : Move I E → Prop} (h : ∀ m ∈ ms, P m) (p : Pool Op Res L W) :
    AllSteps M (fun m _ => P m) ms p := by
  induction ms generalizing p with
  | nil => trivial
  | cons m ms ih =>
    exact ⟨h m mem_cons_self,
      fun p' _ => ih (fun m hm => h m (mem_cons_of_mem _ hm)) p'⟩

/-! ## Programs alone -/

/-- How the private record is tied to the world.  An operation answers coherently and
keeps its own task linked; the others, and the moves from outside, keep it linked too.
A task that is started is linked as a blank record was. -/
structure Discipline (M : Machine Op Res L W V I E) where
  blank : L
  coherent : L → V → (o : Op) → Res o → Prop
  link : ℕ → L → W → Prop
  answers : ∀ i o input l w r w', link i l w → M.act i o input l w = some (r, w') →
    coherent l (M.view i w) o r
  own : ∀ i o input l w r w', link i l w → M.act i o input l w = some (r, w') →
    link i (M.record l (M.view i w) o r) w'
  others : ∀ i j o input l l' w r w', j ≠ i → link i l w →
    M.act j o input l' w = some (r, w') → link i l w'
  outside : ∀ i e l w w' new, link i l w → M.env e w = some (w', new) → link i l w'
  starts : ∀ i e w w' new, link i blank w → M.env e w = some (w', new) →
    ∀ t ∈ new, link i t.1 w'

/-- The program meets `ok` at each of its operations, whatever coherent answers it gets,
and `post` when it returns. -/
def Obeys (D : Discipline M) (ok : L → Op → Prop) (post : L → α → Prop) :
    Prog Op Res α → L → Prop
  | .pure a, l => post l a
  | .op o k, l =>
    ok l o ∧ ∀ v r, D.coherent l v o r → Obeys D ok post (k r) (M.record l v o r)

variable {D : Discipline M} {ok : L → Op → Prop} {ε : Type}

section Rules

variable {post post' : L → α → Prop} {o : Op} {ok' : L → Op → Prop}

/-- One operation, then the rest. -/
theorem obeys_perform_bind {f : Res o → Prog Op Res α} (hok : ok l o)
    (h : ∀ v r, D.coherent l v o r → Obeys D ok post (f r) (M.record l v o r)) :
    Obeys D ok post (Prog.perform o >>= f) l :=
  ⟨hok, h⟩

theorem obeys_perform {post : L → Res o → Prop} (hok : ok l o)
    (h : ∀ v r, D.coherent l v o r → post (M.record l v o r) r) :
    Obeys D ok post (Prog.perform o) l :=
  ⟨hok, h⟩

/-- The rule of consequence, also for the obligations. -/
theorem Obeys.mono (hok : ∀ l o, ok l o → ok' l o) (hpost : ∀ l a, post l a → post' l a) :
    ∀ {p : Prog Op Res α} {l : L}, Obeys D ok post p l → Obeys D ok' post' p l
  | .pure _, _, h => hpost _ _ h
  | .op _ _, _, h => ⟨hok _ _ h.1, fun v r hc => Obeys.mono hok hpost (h.2 v r hc)⟩

/-- Two things proved of one program. -/
theorem Obeys.and : ∀ {p : Prog Op Res α} {l : L}, Obeys D ok post p l → Obeys D ok' post' p l →
      Obeys D (fun l o => ok l o ∧ ok' l o) (fun l a => post l a ∧ post' l a) p l
  | .pure _, _, h, h' => ⟨h, h'⟩
  | .op _ _, _, h, h' => ⟨⟨h.1, h'.1⟩, fun v r hc => (h.2 v r hc).and (h'.2 v r hc)⟩

/-- Sequencing. -/
theorem obeys_bind {mid : L → α → Prop} {post : L → β → Prop} {f : α → Prog Op Res β} :
    ∀ {p : Prog Op Res α} {l : L}, Obeys D ok mid p l →
      (∀ l a, mid l a → Obeys D ok post (f a) l) → Obeys D ok post (p >>= f) l
  | .pure _, _, h, hf => hf _ _ h
  | .op _ _, _, h, hf => ⟨h.1, fun v r hc => obeys_bind (h.2 v r hc) hf⟩

/-- A program that may raise, and the rest if it does not. -/
theorem obeys_bind_except (mid : L → α → Prop) {post : L → Except ε β → Prop}
    {p : ExceptT ε (Prog Op Res) α} {f : α → ExceptT ε (Prog Op Res) β}
    (hp : Obeys D ok (fun l r => match r with
      | .ok a => mid l a
      | .error e => post l (.error e)) p.run l)
    (hf : ∀ l a, mid l a → Obeys D ok post (f a).run l) : Obeys D ok post (p >>= f).run l := by
  refine obeys_bind hp fun l' r hr => ?_
  cases r with
  | ok a => exact hf l' a hr
  | error => exact hr

/-- A program that does not raise, among programs that may. -/
theorem obeys_lift {post : L → Except ε α → Prop} {p : Prog Op Res α}
    (h : Obeys D ok (fun l a => post l (.ok a)) p l) :
    Obeys D ok post (ExceptT.lift p : ExceptT ε (Prog Op Res) α).run l :=
  obeys_bind h fun _ _ ha => ha

/-- What no record can undo holds at the end of any program. -/
theorem obeys_of_stable {P : L → Prop}
    (hP : ∀ l v o r, P l → P (M.record l v o r)) :
    ∀ (p : Prog Op Res α) {l : L}, P l → Obeys D (fun _ _ => True) (fun l _ => P l) p l
  | .pure _, _, h => h
  | .op _ k, _, h => ⟨trivial, fun v r _ => obeys_of_stable hP (k r) (hP _ v _ r h)⟩

end Rules

/-! ## What a program may perform -/

/-- Every operation of the program meets the condition, whatever answers it gets. -/
def Prog.Only (P : Op → Prop) : Prog Op Res α → Prop
  | .pure _ => True
  | .op o k => P o ∧ ∀ r, (k r).Only P

namespace Prog.Only

variable {P : Op → Prop} {ε' : Type}

theorem perform {o : Op} (h : P o) : (Prog.perform o : Prog Op Res (Res o)).Only P :=
  ⟨h, fun _ => trivial⟩

theorem bind {f : α → Prog Op Res β} :
    ∀ {p : Prog Op Res α}, p.Only P → (∀ a, (f a).Only P) → (p >>= f).Only P
  | .pure _, _, hf => hf _
  | .op _ _, hp, hf => ⟨hp.1, fun r => bind (hp.2 r) hf⟩

theorem lift {p : Prog Op Res α} (h : p.Only P) :
    (ExceptT.lift p : ExceptT ε (Prog Op Res) α).run.Only P :=
  h.bind fun _ => trivial

variable {p : ExceptT ε (Prog Op Res) α}

theorem adapt (f : ε → ε') (h : p.run.Only P) : (p.adapt f).run.Only P :=
  h.bind fun _ => trivial

theorem bindExcept {f : α → ExceptT ε (Prog Op Res) β} (hp : p.run.Only P)
    (hf : ∀ a, (f a).run.Only P) : (p >>= f).run.Only P := by
  refine hp.bind fun r => ?_
  cases r with
  | ok a => exact hf a
  | error => trivial

/-- What each of the operations keeps of the record. -/
theorem obeys {Inv : L → Prop}
    (hInv : ∀ l o, Inv l → P o → ok l o ∧ ∀ v r, Inv (M.record l v o r)) :
    ∀ {p : Prog Op Res α} {l : L}, p.Only P → Inv l → Obeys D ok (fun l _ => Inv l) p l
  | .pure _, _, _, hl => hl
  | .op _ _, _, hp, hl =>
    ⟨(hInv _ _ hl hp.1).1, fun v r _ => obeys hInv (hp.2 r) ((hInv _ _ hl hp.1).2 v r)⟩

end Prog.Only

/-! ## Programs in a pool -/

/-- What holds between each private record and the world is kept by a step, if the
operations of the task itself, those of the others and the moves from outside keep it, and
it holds of what is started where it held of a blank record. -/
theorem locals_step {blank : L} {R : ℕ → L → W → Prop} (h : step M m p = some p')
    (hown : ∀ i t o k input r w, m = .step i input → p.tasks[i]? = some t → t.prog = .op o k →
      R i t.loc p.world → M.act i o input t.loc p.world = some (r, w) →
      R i (M.record t.loc (M.view i p.world) o r) w)
    (hothers : ∀ i j t o k input r w, j ≠ i → p.tasks[j]? = some t → t.prog = .op o k →
      R i (p.locOf blank i) p.world → M.act j o input t.loc p.world = some (r, w) →
      R i (p.locOf blank i) w)
    (houtside : ∀ i e w new, R i (p.locOf blank i) p.world → M.env e p.world = some (w, new) →
      R i (p.locOf blank i) w)
    (hstarts : ∀ i e w new, R i blank p.world → M.env e p.world = some (w, new) →
      ∀ t ∈ new, R i t.1 w)
    (hR : ∀ i, R i (p.locOf blank i) p.world) : ∀ i, R i (p'.locOf blank i) p'.world := by
  intro j
  obtain ⟨i, input, t, o, k, r, w, ht, hprog, hact⟩ | ⟨e, w, new, henv⟩ := isStep_of_step h
  · by_cases hij : i = j
    · subst hij
      have hi := hR i
      rw [Pool.locOf_of_getElem? ht] at hi
      rw [Pool.locOf_set_self ht]
      exact hown i t o k input r w rfl ht hprog hi hact
    · rw [Pool.locOf_set_of_ne p.world hij]
      exact hothers j i t o k input r w hij ht hprog (hR j) hact
  · obtain hsame | ⟨hblank, u, hu, hloc⟩ :=
      Pool.locOf_append blank p.world p.tasks (new.map fun t => (⟨t.1, t.2⟩ : Task Op Res L)) j
    · rw [hsame]
      exact houtside j e w new (hR j) henv
    -- a fresh index: what held of a blank record there
    have hfresh := hR j
    rw [hblank] at hfresh
    obtain ⟨s, hs, rfl⟩ := mem_map.mp hu
    rw [hloc]
    exact hstarts j e w new hfresh henv s hs

/-- What a task remembers of itself is kept by a step, if its own operations keep it. -/
theorem local_step {blank : L} {P : L → Prop} (h : step M m p = some p')
    (hown : ∀ t o k input r w, m = .step i input → p.tasks[i]? = some t → t.prog = .op o k →
      P t.loc → M.act i o input t.loc p.world = some (r, w) →
      P (M.record t.loc (M.view i p.world) o r))
    (hblank : ¬ P blank) (hP : P (p.locOf blank i)) : P (p'.locOf blank i) := by
  refine locals_step (R := fun j l _ => j = i → P l) h ?_ ?_ ?_ ?_ ?_ i rfl
  · rintro j t o k input r w hm ht hprog hR hact rfl
    exact hown t o k input r w hm ht hprog (hR rfl) hact
  · exact fun _ _ _ _ _ _ _ _ _ _ _ hR _ => hR
  · exact fun _ _ _ _ hR _ => hR
  · exact fun _ _ _ _ hR _ _ _ hj => absurd (hR hj) hblank
  · rintro j rfl
    exact hP

/-- Every task is linked and goes on obeying. -/
structure Good (D : Discipline M) (ok : L → Op → Prop) (post : L → Unit → Prop)
    (p : Pool Op Res L W) : Prop where
  linked : ∀ i, D.link i (p.locOf D.blank i) p.world
  obeys : ∀ t ∈ p.tasks, Obeys D ok post t.prog t.loc

namespace Good

variable {post : L → Unit → Prop}

/-- The operation a task is about to perform meets its obligation. -/
theorem ok_of_prog (hp : Good D ok post p) {o : Op} {k : Res o → Prog Op Res Unit}
    (ht : p.tasks[i]? = some t) (hprog : t.prog = .op o k) : ok t.loc o := by
  have h := hp.obeys t (mem_of_getElem? ht)
  rw [hprog] at h
  exact h.1

theorem link_of_getElem? (hp : Good D ok post p) (ht : p.tasks[i]? = some t) :
    D.link i t.loc p.world := by
  have h := hp.linked i
  rwa [Pool.locOf_of_getElem? ht] at h

/-- A task that is done has reached its postcondition. -/
theorem post_of_finished (hp : Good D ok post p) (ht : p.tasks[i]? = some t)
    (hdone : t.finished = true) : post t.loc () := by
  have h := hp.obeys t (mem_of_getElem? ht)
  unfold Task.finished at hdone
  split at hdone
  · rename_i hprog
    rwa [hprog] at h
  · cases hdone

/-- **A step keeps the pool good**, if the tasks started from outside obey. -/
theorem step
    (hstart : ∀ e w w' new, M.env e w = some (w', new) →
      ∀ t ∈ new, Obeys D ok post t.2 t.1)
    (hp : Good D ok post p) (h : step M m p = some p') :
    Good D ok post p' := by
  refine ⟨locals_step h ?_ ?_ ?_ ?_ hp.linked, fun u hu => ?_⟩
  · exact fun i t o k input r w _ _ _ hl hact => D.own i o input t.loc p.world r w hl hact
  · exact fun i j t o k input r w hji _ _ hl hact =>
      D.others i j o input _ t.loc p.world r w hji hl hact
  · exact fun i e w new hl henv => D.outside i e _ p.world w new hl henv
  · exact fun i e w new hl henv => D.starts i e p.world w new hl henv
  · obtain ⟨i, input, t, o, k, r, w, ht, hprog, hact⟩ | ⟨e, w, new, henv⟩ := isStep_of_step h
    · obtain hu | rfl := mem_or_eq_of_mem_set hu
      · exact hp.obeys u hu
      · have hobeys := hp.obeys t (mem_of_getElem? ht)
        rw [hprog] at hobeys
        exact hobeys.2 _ r (D.answers i o input t.loc p.world r w (hp.link_of_getElem? ht) hact)
    · obtain hu | hu := mem_append.mp hu
      · exact hp.obeys u hu
      · obtain ⟨s, hs, rfl⟩ := mem_map.mp hu
        exact hstart e p.world w new henv s hs

/-- Invariants of schedules, with the discipline at hand. -/
theorem run_invariant (Inv : Pool Op Res L W → Prop)
    (hstart : ∀ e w w' new, M.env e w = some (w', new) → ∀ t ∈ new, Obeys D ok post t.2 t.1)
    (hstep : ∀ m p p', Good D ok post p → Inv p → cond m p → Program.step M m p = some p' → Inv p')
    (hall : AllSteps M cond ms p) (hp : Good D ok post p) (hinv : Inv p)
    (hrun : run M ms p = some p') : Good D ok post p' ∧ Inv p' := by
  refine Program.run_invariant (fun q => Good D ok post q ∧ Inv q) ?_ ms p p' hall
    ⟨hp, hinv⟩ hrun
  rintro m q q' ⟨hq, hqinv⟩ hcond hqq'
  exact ⟨hq.step hstart hqq', hstep m q q' hq hqinv hcond hqq'⟩

end Good

/-! ## One program among others -/

/-- What the rest of the system may do between two operations of task `i`. -/
def Interferes (M : Machine Op Res L W V I E) (i : ℕ) : W → W → Prop :=
  Relation.ReflTransGen fun w w' =>
    (∃ j o input l r, j ≠ i ∧ M.act j o input l w = some (r, w')) ∨
      ∃ e new, M.env e w = some (w', new)

/-- Task `i` runs the program to its end, with interference before every operation and
before the end. -/
inductive Exec (M : Machine Op Res L W V I E) (i : ℕ) :
    Prog Op Res α → L → W → α → L → W → Prop
  | pure {a : α} {l : L} {w w' : W} (hi : Interferes M i w w') :
      Exec M i (.pure a) l w a l w'
  | op {o : Op} {k : Res o → Prog Op Res α} {input : I} {l l' : L} {w w₁ w₂ w' : W}
      {r : Res o} {a : α} (hi : Interferes M i w w₁) (hact : M.act i o input l w₁ = some (r, w₂))
      (hrest : Exec M i (k r) (M.record l (M.view i w₁) o r) w₂ a l' w') :
      Exec M i (.op o k) l w a l' w'

theorem Interferes.link (h : Interferes M i w w') (hl : D.link i l w) : D.link i l w' := by
  induction h with
  | refl => exact hl
  | tail _ hstep ih =>
    obtain ⟨j, o, input, l', r, hji, hact⟩ | ⟨e, new, henv⟩ := hstep
    · exact D.others i j o input l l' _ r _ hji ih hact
    · exact D.outside i e l _ _ new ih henv

/-- **A program that obeys reaches its postcondition**, whatever happens in between. -/
theorem Exec.post {post : L → α → Prop}
    {p : Prog Op Res α} {a : α} (h : Exec M i p l w a l' w')
    (hl : D.link i l w) (hp : Obeys D ok post p l) : post l' a ∧ D.link i l' w' := by
  induction h with
  | pure hi => exact ⟨hp, hi.link hl⟩
  | op hi hact _ ih =>
    have hlink := hi.link hl
    exact ih (D.own i _ _ _ _ _ _ hlink hact) (hp.2 _ _ (D.answers i _ _ _ _ _ _ hlink hact))

theorem Interferes.exec {p : Prog Op Res α} {w₁ : W} {a : α} (h : Interferes M i w w₁)
    (he : Exec M i p l w₁ a l' w') : Exec M i p l w a l' w' := by
  cases he with
  | pure hi => exact .pure (h.trans hi)
  | op hi hact hrest => exact .op (h.trans hi) hact hrest

/-- A program in two parts has run the one and then the other. -/
theorem Exec.of_bind {f : α → Prog Op Res β} {p : Prog Op Res α} {b : β}
    (h : Exec M i (p >>= f) l w b l' w') :
    ∃ a l₁ w₁, Exec M i p l w a l₁ w₁ ∧ Exec M i (f a) l₁ w₁ b l' w' := by
  induction p generalizing l w with
  | pure a => exact ⟨a, l, w, .pure .refl, h⟩
  | op o k ih =>
    cases h with
    | op hi hact hrest =>
      obtain ⟨a, l₁, w₁, hk, hf⟩ := ih _ hrest
      exact ⟨a, l₁, w₁, .op hi hact hk, hf⟩

/-- **A task that finishes in a pool has run its program** among the others. -/
theorem exec_of_run {t' : Task Op Res L} (hdone : t'.finished = true) :
    ∀ (ms : List (Move I E)) {p p' : Pool Op Res L W} {t : Task Op Res L},
      run M ms p = some p' → p.tasks[i]? = some t → p'.tasks[i]? = some t' →
      Exec M i t.prog t.loc p.world () t'.loc p'.world := by
  intro ms
  induction ms with
  | nil =>
    intro p p' t hrun ht ht'
    cases hrun
    obtain rfl : t = t' := Option.some.inj (ht.symm.trans ht')
    unfold Task.finished at hdone
    split at hdone
    · rename_i hprog
      rw [hprog]
      exact .pure .refl
    · cases hdone
  | cons m ms ih =>
    intro p p' t hrun ht ht'
    simp only [run] at hrun
    split at hrun
    · cases hrun
    rename_i q hq
    obtain ⟨j, input, u, o, k, r, w, hu, hprog, hact⟩ | ⟨e, w, new, henv⟩ := isStep_of_step hq
    · by_cases hji : j = i
      · -- its own operation
        subst hji
        obtain rfl : t = u := Option.some.inj (ht.symm.trans hu)
        have hj := (List.getElem?_eq_some_iff.mp ht).1
        rw [hprog]
        exact .op .refl hact (ih hrun (getElem?_set_self hj) ht')
      · have hrest := ih hrun (by simpa [getElem?_set_ne hji] using ht) ht'
        exact Interferes.exec (.single (.inl ⟨j, o, input, u.loc, r, hji, hact⟩)) hrest
    · have hi := (List.getElem?_eq_some_iff.mp ht).1
      have hrest := ih hrun (by simpa [getElem?_append_left hi] using ht) ht'
      exact Interferes.exec (.single (.inr ⟨e, new, henv⟩)) hrest

end Smap.Program
