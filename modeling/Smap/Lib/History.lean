import Mathlib.Data.Nat.Find
import Smap.Lib.Program

/-!
# Histories of tasks

A history is an auxiliary record: it grows with the operations of a task, and no program
and no operation reads it.  A machine with histories therefore makes the same moves as the
machine without (`run_forget`), and what an invariant of the former says about the latter's
pools holds of all of them.

Beside it, two facts about programs that need no history: a program has an end
(`eventually_still`), and what is said of all operations a program can come to (`Uses`).

## Main definitions

* `History` — what a task adds to its history at each operation.
* `Machine.withHistory`, `Pool.forget` — a machine with histories, and without again.
* `Uses` — every operation a program can come to is of a given kind.
* `answer` — what the operation of a move answers; `countSteps` — counting moves.
-/

namespace Smap.Program

variable {Op : Type} {Res : Op → Type} {L W V I E H : Type} {α β : Type}

/-- What a task adds to its history at each operation, and what it starts from. -/
structure History (Op : Type) (Res : Op → Type) (L V H : Type) where
  empty : H
  note : H → L → V → (o : Op) → Res o → H

/-- The machine whose tasks keep a history. -/
def Machine.withHistory (M : Machine Op Res L W V I E) (N : History Op Res L V H) :
    Machine Op Res (L × H) W V I E where
  view := M.view
  record x v o r := (M.record x.1 v o r, N.note x.2 x.1 v o r)
  act i o input x w := M.act i o input x.1 w
  env e w := (M.env e w).map fun (w', new) => (w', new.map fun t => ((t.1, N.empty), t.2))

def Task.forget (t : Task Op Res (L × H)) : Task Op Res L := ⟨t.loc.1, t.prog⟩

/-- The pool without the histories. -/
def Pool.forget (q : Pool Op Res (L × H) W) : Pool Op Res L W :=
  ⟨q.world, q.tasks.map Task.forget⟩

@[simp] theorem Pool.forget_world (q : Pool Op Res (L × H) W) : q.forget.world = q.world := rfl

@[simp] theorem Pool.forget_tasks (q : Pool Op Res (L × H) W) :
    q.forget.tasks = q.tasks.map Task.forget := rfl

variable {M : Machine Op Res L W V I E}

section Forget

variable (N : History Op Res L V H)

theorem env_withHistory {e : E} {w w' : W} {new : List ((L × H) × Prog Op Res Unit)}
    (h : (M.withHistory N).env e w = some (w', new)) :
    ∃ new', M.env e w = some (w', new') ∧ new = new'.map fun t => ((t.1, N.empty), t.2) := by
  obtain ⟨⟨w₁, new'⟩, henv, ⟨⟩⟩ := Option.map_eq_some_iff.mp h
  exact ⟨new', henv, rfl⟩

/-- A step is possible with histories exactly when it is without them. -/
theorem step_forget (m : Move I E) (q : Pool Op Res (L × H) W) :
    step M m q.forget = (step (M.withHistory N) m q).map Pool.forget := by
  cases m with
  | step i input =>
    simp only [step, stepTask, Pool.forget_tasks, Pool.forget_world, List.getElem?_map]
    cases q.tasks[i]? with
    | none => rfl
    | some t =>
      obtain ⟨⟨l, h⟩, prog⟩ := t
      cases prog with
      | pure => rfl
      | op o =>
        simp only [Option.map_some, Task.forget, Machine.withHistory]
        cases M.act i o input l q.world with
        | none => rfl
        | some => simp [Pool.forget, Task.forget, List.map_set]
  | env e =>
    simp only [step, Pool.forget_world, Machine.withHistory]
    cases M.env e q.world with
    | none => rfl
    | some => simp [Pool.forget, Task.forget, Function.comp_def]

/-- **Histories change nothing**: the schedules, and the pools without histories, are the
same. -/
theorem run_forget (ms : List (Move I E)) :
    ∀ q : Pool Op Res (L × H) W,
      run M ms q.forget = (run (M.withHistory N) ms q).map Pool.forget := by
  induction ms with
  | nil => exact fun q => rfl
  | cons m ms ih =>
    intro q
    simp only [run, step_forget N]
    cases step (M.withHistory N) m q with
    | none => rfl
    | some q' => exact ih q'

theorem exists_run_withHistory {ms : List (Move I E)} {q : Pool Op Res (L × H) W}
    {p : Pool Op Res L W} (h : run M ms q.forget = some p) :
    ∃ q', run (M.withHistory N) ms q = some q' ∧ q'.forget = p := by
  rw [run_forget N] at h
  exact Option.map_eq_some_iff.mp h

theorem allSteps_withHistory {cond : Move I E → Pool Op Res L W → Prop}
    (ms : List (Move I E)) :
    ∀ q : Pool Op Res (L × H) W, AllSteps M cond ms q.forget →
      AllSteps (M.withHistory N) (fun m q => cond m q.forget) ms q := by
  induction ms with
  | nil => exact fun _ _ => trivial
  | cons m ms ih =>
    refine fun q hall => ⟨hall.1, fun q' hq' => ih q' (hall.2 q'.forget ?_)⟩
    rw [step_forget N, hq']
    rfl

end Forget

/-! ## The operations of a program -/

/-- Every operation the program can come to is of the given kind. -/
def Uses (S : Op → Bool) : Prog Op Res α → Prop
  | .pure _ => True
  | .op o k => S o = true ∧ ∀ r, Uses S (k r)

variable {S : Op → Bool} {o : Op}

theorem uses_perform_bind {f : Res o → Prog Op Res α} (ho : S o = true) (h : ∀ r, Uses S (f r)) :
    Uses S (Prog.perform o >>= f) :=
  ⟨ho, h⟩

theorem uses_perform (ho : S o = true) : Uses S (Prog.perform o : Prog Op Res (Res o)) :=
  ⟨ho, fun _ => trivial⟩

theorem Uses.mono {T : Op → Bool} (hST : ∀ o, S o = true → T o = true) :
    ∀ {p : Prog Op Res α}, Uses S p → Uses T p
  | .pure _, _ => trivial
  | .op _ _, h => ⟨hST _ h.1, fun r => (h.2 r).mono hST⟩

/-- What the operations of a kind allow and keep, a program made of them keeps. -/
theorem obeys_of_uses {D : Discipline M} {ok : L → Op → Prop} {P : L → Prop}
    (hok : ∀ l o, S o = true → P l → ok l o)
    (hP : ∀ l v o r, S o = true → D.coherent l v o r → P l → P (M.record l v o r)) :
    ∀ {p : Prog Op Res α} {l : L}, Uses S p → P l → Obeys D ok (fun l' _ => P l') p l
  | .pure _, _, _, h => h
  | .op _ _, _, hp, h => ⟨hok _ _ hp.1 h, fun v r hc =>
    obeys_of_uses hok hP (hp.2 r) (hP _ v _ r hp.1 hc h)⟩

/-- As `Uses`, with what the program returns. -/
def Gives (S : Op → Bool) (post : α → Prop) : Prog Op Res α → Prop
  | .pure a => post a
  | .op o k => S o = true ∧ ∀ r, Gives S post (k r)

variable {Q : α → Prop}

theorem gives_perform_bind {f : Res o → Prog Op Res α} (ho : S o = true)
    (h : ∀ r, Gives S Q (f r)) : Gives S Q (Prog.perform o >>= f) :=
  ⟨ho, h⟩

theorem gives_bind {f : β → Prog Op Res α} :
    ∀ {p : Prog Op Res β}, Uses S p → (∀ b, Gives S Q (f b)) → Gives S Q (p >>= f)
  | .pure b, _, hf => hf b
  | .op _ _, h, hf => ⟨h.1, fun r => gives_bind (h.2 r) hf⟩

theorem Gives.uses : ∀ {p : Prog Op Res α}, Gives S Q p → Uses S p
  | .pure _, _ => trivial
  | .op _ _, h => ⟨h.1, fun r => (h.2 r).uses⟩

theorem Gives.obeys {D : Discipline M} :
    ∀ {p : Prog Op Res α} {l : L}, Gives S Q p → Obeys D (fun _ _ => True) (fun _ => Q) p l
  | .pure _, _, h => h
  | .op _ _, _, h => ⟨trivial, fun _ r _ => (h.2 r).obeys⟩

/-! ## Programs end -/

/-- What is left of a program after one of its operations. -/
inductive Prog.After : Prog Op Res α → Prog Op Res α → Prop
  | intro (o : Op) (k : Res o → Prog Op Res α) (r : Res o) : After (k r) (.op o k)

theorem Prog.wellFounded_after :
    WellFounded (Prog.After : Prog Op Res α → Prog Op Res α → Prop) := by
  refine ⟨fun p => ?_⟩
  induction p with
  | pure => exact ⟨_, fun q h => by cases h⟩
  | op o k ih => exact ⟨_, fun q h => by cases h with | intro _ _ r => exact ih r⟩

section Endless

variable {σ : ℕ → Move I E} {π : ℕ → Pool Op Res L W}

variable (hπ : ∀ n, step M (σ n) (π n) = some (π (n + 1)))

include hπ

/-- The beginning of the schedule. -/
theorem run_of_endless (n : ℕ) : run M ((List.range n).map σ) (π 0) = some (π n) := by
  induction n with
  | zero => rfl
  | succ n ih =>
    rw [List.range_succ, List.map_append]
    refine run_append ih ?_
    simp [run, hπ n]

/-- While a task does not move, its program stays as it is. -/
theorem prog_eq_of_still {i n : ℕ} {t : Task Op Res L} (ht : (π n).tasks[i]? = some t) :
    ∀ d, (∀ m, n ≤ m → m < n + d → ∀ input, σ m ≠ .step i input) →
      (π (n + d)).tasks[i]? = some t := by
  intro d
  induction d with
  | zero => exact fun _ => ht
  | succ d ih =>
    intro hstill
    have hd := ih fun m hnm hmd => hstill m hnm (by omega)
    have hne := hstill (n + d) (by omega) (by omega)
    have hstep := isStep_of_step (hπ (n + d))
    generalize σ (n + d) = m at hstep hne
    generalize π (n + d + 1) = p' at hstep
    obtain ⟨j, input, u, o, k, r, w, hu, hprog, hact⟩ | ⟨e, w, new, henv⟩ := hstep
    · have hji : j ≠ i := fun h => hne input (by rw [h])
      simpa [List.getElem?_set_ne hji] using hd
    · have hi := (List.getElem?_eq_some_iff.mp hd).1
      simpa [List.getElem?_append_left hi] using hd

/-- **A task performs finitely many operations**, in a schedule of any length. -/
theorem eventually_still (i : ℕ) :
    ∀ (p : Prog Op Res Unit) (n : ℕ) (t : Task Op Res L), (π n).tasks[i]? = some t →
      t.prog = p → ∃ N, ∀ m, N ≤ m → ∀ input, σ m ≠ .step i input := by
  intro p
  induction p using Prog.wellFounded_after.induction with
  | _ p ih =>
    intro n t ht hp
    by_cases hmoves : ∃ m, n ≤ m ∧ ∃ input, σ m = .step i input
    · -- up to its next operation the program is the same, and after it a smaller one
      classical
      obtain ⟨hnm, input, hm⟩ := Nat.find_spec hmoves
      have hstill := prog_eq_of_still hπ ht (Nat.find hmoves - n) fun m hm hlt input h =>
        Nat.find_min hmoves (by omega) ⟨hm, input, h⟩
      rw [Nat.add_sub_cancel' hnm] at hstill
      have hstep := isStep_of_step (hπ (Nat.find hmoves))
      rw [hm] at hstep
      generalize hp' : π (Nat.find hmoves + 1) = p' at hstep
      obtain ⟨_, _, u, o, k, r, w, hu, hprog, hact⟩ := hstep
      obtain rfl : u = t := Option.some.inj (hu.symm.trans hstill)
      have hi := (List.getElem?_eq_some_iff.mp hu).1
      refine ih (k r) ?_ (Nat.find hmoves + 1) _ (by rw [hp']; exact List.getElem?_set_self hi) rfl
      rw [← hp, hprog]
      exact .intro o k r
    · refine ⟨n, fun m hnm input h => hmoves ⟨m, hnm, input, h⟩⟩

end Endless

/-! ## Answers along a schedule -/

/-- The operation a move performs, and its answer. -/
def answer (M : Machine Op Res L W V I E) (m : Move I E) (p : Pool Op Res L W) :
    Option (Σ o : Op, Res o) :=
  match m with
  | .env _ => none
  | .step i input =>
    match p.tasks[i]? with
    | none => none
    | some t =>
      match t.prog with
      | .pure _ => none
      | .op o _ => (M.act i o input t.loc p.world).map fun r => ⟨o, r.1⟩

/-- How many steps of the schedule pass the test. -/
def countSteps (M : Machine Op Res L W V I E) (check : Move I E → Pool Op Res L W → Bool) :
    List (Move I E) → Pool Op Res L W → ℕ
  | [], _ => 0
  | m :: ms, p =>
    (if check m p then 1 else 0) +
      match step M m p with
      | none => 0
      | some p' => countSteps M check ms p'

section Counting

variable {check : Move I E → Pool Op Res L W → Bool}

theorem answer_of_act {p : Pool Op Res L W} {i : ℕ} {input : I} {t : Task Op Res L}
    {k : Res o → Prog Op Res Unit} {r : Res o} {w : W} (ht : p.tasks[i]? = some t)
    (hprog : t.prog = .op o k) (hact : M.act i o input t.loc p.world = some (r, w)) :
    answer M (.step i input) p = some ⟨o, r⟩ := by
  simp [answer, ht, hprog, hact]

/-- **Counting by a potential**: if each counted step, and no other, adds one to the
potential, so does the whole schedule. -/
theorem countSteps_add (Inv : Pool Op Res L W → Prop) (potential : Pool Op Res L W → ℕ)
    (hstep : ∀ m p p', Inv p → step M m p = some p' →
      Inv p' ∧ (if check m p then 1 else 0) + potential p = potential p') :
    ∀ ms p p', Inv p → run M ms p = some p' →
      countSteps M check ms p + potential p = potential p' := by
  intro ms
  induction ms with
  | nil =>
    intro p p' _ hrun
    cases hrun
    simp [countSteps]
  | cons m ms ih =>
    intro p p' hinv hrun
    simp only [run] at hrun
    split at hrun
    · cases hrun
    · rename_i q hq
      obtain ⟨hinv', hpotential⟩ := hstep m p q hinv hq
      have hrest := ih q p' hinv' hrun
      simp only [countSteps, hq]
      omega

theorem countSteps_forget (N : History Op Res L V H) (ms : List (Move I E)) :
    ∀ q : Pool Op Res (L × H) W, countSteps M check ms q.forget =
      countSteps (M.withHistory N) (fun m q => check m q.forget) ms q := by
  induction ms with
  | nil => exact fun _ => rfl
  | cons m ms ih =>
    intro q
    simp only [countSteps, step_forget N]
    cases step (M.withHistory N) m q with
    | none => rfl
    | some q' => simp [ih q']

end Counting

end Smap.Program
