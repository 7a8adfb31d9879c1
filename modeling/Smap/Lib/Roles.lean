import Mathlib.Logic.Function.Basic
import Smap.Lib.Program

/-!
# Tasks in their places

A pool of tasks that start together, each with obligations of its own place.  The tasks
owe each other nothing, so the discipline is the empty one (`free`), and `Obeys` over it
says what a program does at each of its operations whatever answers it gets.

`tasks_invariant` turns one step lemma, about the private records of all tasks and the
shared world, into a fact about every schedule whose steps meet a condition.

## Main definitions

* `free` — the discipline that asks nothing.
* `launch` — tasks with blank records.
* `Obeyed` — each task keeps to the obligations of its place.
* `atTasks`, `atMoves`, `atRecords` — conditions on the moves of a schedule.
-/

namespace Smap.Program

open Function

variable {Op : Type} {Res : Op → Type} {L W I E : Type} {α β : Type}

/-- Nothing is asked of the tasks. -/
def free (M : Machine Op Res L W Unit I E) (blank : L) : Discipline M where
  blank := blank
  coherent _ _ _ _ := True
  link _ _ _ := True
  answers _ _ _ _ _ _ _ _ _ := trivial
  own _ _ _ _ _ _ _ _ _ := trivial
  others _ _ _ _ _ _ _ _ _ _ _ _ := trivial
  outside _ _ _ _ _ _ _ _ := trivial
  starts _ _ _ _ _ _ _ _ _ := trivial

/-- The tasks of some programs, none of which has begun. -/
def launch (blank : L) (w : W) (progs : List (Prog Op Res Unit)) : Pool Op Res L W :=
  ⟨w, progs.map fun p => ⟨blank, p⟩⟩

theorem locOf_launch (blank : L) (w : W) (progs : List (Prog Op Res Unit)) (i : ℕ) :
    (launch blank w progs).locOf blank i = blank := by
  simp only [Pool.locOf, launch, List.getElem?_map, Option.map_map]
  cases progs[i]? <;> rfl

/-- Each task goes on obeying, with the obligations and the postcondition of its place. -/
def Obeyed (M : Machine Op Res L W Unit I E) (blank : L) (ok : ℕ → L → Op → Prop)
    (post : ℕ → L → Unit → Prop) (p : Pool Op Res L W) : Prop :=
  ∀ i t, p.tasks[i]? = some t → Obeys (free M blank) (ok i) (post i) t.prog t.loc

variable {M : Machine Op Res L W Unit I E} {blank : L}

/-- A task that is done has reached its postcondition. -/
theorem Obeyed.post {ok : ℕ → L → Op → Prop} {post : ℕ → L → Unit → Prop}
    {p : Pool Op Res L W} (hp : Obeyed M blank ok post p) {i : ℕ} {t : Task Op Res L}
    (ht : p.tasks[i]? = some t) (hdone : t.finished = true) : post i t.loc () := by
  have h := hp i t ht
  unfold Task.finished at hdone
  split at hdone
  · rename_i hprog
    rwa [hprog] at h
  · cases hdone

variable {ok : ℕ → L → Op → Prop} {post : ℕ → L → Unit → Prop} {C : ℕ → L → Op → W → Prop}
  {D : E → (ℕ → L) → W → Prop} {R : (ℕ → L) → W → Prop} {ms : List (Move I E)}
  {p p' : Pool Op Res L W}

/-- Programs that obey, each in its place. -/
theorem obeyed_launch (w : W) {progs : List (Prog Op Res Unit)}
    (h : ∀ i p, progs[i]? = some p → Obeys (free M blank) (ok i) (post i) p blank) :
    Obeyed M blank ok post (launch blank w progs) := by
  intro i t ht
  simp only [launch, List.getElem?_map, Option.map_eq_some_iff] at ht
  obtain ⟨p, hp, rfl⟩ := ht
  exact h i p hp

theorem locOf_set {w w' : W} {ts : List (Task Op Res L)} {i : ℕ} {t t' : Task Op Res L}
    (ht : ts[i]? = some t) :
    (⟨w', ts.set i t'⟩ : Pool Op Res L W).locOf blank =
      update ((⟨w, ts⟩ : Pool Op Res L W).locOf blank) i t'.loc := by
  funext j
  by_cases hij : i = j
  · subst hij
    rw [Pool.locOf_set_self ht, update_self]
  · rw [Pool.locOf_set_of_ne w hij, update_of_ne (Ne.symm hij)]

/-- What holds of the new record at its place, and of the old ones elsewhere. -/
@[elab_as_elim]
theorem update_elim {N : ℕ → L} {i j : ℕ} {l : L} {motive : ℕ → L → Prop} (self : motive i l)
    (others : ∀ j, j ≠ i → motive j (N j)) : motive j (update N i l j) := by
  by_cases hji : j = i
  · subst hji
    rwa [update_self]
  · rw [update_of_ne hji]
    exact others j hji

/-- What the new record keeps of the old one holds wherever it did. -/
@[elab_as_elim]
theorem update_keeps {N : ℕ → L} {i j : ℕ} {l : L} {motive : L → Prop} (h : motive (N j))
    (self : motive (N i) → motive l) : motive (update N i l j) := by
  by_cases hji : j = i
  · subst hji
    rw [update_self]
    exact self h
  · rwa [update_of_ne hji]

/-- What a task leaves alone in its record stays as it is in every record. -/
theorem update_kept {N : ℕ → L} {i : ℕ} {l : L} {f : L → α} (h : f l = f (N i)) (j : ℕ) :
    f (update N i l j) = f (N j) :=
  update_elim h fun _ _ => rfl

/-! ## Conditions on schedules -/

/-- A condition on the operations of a schedule: who performs it, what they have noted, and
the world it is performed in. -/
def atTasks (C : ℕ → L → Op → W → Prop) : Move I E → Pool Op Res L W → Prop
  | .step i _, p => ∀ t o k, p.tasks[i]? = some t → t.prog = .op o k → C i t.loc o p.world
  | .env _, _ => True

/-- A test for `atTasks`. -/
def checkTasks (c : ℕ → L → Op → W → Bool) : Move I E → Pool Op Res L W → Bool
  | .step i _, p =>
    match p.tasks[i]? with
    | some ⟨l, .op o _⟩ => c i l o p.world
    | _ => true
  | .env _, _ => true

theorem atTasks_of_checkTasks {c : ℕ → L → Op → W → Bool}
    (h : ∀ i l o w, c i l o w = true → C i l o w) (m : Move I E) (p : Pool Op Res L W)
    (hm : checkTasks c m p = true) : atTasks C m p := by
  cases m with
  | env => trivial
  | step i =>
    intro t o k ht hprog
    rcases t with ⟨l, prog⟩
    obtain rfl : prog = .op o k := hprog
    simp only [checkTasks, ht] at hm
    exact h i l o p.world hm

/-- A condition on the operations of a schedule, and one on its moves from outside: the
records of all tasks, and the world the move happens in. -/
def atMoves (blank : L) (C : ℕ → L → Op → W → Prop) (D : E → (ℕ → L) → W → Prop) :
    Move I E → Pool Op Res L W → Prop
  | .env e, p => D e (p.locOf blank) p.world
  | .step i input, p => atTasks C (.step i input : Move I E) p

/-- A condition on the operations of a schedule that sees the records of all tasks and what
the schedule chooses, and one on its moves from outside. -/
def atRecords (blank : L) (C : ℕ → I → (ℕ → L) → Op → W → Prop) (D : E → (ℕ → L) → W → Prop) :
    Move I E → Pool Op Res L W → Prop
  | .env e, p => D e (p.locOf blank) p.world
  | .step i input, p => ∀ t o k, p.tasks[i]? = some t → t.prog = .op o k →
      C i input (p.locOf blank) o p.world

/-- A test for `atRecords`, which is given the number of tasks there are. -/
def checkRecords (blank : L) (c : ℕ → I → ℕ → (ℕ → L) → Op → W → Bool) :
    Move I E → Pool Op Res L W → Bool
  | .env _, _ => true
  | .step i input, p =>
    match p.tasks[i]? with
    | some ⟨_, .op o _⟩ => c i input p.tasks.length (p.locOf blank) o p.world
    | _ => true

theorem atRecords_of_checkRecords {c : ℕ → I → ℕ → (ℕ → L) → Op → W → Bool}
    {C : ℕ → I → (ℕ → L) → Op → W → Prop}
    (h : ∀ i input n N o w, (∀ j, n ≤ j → N j = blank) → c i input n N o w = true →
      C i input N o w) (m : Move I E) (p : Pool Op Res L W)
    (hm : checkRecords blank c m p = true) : atRecords blank C (fun _ _ _ => True) m p := by
  cases m with
  | env => trivial
  | step i input =>
    intro t o k ht hprog
    rcases t with ⟨l, prog⟩
    obtain rfl : prog = .op o k := hprog
    simp only [checkRecords, ht] at hm
    exact h i input _ _ o p.world (fun j hj => Pool.locOf_of_length_le hj) hm

/-- **Invariants of tasks that interleave**: what an admitted operation of any task keeps of
the private records and the world, and the admitted moves from outside too, holds at the
end. -/
theorem records_invariant {C : ℕ → I → (ℕ → L) → Op → W → Prop}
    (hstep : ∀ N w i o input r w', ok i (N i) o → C i input N o w → R N w →
      M.act i o input (N i) w = some (r, w') →
      R (update N i (M.record (N i) () o r)) w')
    (henv : ∀ N w e w' new, D e N w → R N w → M.env e w = some (w', new) → new = [] ∧ R N w')
    (hall : AllSteps M (atRecords blank C D) ms p) (hp : Obeyed M blank ok post p)
    (hR : R (p.locOf blank) p.world) (hrun : run M ms p = some p') :
    Obeyed M blank ok post p' ∧ R (p'.locOf blank) p'.world := by
  refine run_invariant (fun q => Obeyed M blank ok post q ∧ R (q.locOf blank) q.world)
    ?_ ms p p' hall ⟨hp, hR⟩ hrun
  rintro m q q' ⟨hq, hqR⟩ hcond hqq'
  obtain ⟨i, input, t, o, k, r, w, ht, hprog, hact⟩ | ⟨e, w, new, henv'⟩ := isStep_of_step hqq'
  · have hobeys := hq i t ht
    rw [hprog] at hobeys
    have hloc : q.locOf blank i = t.loc := Pool.locOf_of_getElem? ht
    constructor
    · intro j u hu
      by_cases hij : i = j
      · subst hij
        have hi := (List.getElem?_eq_some_iff.mp ht).1
        rw [List.getElem?_set_self hi, Option.some.injEq] at hu
        subst hu
        exact hobeys.2 () _ trivial
      · rw [List.getElem?_set_ne hij] at hu
        exact hq j u hu
    · have hnext := hstep (q.locOf blank) q.world i o input r w (hloc ▸ hobeys.1)
        (hcond t o k ht hprog) hqR (hloc ▸ hact)
      rw [hloc] at hnext
      rw [locOf_set ht]
      exact hnext
  · obtain ⟨rfl, hR'⟩ := henv _ _ e w new hcond hqR henv'
    simp only [List.map_nil, List.append_nil]
    exact ⟨hq, hR'⟩

variable
  (hstep : ∀ N w i o input r w', ok i (N i) o → C i (N i) o w → R N w →
    M.act i o input (N i) w = some (r, w') → R (update N i (M.record (N i) () o r)) w')

include hstep

/-- The same for conditions on the record of the task that performs the operation. -/
theorem moves_invariant
    (henv : ∀ N w e w' new, D e N w → R N w → M.env e w = some (w', new) → new = [] ∧ R N w')
    (hall : AllSteps M (atMoves blank C D) ms p) (hp : Obeyed M blank ok post p)
    (hR : R (p.locOf blank) p.world) (hrun : run M ms p = some p') :
    Obeyed M blank ok post p' ∧ R (p'.locOf blank) p'.world := by
  have hrecords : AllSteps M (atRecords blank (fun i _ N o w => C i (N i) o w) D) ms p := by
    refine hall.mono ?_
    intro m q hm
    cases m with
    | env => exact hm
    | step i =>
      intro t o k ht hprog
      have hloc : q.locOf blank i = t.loc := Pool.locOf_of_getElem? ht
      rw [hloc]
      exact hm t o k ht hprog
  exact records_invariant hstep henv hrecords hp hR hrun

/-- The same where every move from outside is admitted. -/
theorem tasks_invariant
    (henv : ∀ N w e w' new, R N w → M.env e w = some (w', new) → new = [] ∧ R N w')
    (hall : AllSteps M (atTasks C) ms p) (hp : Obeyed M blank ok post p)
    (hR : R (p.locOf blank) p.world) (hrun : run M ms p = some p') :
    Obeyed M blank ok post p' ∧ R (p'.locOf blank) p'.world := by
  have hmoves : AllSteps M (atMoves blank C fun _ _ _ => True) ms p := by
    refine hall.mono ?_
    intro m q hm
    cases m with
    | env => trivial
    | step => exact hm
  exact moves_invariant hstep (fun N w e w' new _ => henv N w e w' new) hmoves hp hR hrun

end Smap.Program
