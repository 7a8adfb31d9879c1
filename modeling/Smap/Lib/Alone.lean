import Smap.Lib.Roles

/-!
# Programs that never wait, among others and alone

A machine whose operations always answer, with one answer each.  Its tasks interleave in
a pool as those of any machine do; a program can also be run on its own, from one end to
the other, which makes it a function of the world.

`eval_invariant` and `total_invariant` turn one step lemma into a fact about programs
alone and about schedules.

## Main definitions

* `total` — the machine.
* `eval` — a program on its own.
* `atOps`, `total_invariant` — conditions on operations, and invariants of schedules that
  meet them.
-/

namespace Smap.Program

variable {Op : Type} {Res : Op → Type} {L W E : Type} {α β : Type}

/-- The machine of operations that always answer. -/
def total (act : (o : Op) → W → Res o × W) (record : L → (o : Op) → Res o → L)
    (env : E → W → W) : Machine Op Res L W Unit Unit E where
  view _ _ := ()
  record l _ o r := record l o r
  act _ o _ _ w := some (act o w)
  env e w := some (env e w, [])

variable {act : (o : Op) → W → Res o × W} {record : L → (o : Op) → Res o → L}
  {env : E → W → W} {blank : L}

/-- The program alone, from a private record and a world. -/
def eval (act : (o : Op) → W → Res o × W) (record : L → (o : Op) → Res o → L) :
    Prog Op Res α → L → W → α × L × W
  | .pure a, l, w => (a, l, w)
  | .op o k, l, w => eval act record (k (act o w).1) (record l o (act o w).1) (act o w).2

@[simp] theorem eval_pure (a : α) (l : L) (w : W) :
    eval act record (pure a : Prog Op Res α) l w = (a, l, w) := rfl

/-- One part after the other. -/
@[simp] theorem eval_bind (p : Prog Op Res α) (f : α → Prog Op Res β) (l : L) (w : W) :
    eval act record (p >>= f) l w =
      eval act record (f (eval act record p l w).1) (eval act record p l w).2.1
        (eval act record p l w).2.2 := by
  induction p generalizing l w with
  | pure => rfl
  | op o k ih => exact ih _ _ _

/-- **Invariants of a program alone**: what every admitted operation preserves holds at
the end, together with the postcondition. -/
theorem eval_invariant {ok : L → Op → Prop} {post : L → α → Prop} {R : L → W → Prop}
    (hstep : ∀ l w o, ok l o → R l w → R (record l o (act o w).1) (act o w).2)
    {p : Prog Op Res α} {l : L} {w : W}
    (hp : Obeys (free (total act record env) blank) ok post p l) (hR : R l w) :
    R (eval act record p l w).2.1 (eval act record p l w).2.2 ∧
      post (eval act record p l w).2.1 (eval act record p l w).1 := by
  induction p generalizing l w with
  | pure => exact ⟨hR, hp⟩
  | op o k ih => exact ih _ (hp.2 () _ trivial) (hstep l w o hp.1 hR)

/-! ## In a pool -/

/-- A condition on the operations of a schedule, each in the world it is performed in. -/
def atOps (C : Op → W → Prop) : Move Unit E → Pool Op Res L W → Prop
  | .step i _, p => ∀ t o k, p.tasks[i]? = some t → t.prog = .op o k → C o p.world
  | .env _, _ => True

/-- A test for `atOps`. -/
def checkOps (c : Op → W → Bool) : Move Unit E → Pool Op Res L W → Bool
  | .step i _, p =>
    match p.tasks[i]? with
    | some ⟨_, .op o _⟩ => c o p.world
    | _ => true
  | .env _, _ => true

variable {C : Op → W → Prop}

theorem atOps_of_checkOps {c : Op → W → Bool} (h : ∀ o w, c o w = true → C o w) (m : Move Unit E)
    (p : Pool Op Res L W) (hm : checkOps c m p = true) : atOps C m p := by
  cases m with
  | env => trivial
  | step =>
    intro t o k ht hprog
    rcases t with ⟨l, prog⟩
    obtain rfl : prog = .op o k := hprog
    simp only [checkOps, ht] at hm
    exact h o p.world hm

theorem atTasks_of_atOps (m : Move Unit E) (p : Pool Op Res L W) (h : atOps C m p) :
    atTasks (fun _ _ o w => C o w) m p := by
  cases m with
  | env => trivial
  | step => exact h

/-- Invariants of tasks that interleave and never wait. -/
theorem total_invariant {ok : ℕ → L → Op → Prop} {post : ℕ → L → Unit → Prop}
    {R : (ℕ → L) → W → Prop} (hstep : ∀ N w i o, ok i (N i) o → C o w → R N w →
      R (Function.update N i (record (N i) o (act o w).1)) (act o w).2)
    (henv : ∀ N w e, R N w → R N (env e w)) {ms : List (Move Unit E)} {p p' : Pool Op Res L W}
    (hall : AllSteps (total act record env) (atOps C) ms p)
    (hp : Obeyed (total act record env) blank ok post p) (hR : R (p.locOf blank) p.world)
    (hrun : run (total act record env) ms p = some p') :
    Obeyed (total act record env) blank ok post p' ∧ R (p'.locOf blank) p'.world := by
  refine tasks_invariant ?_ ?_ (hall.mono atTasks_of_atOps) hp hR hrun
  · intro N w i o _ r w' hok hC hN hact
    obtain ⟨rfl, rfl⟩ := Prod.mk.inj (Option.some.inj hact)
    exact hstep N w i o hok hC hN
  · intro N w e w' new hN he
    cases he
    exact ⟨rfl, henv N w e hN⟩

end Smap.Program
