import Mathlib.Data.List.Induction

/-!
# Transactions that read what is committed and write last

Under READ COMMITTED each statement of a transaction sees the database as the transactions
committed so far have left it.  A transaction that writes after its reads is a chain of reads
with a commit at its end: what it writes takes effect with the commit, on the database as it is
then, and what it has read may be out of date by that time.

A transaction alone is a function of the database.  `State.run_invariant` carries what every
transaction keeps alone over to the schedules in which no commit falls between the start of a
transaction and its own commit.

## Main definitions

* `Tx` — transactions; `Tx.collect` — a loop with reads in its body.
* `Tx.alone` — what a transaction makes of a database that nobody else writes.
* `State`, `Event`, `State.run` — sessions on a database.
* `State.Undisturbed` — the condition on a step.
-/

namespace Smap.Committed

open Function

variable {D R α β : Type}

/-- A read and what follows its answer, a commit of what was written, or an end without one. -/
inductive Tx (D : Type) where
  | read (k : D → Tx D)
  | commit (write : D → D)
  | refuse

namespace Tx

/-- `ask` about each element in turn, and go on with the answers there are. -/
def collect (ask : α → (Option β → Tx D) → Tx D) : List α → (List β → Tx D) → Tx D
  | [], k => k []
  | a :: as, k => ask a fun answer => collect ask as fun answers => k (answer.toList ++ answers)

/-- The database after the transaction, if it commits. -/
def alone : Tx D → D → Option D
  | .read k, d => (k d).alone d
  | .commit write, d => some (write d)
  | .refuse, _ => none

@[simp] theorem alone_read (k : D → Tx D) (d : D) : (read k).alone d = (k d).alone d := rfl

@[simp] theorem alone_commit (write : D → D) (d : D) : (commit write).alone d = some (write d) :=
  rfl

@[simp] theorem alone_refuse (d : D) : (refuse : Tx D).alone d = none := rfl

theorem alone_collect {ask : α → (Option β → Tx D) → Tx D} {d : D} {f : α → Option β}
    (h : ∀ a k, (ask a k).alone d = (k (f a)).alone d) (as : List α) (k : List β → Tx D) :
    (collect ask as k).alone d = (k (as.filterMap f)).alone d := by
  induction as generalizing k with
  | nil => rfl
  | cons a as ih =>
    rw [collect, h, ih]
    cases hf : f a <;> simp [hf]

end Tx

/-- A transaction under way, and how many commits there were when it began. -/
structure Session (D : Type) where
  since : ℕ
  tx : Tx D

structure State (D : Type) where
  db : D
  commits : ℕ := 0
  sessions : ℕ → Option (Session D) := fun _ => none

/-- A request begins a transaction, the transaction goes on, or it is given up. -/
inductive Event (R : Type) where
  | start (i : ℕ) (request : R)
  | next (i : ℕ)
  | stop (i : ℕ)

namespace State

variable (program : R → Tx D)

def step (s : State D) : Event R → State D
  | .start i request =>
    { s with sessions := update s.sessions i (some ⟨s.commits, program request⟩) }
  | .stop i => { s with sessions := update s.sessions i none }
  | .next i =>
    match s.sessions i with
    | none => s
    | some ⟨since, .read k⟩ =>
      { s with sessions := update s.sessions i (some ⟨since, k s.db⟩) }
    | some ⟨_, .commit write⟩ =>
      { db := write s.db
        commits := s.commits + 1
        sessions := update s.sessions i none }
    | some ⟨_, .refuse⟩ => { s with sessions := update s.sessions i none }

def run (s : State D) (events : List (Event R)) : State D := events.foldl (step program) s

/-- A commit comes before any other since its transaction began. -/
def Undisturbed (s : State D) : Event R → Prop
  | .next i => ∀ since write, s.sessions i = some ⟨since, .commit write⟩ → since = s.commits
  | _ => True

/-- A test for it, along a schedule. -/
def checkUndisturbed (s : State D) : List (Event R) → Bool
  | [] => true
  | e :: events =>
    (match e with
      | .next i =>
        match s.sessions i with
        | some ⟨since, .commit _⟩ => since == s.commits
        | _ => true
      | _ => true) && checkUndisturbed (s.step program e) events

theorem undisturbed_of_check {events : List (Event R)} {s : State D}
    (h : s.checkUndisturbed program events = true) (before : List (Event R)) (e : Event R)
    (after : List (Event R)) (hevents : events = before ++ e :: after) :
    (run program s before).Undisturbed e := by
  induction before generalizing s events with
  | nil =>
    subst hevents
    obtain ⟨hnow, -⟩ := Bool.and_eq_true_iff.mp h
    cases e with
    | next i =>
      intro since write hi
      change s.sessions i = _ at hi
      simpa [hi, run] using hnow
    | start | stop => trivial
  | cons first before ih =>
    subst hevents
    exact ih (Bool.and_eq_true_iff.mp h).2 rfl

/-- What an undisturbed transaction has left to do is what it would do from its start. -/
structure Inv (I : D → Prop) (s : State D) : Prop where
  db : I s.db
  since : ∀ i t, s.sessions i = some t → t.since ≤ s.commits
  alone : ∀ i t, s.sessions i = some t → t.since = s.commits →
    ∃ request, t.tx.alone s.db = (program request).alone s.db

variable {program} {I : D → Prop} {s : State D}

/-- A session is replaced while the database stays as it is. -/
theorem Inv.session (h : Inv program I s) (i : ℕ) (t : Option (Session D))
    (ht : ∀ t', t = some t' → t'.since ≤ s.commits ∧ (t'.since = s.commits →
      ∃ request, t'.tx.alone s.db = (program request).alone s.db)) :
    Inv program I { s with sessions := update s.sessions i t } := by
  refine ⟨h.db, fun j t' hj => ?_, fun j t' hj => ?_⟩ <;>
    simp only [update_apply] at hj <;> split at hj
  · exact (ht t' hj).1
  · exact h.since j t' hj
  · exact (ht t' hj).2
  · exact h.alone j t' hj

variable (hkeep : ∀ request d d', I d → (program request).alone d = some d' → I d')

include hkeep

theorem Inv.step (h : Inv program I s) (e : Event R) (he : s.Undisturbed e) :
    Inv program I (s.step program e) := by
  cases e with
  | start i request =>
    refine h.session i _ ?_
    rintro _ ⟨⟩
    exact ⟨Nat.le_refl _, fun _ => ⟨request, rfl⟩⟩
  | stop i => exact h.session i none (by simp)
  | next i =>
    simp only [State.step]
    split
    · exact h
    · rename_i since k hi
      have hsince := h.since i _ hi
      have halone := h.alone i _ hi
      refine h.session i _ ?_
      rintro _ ⟨⟩
      exact ⟨hsince, halone⟩
    · rename_i since write hi
      obtain ⟨request, hrun⟩ := h.alone i _ hi (he since write hi)
      -- nobody else has begun since the commit, so nothing is asked of the other sessions
      refine ⟨hkeep request _ _ h.db hrun.symm, fun j t hj => ?_, fun j t hj hsince => ?_⟩ <;>
        simp only [update_apply] at hj <;> split at hj <;> try exact absurd hj (by simp)
      · exact Nat.le_trans (h.since j t hj) (Nat.le_succ _)
      · have := h.since j t hj
        simp only at hsince
        omega
    · exact h.session i none (by simp)

/-- **What each transaction keeps alone, undisturbed transactions keep together.** -/
theorem run_invariant {d : D} (hd : I d) (events : List (Event R))
    (hall : ∀ before e after, events = before ++ e :: after →
      (run program { db := d } before).Undisturbed e) : I (run program { db := d } events).db := by
  suffices h : Inv program I (run program { db := d } events) from h.db
  induction events using List.reverseRecOn with
  | nil => exact ⟨hd, by simp [run], by simp [run]⟩
  | append_singleton events e ih =>
    have hbefore := ih fun before e' after heq => hall before e' (after ++ [e]) (by simp [heq])
    have hstep := hbefore.step hkeep e (hall events e [] rfl)
    simpa [run] using hstep

end State

end Smap.Committed
