import Mathlib.Data.Finset.Card

/-!
# Stack searches over a finite successor function

Two depth-first loops over an explicit stack, in the two shapes programs write
them: `reachLoop` marks a vertex when it is pushed, `visitLoop` when it is popped.
Both run on fuel, so that they evaluate; `mem_reachFrom` and `mem_visitLoop` say
how much of it is enough, and that the loops then find exactly the vertices
reachable in at least one step, or in any number of them.

## Main definitions

* `pushUnseen` — push and mark the successors that are not marked yet.
* `reachLoop`, `reachFrom` — the mark-on-push search.
* `visitLoop` — the mark-on-pop search.
-/

namespace Smap.Search

open List

variable {α : Type*} [DecidableEq α]

/-- Push the successors that have not been seen, marking each as it is pushed.
The pair is the set of seen vertices and the stack, top first. -/
def pushUnseen : List α → List α × List α → List α × List α
  | [], acc => acc
  | a :: rest, (seen, stack) =>
    if a ∈ seen then pushUnseen rest (seen, stack)
    else pushUnseen rest (a :: seen, a :: stack)

/-- The mark-on-push loop: pop a vertex, push its unseen successors. -/
def reachLoop (next : α → List α) : ℕ → List α → List α → List α
  | 0, _, seen => seen
  | _ + 1, [], seen => seen
  | fuel + 1, current :: stack, seen =>
    let (seen', stack') := pushUnseen (next current) (seen, stack)
    reachLoop next fuel stack' seen'

/-- Everything found from `root`; the root itself only if it lies on a cycle. -/
def reachFrom (next : α → List α) (fuel : ℕ) (root : α) : List α :=
  reachLoop next fuel [root] []

/-- The mark-on-pop loop: pop a vertex, skip it if it is marked, else mark it and
push all its successors. -/
def visitLoop (next : α → List α) : ℕ → List α → List α → List α
  | 0, _, seen => seen
  | _ + 1, [], seen => seen
  | fuel + 1, current :: stack, seen =>
    if current ∈ seen then visitLoop next fuel stack seen
    else visitLoop next fuel ((next current).reverse ++ stack) (current :: seen)

/-- What is marked stays marked. -/
theorem subset_visitLoop (next : α → List α) (fuel : ℕ) :
    ∀ stack seen, seen ⊆ visitLoop next fuel stack seen := by
  induction fuel with
  | zero => exact fun _ seen => List.Subset.refl seen
  | succ fuel ih =>
    intro stack seen
    cases stack with
    | nil => exact List.Subset.refl seen
    | cons =>
      simp only [visitLoop]
      split
      · exact ih _ _
      · exact fun a ha => ih _ _ (mem_cons_of_mem _ ha)

/-! ## What one expansion does -/

/-- What an expansion pushes and marks: the successors that had not been seen, each once. -/
theorem pushUnseen_eq (succs seen stack : List α) : ∃ new : List α,
    pushUnseen succs (seen, stack) = (new ++ seen, new ++ stack) ∧ new.Nodup ∧
      ∀ a, a ∈ new ↔ a ∈ succs ∧ a ∉ seen := by
  induction succs generalizing seen stack with
  | nil => exact ⟨[], rfl, nodup_nil, by simp⟩
  | cons b rest ih =>
    simp only [pushUnseen]
    split
    · rename_i hb
      obtain ⟨new, heq, hnodup, hmem⟩ := ih seen stack
      refine ⟨new, heq, hnodup, fun a => ?_⟩
      rw [hmem, mem_cons]
      exact ⟨fun h => ⟨.inr h.1, h.2⟩,
        fun h => ⟨h.1.resolve_left fun hab => h.2 (hab ▸ hb), h.2⟩⟩
    · rename_i hb
      obtain ⟨new, heq, hnodup, hmem⟩ := ih (b :: seen) (b :: stack)
      have hnew : b ∉ new := fun h => ((hmem b).mp h).2 mem_cons_self
      refine ⟨new ++ [b], by simp [heq], ?_, fun a => ?_⟩
      · exact hnodup.append (nodup_singleton b) (by simpa using hnew)
      · by_cases hab : a = b
        · simp [hab, hb]
        · simp [hab, hmem]

/-- Each push pays for itself: it removes a vertex from the unseen part of `U`. -/
theorem measure_push (U : Finset α) {new seen stack : List α} (hnodup : new.Nodup)
    (hnew : ∀ a ∈ new, a ∈ U ∧ a ∉ seen) :
    (U \ (new ++ seen).toFinset).card + (new ++ stack).length =
      (U \ seen.toFinset).card + stack.length := by
  have hsub : new.toFinset ⊆ U \ seen.toFinset := by
    intro a ha
    simpa using hnew a (mem_toFinset.mp ha)
  have hsplit : U \ (new ++ seen).toFinset = (U \ seen.toFinset) \ new.toFinset := by
    ext a
    simp only [toFinset_append, Finset.mem_sdiff, Finset.mem_union, not_or]
    tauto
  have hcard := Finset.card_sdiff_add_card_eq_card hsub
  rw [toFinset_card_of_nodup hnodup] at hcard
  rw [hsplit, length_append]
  omega

/-! ## The mark-on-push search is exact -/

section Exact

variable (next : α → List α) (root : α)

/-- `a` is reachable from the root in at least one step. -/
def Reaches (a : α) : Prop := Relation.TransGen (fun x y => y ∈ next x) root a

/-- The loop invariant: what is marked is reachable, the stack holds marked
vertices or the root, and every vertex off the stack is expanded. -/
structure LoopInv (stack seen : List α) : Prop where
  sound : ∀ a ∈ seen, Reaches next root a
  stacked : ∀ a ∈ stack, a = root ∨ a ∈ seen
  closed : ∀ a, a = root ∨ a ∈ seen → a ∉ stack → ∀ b ∈ next a, b ∈ seen

variable {next root}

omit [DecidableEq α] in
theorem LoopInv.init : LoopInv next root [root] [] where
  sound := by simp
  stacked := by simp
  closed := by
    rintro a (rfl | h) hn
    · exact absurd mem_cons_self hn
    · exact absurd h not_mem_nil

variable {seen : List α}

omit [DecidableEq α] in
theorem LoopInv.step {current : α} {stack new : List α}
    (h : LoopInv next root (current :: stack) seen)
    (hnew : ∀ a, a ∈ new ↔ a ∈ next current ∧ a ∉ seen) :
    LoopInv next root (new ++ stack) (new ++ seen) where
  sound := by
    intro a ha
    rcases mem_append.mp ha with ha | ha
    · have hstep := ((hnew a).mp ha).1
      rcases h.stacked current mem_cons_self with rfl | hc
      · exact Relation.TransGen.single hstep
      · exact (h.sound current hc).tail hstep
    · exact h.sound a ha
  stacked := by
    intro a ha
    rcases mem_append.mp ha with ha | ha
    · exact .inr (mem_append_left _ ha)
    · exact (h.stacked a (mem_cons_of_mem _ ha)).imp_right (mem_append_right _)
  closed := by
    intro a ha hn b hb
    rw [mem_append, not_or] at hn
    rw [mem_append]
    by_cases hac : a = current
    · subst hac
      by_cases hseen : b ∈ seen
      · exact .inr hseen
      · exact .inl ((hnew b).mpr ⟨hb, hseen⟩)
    · -- a freshly marked vertex is on the stack, so `a` was marked before
      have hold : a = root ∨ a ∈ seen :=
        ha.imp_right fun h => (mem_append.mp h).resolve_left hn.1
      have hoff : a ∉ current :: stack := by simp [hac, hn.2]
      exact .inr (h.closed a hold hoff b hb)

omit [DecidableEq α] in
/-- With an empty stack the marked vertices are exactly the reachable ones. -/
theorem LoopInv.exact (h : LoopInv next root [] seen) (a : α) : a ∈ seen ↔ Reaches next root a := by
  refine ⟨h.sound a, fun hr => ?_⟩
  induction hr with
  | single hstep => exact h.closed root (Or.inl rfl) not_mem_nil _ hstep
  | tail _ hstep ih => exact h.closed _ (Or.inr ih) not_mem_nil _ hstep

theorem mem_reachLoop (U : Finset α) (hU : ∀ x, ∀ a ∈ next x, a ∈ U) :
    ∀ (fuel : ℕ) (stack seen : List α), LoopInv next root stack seen →
      (U \ seen.toFinset).card + stack.length ≤ fuel →
      ∀ a, a ∈ reachLoop next fuel stack seen ↔ Reaches next root a := by
  intro fuel
  induction fuel with
  | zero =>
    intro stack seen h hm a
    have hnil : stack = [] := eq_nil_of_length_eq_zero (by omega)
    subst hnil
    exact h.exact a
  | succ fuel ih =>
    intro stack seen h hm a
    cases stack with
    | nil => exact h.exact a
    | cons current stack =>
      obtain ⟨new, heq, hnodup, hnew⟩ := pushUnseen_eq (next current) seen stack
      simp only [reachLoop, heq]
      refine ih _ _ (h.step hnew) ?_ a
      rw [measure_push U hnodup fun a ha => ⟨hU current a ((hnew a).mp ha).1, ((hnew a).mp ha).2⟩]
      simp only [length_cons] at hm
      omega

/-- **The search is exact**: with more fuel than there are possible successors it
returns the vertices reachable from the root in at least one step. -/
theorem mem_reachFrom (U : Finset α) (hU : ∀ x, ∀ a ∈ next x, a ∈ U) {fuel : ℕ}
    (hfuel : U.card + 1 ≤ fuel) (a : α) :
    a ∈ reachFrom next fuel root ↔ Reaches next root a := by
  refine mem_reachLoop U hU fuel [root] [] LoopInv.init ?_ a
  simpa using hfuel

end Exact

/-! ## The mark-on-pop search is exact -/

section Visit

variable (next : α → List α) (root : α)

/-- The loop invariant: everything met is reachable, the root has been met, and the
successors of a marked vertex have been met. -/
structure VisitInv (stack seen : List α) : Prop where
  sound : ∀ a, a ∈ seen ∨ a ∈ stack → Relation.ReflTransGen (fun x y => y ∈ next x) root a
  rooted : root ∈ seen ∨ root ∈ stack
  closed : ∀ a ∈ seen, ∀ b ∈ next a, b ∈ seen ∨ b ∈ stack

variable {next root} {seen stack : List α} {current : α}

omit [DecidableEq α] in
theorem VisitInv.skip (h : VisitInv next root (current :: stack) seen) (hc : current ∈ seen) :
    VisitInv next root stack seen where
  sound a ha := h.sound a (by simp; tauto)
  rooted := by
    have := h.rooted
    grind
  closed a ha b hb := by
    have := h.closed a ha b hb
    grind

omit [DecidableEq α] in
theorem VisitInv.expand (h : VisitInv next root (current :: stack) seen) :
    VisitInv next root ((next current).reverse ++ stack) (current :: seen) where
  sound a ha := by
    have hcurrent := h.sound current (.inr mem_cons_self)
    simp only [mem_cons, mem_append, mem_reverse] at ha
    rcases ha with (rfl | ha) | ha | ha
    · exact hcurrent
    · exact h.sound a (.inl ha)
    · exact hcurrent.tail ha
    · exact h.sound a (.inr (mem_cons_of_mem _ ha))
  rooted := by
    have := h.rooted
    simp only [mem_cons, mem_append] at this ⊢
    tauto
  closed a ha b hb := by
    simp only [mem_cons, mem_append, mem_reverse] at ha ⊢
    rcases ha with rfl | ha
    · exact .inr (.inl hb)
    · have := h.closed a ha b hb
      simp only [mem_cons] at this
      tauto

omit [DecidableEq α] in
theorem VisitInv.exact (h : VisitInv next root [] seen) (a : α) :
    a ∈ seen ↔ Relation.ReflTransGen (fun x y => y ∈ next x) root a := by
  constructor
  · exact fun ha => h.sound a (.inl ha)
  · intro hr
    induction hr with
    | refl => simpa using h.rooted
    | tail _ hstep ih => simpa using h.closed _ ih _ hstep

/-- **The mark-on-pop search is exact** when the fuel covers the stack and the successors
that are still to be pushed. -/
theorem mem_visitLoop (pending : List α → ℕ)
    (hpending : ∀ seen a, a ∉ seen → pending (a :: seen) + (next a).length ≤ pending seen) :
    ∀ (fuel : ℕ) (stack seen : List α), VisitInv next root stack seen →
      stack.length + pending seen ≤ fuel →
      ∀ a, a ∈ visitLoop next fuel stack seen ↔
        Relation.ReflTransGen (fun x y => y ∈ next x) root a := by
  intro fuel
  induction fuel with
  | zero =>
    intro stack seen h hm a
    have hnil : stack = [] := eq_nil_of_length_eq_zero (by omega)
    subst hnil
    exact h.exact a
  | succ fuel ih =>
    intro stack seen h hm a
    cases stack with
    | nil => exact h.exact a
    | cons current stack =>
      simp only [length_cons] at hm
      simp only [visitLoop]
      split
      · rename_i hc
        exact ih _ _ (h.skip hc) (by omega) a
      · rename_i hc
        have hpush := hpending seen current hc
        refine ih _ _ h.expand ?_ a
        simp only [length_append, length_reverse]
        omega

end Visit

end Smap.Search
