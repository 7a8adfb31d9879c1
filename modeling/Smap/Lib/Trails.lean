import Mathlib.Data.List.Chain
import Mathlib.Data.List.Nodup
import Mathlib.Data.Nat.Cast.Basic

/-!
# Trails

A request that may cause further requests can carry a trail: the parties it has been
through, and a counter of them.  Whoever passes the request on adds a party that is not on
the trail yet and refuses to go beyond a cap.  Carried unchanged from one hop to the next,
such a trail bounds the hops and keeps the parties distinct.

The counter and the path are separate values, as they are on the wire.  Nothing forces them
to agree; they do when they did at the start.

## Main definitions

* `Trail` — a counter and a path; `Trail.push` — one party more.
* `Trail.Tight` — the counter is the length of the path.
* `Trail.Extends` — one guarded hop.
-/

namespace Smap.Lib

open List

variable {R α β : Type*}

/-- A counter that goes up by one along a chain and stays under a cap bounds the length of
the chain. -/
theorem add_length_le_of_isChain [AddCommMonoidWithOne R] [Preorder R] {f : β → R} {cap : R}
    {xs : List β} {x : β} (h : (x :: xs).IsChain fun y z => f z = f y + 1 ∧ f z ≤ cap)
    (hx : f x ≤ cap) : f x + xs.length ≤ cap := by
  induction xs generalizing x with
  | nil => simpa using hx
  | cons y ys ih =>
    obtain ⟨⟨hy, hcap⟩, hys⟩ := isChain_cons_cons.mp h
    have key := ih hys hcap
    rw [hy] at key
    calc f x + ((y :: ys).length : R) = f x + 1 + ys.length := by
          rw [length_cons, Nat.cast_add_one, add_assoc, add_comm 1]
      _ ≤ cap := key

/-- The parties a request has been through, and a counter of them. -/
structure Trail (R α : Type*) where
  depth : R
  path : List α

namespace Trail

section Push

variable [Add R] [One R]

/-- The trail with one party more. -/
def push (t : Trail R α) (a : α) : Trail R α := ⟨t.depth + 1, t.path ++ [a]⟩

@[simp] theorem depth_push (t : Trail R α) (a : α) : (t.push a).depth = t.depth + 1 := rfl

@[simp] theorem path_push (t : Trail R α) (a : α) : (t.push a).path = t.path ++ [a] := rfl

/-- One hop: a party that is not on the trail is added, and the counter stays under the
cap. -/
def Extends [LE R] (cap : R) (t u : Trail R α) : Prop :=
  ∃ a, a ∉ t.path ∧ u = t.push a ∧ u.depth ≤ cap

/-- The party added last. -/
def tip (t : Trail R α) : Option α := t.path.getLast?

@[simp] theorem tip_push (t : Trail R α) (a : α) : (t.push a).tip = some a := by
  simp [tip]

variable {cap : R} {t u : Trail R α} {ts : List (Trail R α)}

theorem Extends.nodup_iff [LE R] (h : t.Extends cap u) : u.path.Nodup ↔ t.path.Nodup := by
  obtain ⟨a, ha, rfl, -⟩ := h
  rw [path_push, ← concat_eq_append, nodup_concat]
  exact and_iff_right ha

theorem Extends.subset [LE R] (h : t.Extends cap u) : t.path ⊆ u.path := by
  obtain ⟨a, -, rfl, -⟩ := h
  simp

/-- What a hop adds is not on any earlier trail. -/
theorem Extends.tip_notMem [LE R] (h : t.Extends cap u) : ∃ a, u.tip = some a ∧ a ∉ t.path := by
  obtain ⟨a, ha, rfl, -⟩ := h
  exact ⟨a, tip_push t a, ha⟩

/-- Along a chain of hops no tip is on the trail the chain starts from. -/
theorem tip_notMem_of_isChain [LE R] (h : (t :: ts).IsChain (Extends cap)) :
    ∀ u ∈ ts, ∃ a, u.tip = some a ∧ a ∉ t.path := by
  induction ts generalizing t with
  | nil => simp
  | cons v vs ih =>
    obtain ⟨htv, hvs⟩ := isChain_cons_cons.mp h
    intro u hu
    rcases mem_cons.mp hu with rfl | hu
    · exact htv.tip_notMem
    · obtain ⟨a, hua, hav⟩ := ih hvs u hu
      exact ⟨a, hua, fun hat => hav (htv.subset hat)⟩

/-- The parties added along a chain of hops are distinct, and the last one before the chain
is not among them. -/
theorem nodup_tips [LE R] (h : (t :: ts).IsChain (Extends cap)) (ht : t.path ≠ []) :
    ((t :: ts).map tip).Nodup := by
  induction ts generalizing t with
  | nil => simp
  | cons v vs ih =>
    obtain ⟨htv, hvs⟩ := isChain_cons_cons.mp h
    have hv : v.path ≠ [] := by
      obtain ⟨a, -, rfl, -⟩ := htv
      simp
    rw [map_cons, nodup_cons]
    refine ⟨?_, ih hvs hv⟩
    intro hmem
    obtain ⟨u, hu, htip⟩ := mem_map.mp hmem
    obtain ⟨a, hua, hat⟩ := tip_notMem_of_isChain h u hu
    rw [htip] at hua
    exact hat (mem_of_getLast? hua)

end Push

section Tight

variable [AddMonoidWithOne R] [IsRightCancelAdd R]

/-- The counter is the length of the path. -/
def Tight (t : Trail R α) : Prop := t.depth = t.path.length

variable {t : Trail R α}

@[simp] theorem tight_push {a : α} : (t.push a).Tight ↔ t.Tight := by
  simp [Tight]

theorem Extends.tight_iff [LE R] {cap : R} {u : Trail R α} (h : t.Extends cap u) :
    u.Tight ↔ t.Tight := by
  obtain ⟨a, -, rfl, -⟩ := h
  exact tight_push

end Tight

/-- Along a chain of hops the counter goes up by one and stays under the cap. -/
theorem isChain_depth [Add R] [One R] [LE R] {cap : R} {ts : List (Trail R α)}
    (h : ts.IsChain (Extends cap)) :
    ts.IsChain fun t u => u.depth = t.depth + 1 ∧ u.depth ≤ cap := by
  refine h.imp ?_
  rintro t u ⟨a, -, rfl, hcap⟩
  exact ⟨rfl, hcap⟩

end Trail

end Smap.Lib
