import Mathlib.Algebra.Order.BigOperators.Group.Finset
import Smap.Lib.Expiring

/-!
# Tallies that expire

A tally is a finite set of fields with a number each: a Redis hash of numbers, or a sorted
set and its scores.  A slot is what stands under one key of a keyspace: a tally with a time
to live, or nothing.

`Slot.Keeps` says that a field is there and that its key lives up to an instant.  Every
command on the slot keeps the fields it is not about.  What a reader sees can only lose
fields, other than by `record`; `Tally.Part` is that relation.

## Main definitions

* `Tally`, `Tally.card`, `Tally.total` — the data, and what a reader adds up.
* `Tally.Part` — some of the fields, with their numbers.
* `Slot`, `Slot.read`, `Slot.record`, `Slot.discard`, `Slot.expire` — the commands.
* `Slot.Keeps` — a field that is safe up to an instant.
-/

namespace Smap.Expiring

open Finset Function

variable {α : Type}

structure Tally (α : Type) where
  fields : Finset α
  value : α → ℕ

variable {a b : α} {m n : ℕ}

namespace Tally

instance : EmptyCollection (Tally α) := ⟨⟨∅, fun _ => 0⟩⟩

/-- `HLEN`, `ZCARD`. -/
def card (s : Tally α) : ℕ := s.fields.card

/-- The sum of `HVALS`. -/
def total (s : Tally α) : ℕ := ∑ a ∈ s.fields, s.value a

/-- The field is there, with this number. -/
def Holds (s : Tally α) (a : α) (n : ℕ) : Prop := a ∈ s.fields ∧ s.value a = n

/-- Some of the fields, with the numbers they have. -/
structure Part (s s' : Tally α) : Prop where
  fields : s.fields ⊆ s'.fields
  value : ∀ a ∈ s.fields, s.value a = s'.value a

/-- `ZRANGEBYSCORE -inf n`. -/
def upTo (s : Tally α) (n : ℕ) : Finset α := s.fields.filter fun a => s.value a ≤ n

variable [DecidableEq α]

def insert (s : Tally α) (a : α) (n : ℕ) : Tally α :=
  ⟨Insert.insert a s.fields, update s.value a n⟩

def remove (s : Tally α) (gone : Finset α) : Tally α := ⟨s.fields \ gone, s.value⟩

variable {s : Tally α}

section Reading

omit [DecidableEq α]

variable {s' : Tally α}

theorem Part.refl (s : Tally α) : s.Part s := ⟨Subset.rfl, fun _ _ => rfl⟩

theorem empty_part (s : Tally α) : (∅ : Tally α).Part s :=
  ⟨empty_subset _, fun a ha => absurd ha (notMem_empty a)⟩

theorem Part.card_le (h : s.Part s') : s.card ≤ s'.card := card_le_card h.fields

theorem Part.total_le (h : s.Part s') : s.total ≤ s'.total := by
  calc s.total = ∑ a ∈ s.fields, s'.value a := sum_congr rfl h.value
    _ ≤ s'.total := sum_le_sum_of_subset h.fields

/-- Fields with known numbers add up to no more than the whole. -/
theorem sum_le_total {f : α → ℕ} {S : Finset α} (h : ∀ a ∈ S, s.Holds a (f a)) :
    S.card ≤ s.card ∧ ∑ a ∈ S, f a ≤ s.total := by
  have hpart : (⟨S, f⟩ : Tally α).Part s := ⟨fun a ha => (h a ha).1, fun a ha => (h a ha).2.symm⟩
  exact ⟨hpart.card_le, hpart.total_le⟩

theorem notMem_upTo (h : s.Holds a m) (hn : n < m) : a ∉ s.upTo n := by
  simp only [upTo, mem_filter, h.2, not_and, not_le]
  exact fun _ => hn

end Reading

theorem remove_part (s : Tally α) (gone : Finset α) : (s.remove gone).Part s :=
  ⟨sdiff_subset, fun _ _ => rfl⟩

theorem Holds.remove {gone : Finset α} (h : s.Holds a n) (ha : a ∉ gone) :
    (s.remove gone).Holds a n :=
  ⟨mem_sdiff.mpr ⟨h.1, ha⟩, h.2⟩

theorem holds_insert_self (s : Tally α) (a : α) (n : ℕ) : (s.insert a n).Holds a n :=
  ⟨mem_insert_self _ _, update_self _ _ _⟩

theorem Holds.insert (h : s.Holds a n) (hab : a ≠ b) : (s.insert b m).Holds a n :=
  ⟨mem_insert_of_mem h.1, (update_of_ne hab _ _).trans h.2⟩

theorem card_insert_le (s : Tally α) (a : α) (n : ℕ) : (s.insert a n).card ≤ s.card + 1 :=
  Finset.card_insert_le a s.fields

theorem card_insert_of_holds (h : s.Holds a m) (n : ℕ) : (s.insert a n).card = s.card := by
  simp only [card, Tally.insert, insert_eq_of_mem h.1]

theorem total_insert_le (s : Tally α) (a : α) (n : ℕ) : (s.insert a n).total ≤ s.total + n := by
  have hrest : ∑ b ∈ s.fields.erase a, update s.value a n b =
      ∑ b ∈ s.fields.erase a, s.value b := by
    refine sum_congr rfl ?_
    intro b hb
    rw [update_of_ne (ne_of_mem_erase hb)]
  calc (s.insert a n).total
      = update s.value a n a + ∑ b ∈ (Insert.insert a s.fields).erase a, update s.value a n b :=
        (add_sum_erase _ _ (mem_insert_self a s.fields)).symm
    _ = n + ∑ b ∈ s.fields.erase a, s.value b := by
        rw [update_self, erase_insert_eq_erase, hrest]
    _ ≤ s.total + n := by
        rw [Nat.add_comm]
        exact Nat.add_le_add_right (sum_le_sum_of_subset (erase_subset _ _)) n

end Tally

/-! ## Slots -/

/-- What stands under a key. -/
abbrev Slot (α : Type) := Option (Entry (Tally α))

namespace Slot

/-- The slot at a time: nothing, once it has expired. -/
def live (s : Slot α) (t : ℕ) : Slot α := s.filter (Entry.liveAt · t)

/-- `HGETALL`, `ZRANGE`: an absent key has no fields. -/
def read (s : Slot α) (t : ℕ) : Tally α := ((s.live t).map Entry.value).getD ∅

/-- `EXPIRE`, with the instant the time to live comes down to. -/
def expire (s : Slot α) (t d : ℕ) : Slot α :=
  (s.live t).map fun e => { e with deadline := some d }

/-- The key lives up to an instant at least, and has the field with this number. -/
def Keeps (s : Slot α) (a : α) (n d : ℕ) : Prop :=
  ∃ e, s = some e ∧ (∀ d' ∈ e.deadline, d ≤ d') ∧ e.value.Holds a n

variable [DecidableEq α]

/-- `HSET key field n`, `ZADD key n member`: the time to live of the key is kept. -/
def record (s : Slot α) (t : ℕ) (a : α) (n : ℕ) : Slot α :=
  some ⟨(s.read t).insert a n, (s.live t).bind Entry.deadline⟩

/-- `HDEL`, `ZREM`: a key that has no field left is removed. -/
def discard (s : Slot α) (t : ℕ) (gone : Finset α) : Slot α :=
  (s.live t).bind fun e =>
    if (e.value.remove gone).fields = ∅ then none
    else some { e with value := e.value.remove gone }

variable {s : Slot α} {d t : ℕ}

section Reading

omit [DecidableEq α]

theorem live_eq_none_or (s : Slot α) (t : ℕ) :
    s.live t = none ∨ ∃ e, s = some e ∧ s.live t = some e ∧ e.liveAt t = true := by
  cases hlive : s.live t with
  | none => exact .inl rfl
  | some e =>
    obtain ⟨hs, he⟩ := Option.filter_eq_some_iff.mp hlive
    exact .inr ⟨e, hs, rfl, he⟩

variable {e : Entry (Tally α)}

theorem read_of_live (h : s.live t = some e) : s.read t = e.value := by
  simp [read, h]

theorem read_of_live_none (h : s.live t = none) : s.read t = ∅ := by
  simp [read, h]

theorem live_some (he : e.liveAt t = true) : live (some e) t = some e := by
  simp [live, he]

variable (h : s.Keeps a n d)

include h

theorem Keeps.live_eq (ht : t ≤ d) :
    ∃ e, s.live t = some e ∧ (∀ d' ∈ e.deadline, d ≤ d') ∧ e.value.Holds a n := by
  obtain ⟨⟨v, dead⟩, rfl, hdead, hvalue⟩ := h
  refine ⟨⟨v, dead⟩, live_some ?_, hdead, hvalue⟩
  cases dead with
  | none => rfl
  | some d' => simpa using Nat.le_trans ht (hdead d' rfl)

theorem Keeps.read (ht : t ≤ d) : (s.read t).Holds a n := by
  obtain ⟨e, hlive, -, hvalue⟩ := h.live_eq ht
  rw [read_of_live hlive]
  exact hvalue

theorem Keeps.mono {d' : ℕ} (hd : d' ≤ d) : s.Keeps a n d' := by
  obtain ⟨e, hs, hdead, hvalue⟩ := h
  exact ⟨e, hs, fun d'' hd'' => hd.trans (hdead d'' hd''), hvalue⟩

theorem Keeps.expire (ht : t ≤ d) (d' : ℕ) : (s.expire t d').Keeps a n d' := by
  obtain ⟨e, hlive, -, hvalue⟩ := h.live_eq ht
  refine ⟨{ e with deadline := some d' }, by simp [Slot.expire, hlive], ?_, hvalue⟩
  rintro d'' ⟨⟩
  exact Nat.le_refl _

omit h in
/-- As time goes by, fields are only lost. -/
theorem read_part_of_le {t' : ℕ} (htt : t ≤ t') : (s.read t').Part (s.read t) := by
  obtain hnone | ⟨e, rfl, hlive, he⟩ := live_eq_none_or s t'
  · rw [read_of_live_none hnone]
    exact Tally.empty_part _
  · rw [read_of_live hlive, read_of_live (live_some (Entry.liveAt_mono htt he))]
    exact .refl _

omit h in
theorem read_expire (ht : t ≤ d) : (s.expire t d).read t = s.read t := by
  obtain hnone | ⟨e, -, hlive, -⟩ := live_eq_none_or s t
  · rw [read_of_live_none hnone, expire, hnone]
    rfl
  · have he : ({ e with deadline := some d } : Entry (Tally α)).liveAt t = true := by
      simpa using ht
    rw [read_of_live hlive, expire, hlive, Option.map_some, read_of_live (live_some he)]

end Reading

theorem live_record : (s.record t a n).live t = s.record t a n := by
  refine live_some ?_
  obtain hnone | ⟨e, -, hlive, he⟩ := live_eq_none_or s t
  · rw [hnone]
    rfl
  · rw [hlive]
    exact he

theorem read_record : (s.record t a n).read t = (s.read t).insert a n :=
  read_of_live live_record

/-- A field that is recorded under a key that is then given a time to live. -/
theorem keeps_expire_record (s : Slot α) (t : ℕ) (a : α) (n d : ℕ) :
    ((s.record t a n).expire t d).Keeps a n d := by
  refine ⟨⟨(s.read t).insert a n, some d⟩, ?_, ?_, Tally.holds_insert_self _ _ _⟩
  · rw [expire, live_record]
    rfl
  · rintro d' ⟨⟩
    exact Nat.le_refl _

theorem Keeps.record (h : s.Keeps a n d) (ht : t ≤ d) (hab : a ≠ b) :
    (s.record t b m).Keeps a n d := by
  obtain ⟨e, hlive, hdead, hvalue⟩ := h.live_eq ht
  refine ⟨_, rfl, ?_, ?_⟩
  · rw [hlive]
    exact hdead
  · rw [read_of_live hlive]
    exact hvalue.insert hab

theorem Keeps.discard {gone : Finset α} (h : s.Keeps a n d) (ht : t ≤ d) (ha : a ∉ gone) :
    (s.discard t gone).Keeps a n d := by
  obtain ⟨e, hlive, hdead, hvalue⟩ := h.live_eq ht
  have hleft := hvalue.remove ha
  refine ⟨{ e with value := e.value.remove gone }, ?_, hdead, hleft⟩
  rw [Slot.discard, hlive, Option.bind_some, if_neg (ne_empty_of_mem hleft.1)]

theorem read_discard_part (s : Slot α) (t : ℕ) (gone : Finset α) :
    ((s.discard t gone).read t).Part (s.read t) := by
  obtain hnone | ⟨e, -, hlive, he⟩ := live_eq_none_or s t
  · rw [discard, hnone, Option.bind_none]
    exact Tally.empty_part _
  · rw [discard, hlive, Option.bind_some, read_of_live hlive]
    split
    · exact Tally.empty_part _
    · rw [read_of_live (live_some (e := { e with value := e.value.remove gone }) he)]
      exact Tally.remove_part _ _

end Slot

end Smap.Expiring
