import Smap.Chat.Cache

/-!
# What a merge of messages keeps

`mergeMessages` with its optional set, for any two lists of messages: which rows the result has
and in what order, and that a second merge of the same page changes nothing.
-/

namespace Smap.Chat

open List

/-- `mergeMessages`; without the set every cached row is known. -/
def mergePages (prev next : List Message) (knownAtRequest : Option (List String)) : List Message :=
  mergeMessages prev next (knownAtRequest.getD (prev.map Message.id))

/-- By `created_at`, then by `id`. -/
abbrev Message.Before (a b : Message) : Prop :=
  a.createdAt < b.createdAt ∨ a.createdAt = b.createdAt ∧ a.id < b.id

variable {ms prev next : List Message} {m x : Message} {known : Option (List String)}
  {time : String}

theorem Message.Before.trans {a b c : Message} (h : a.Before b) (h' : b.Before c) : a.Before c := by
  unfold Before at *
  grind

instance : Std.Asymm Message.Before where
  asymm a b := by
    unfold Message.Before
    grind

theorem Message.before_or_before (h : x.id ≠ m.id) : x.Before m ∨ m.Before x := by
  unfold Before
  grind

theorem pairwise_orderedInsert (hm : m.id ∉ ms.map Message.id) (h : ms.Pairwise Message.Before) :
    (ms.orderedInsert Message.Before m).Pairwise Message.Before := by
  induction ms with
  | nil => simp
  | cons x ms ih =>
    simp only [map_cons, mem_cons, not_or] at hm
    obtain ⟨hx, hms⟩ := pairwise_cons.mp h
    rw [orderedInsert_cons]
    split
    · rename_i hmx
      exact pairwise_cons.mpr ⟨forall_mem_cons.mpr ⟨hmx, fun y hy => hmx.trans (hx y hy)⟩, h⟩
    · rename_i hmx
      refine pairwise_cons.mpr ⟨fun y hy => ?_, ih hm.2 hms⟩
      rcases (mem_orderedInsert _).mp hy with rfl | hy
      · exact (Message.before_or_before hm.1).resolve_left hmx
      · exact hx y hy

theorem pairwise_insertionSort (h : (ms.map Message.id).Nodup) :
    (ms.insertionSort Message.Before).Pairwise Message.Before := by
  induction ms with
  | nil => simp
  | cons m ms ih =>
    obtain ⟨hm, hms⟩ := nodup_cons.mp h
    have hperm := (perm_insertionSort Message.Before ms).map Message.id
    exact pairwise_orderedInsert (fun hmem => hm (hperm.mem_iff.mp hmem)) (ih hms)

theorem pairwise_mergePages : (mergePages prev next known).Pairwise Message.Before :=
  pairwise_insertionSort (nodup_foldl_setMessage (nodup_foldl_setMessage nodup_nil))

/-- The window has begun by `time` if some row of the page has. -/
theorem any_windowStart :
    (windowStart next).any (· ≤ time) = next.any fun n => n.createdAt ≤ time := by
  have hloop : ∀ start : Option String, (next.foldl (fun start m =>
      if start.all (m.createdAt < ·) then some m.createdAt else start) start).any (· ≤ time) =
        (start.any (· ≤ time) || next.any fun n => n.createdAt ≤ time) := by
    induction next with
    | nil => simp
    | cons m next ih =>
      intro start
      rw [foldl_cons, ih, any_cons, ← Bool.or_assoc]
      congr 1
      cases start <;> grind
  exact hloop none

theorem mem_foldl_setMessage_iff (hnext : (next.map Message.id).Nodup) :
    x ∈ next.foldl setMessage ms ↔ x ∈ next ∨ x ∈ ms ∧ x.id ∉ next.map Message.id := by
  induction next generalizing ms with
  | nil => simp
  | cons m next ih =>
    obtain ⟨hm, hnext⟩ := nodup_cons.mp hnext
    rw [foldl_cons, ih hnext]
    have hset : x ∈ setMessage ms m ↔ x = m ∨ x ∈ ms ∧ x.id ≠ m.id := by
      simp only [setMessage]
      grind
    grind

theorem mem_mergePages (hprev : (prev.map Message.id).Nodup) (hnext : (next.map Message.id).Nodup) :
    x ∈ mergePages prev next known ↔ x ∈ next ∨ x ∈ prev ∧ x.id ∉ next.map Message.id ∧
      (next = [] ∨ (∀ n ∈ next, x.createdAt < n.createdAt) ∨ ∃ k, known = some k ∧ x.id ∉ k) := by
  rw [mergePages, mergeMessages, mem_insertionSort, mem_foldl_setMessage_iff hnext,
    mem_foldl_setMessage_iff (hprev.sublist (filter_sublist.map _)), mem_filter, any_windowStart]
  have hold : (∀ n ∈ next, x.createdAt < n.createdAt) ↔
      (next.any fun n => n.createdAt ≤ x.createdAt) = false := by
    simp
  rw [hold]
  have hempty : next = [] → (next.any fun n => n.createdAt ≤ x.createdAt) = false := by
    rintro rfl
    rfl
  have hknown : x ∈ prev → ((∃ k, known = some k ∧ x.id ∉ k) ↔
      x.id ∉ known.getD (prev.map Message.id)) := by
    intro hx
    cases known with
    | none => simpa using ⟨x, hx, rfl⟩
    | some k => simp
  grind

/-- **A merge is exact**, and a second one of the same page changes nothing. -/
theorem merge_exact (prev next : List Message) (known : Option (List String))
    (hprev : (prev.map Message.id).Nodup) (hnext : (next.map Message.id).Nodup) :
    ((mergePages prev next known).map Message.id).Nodup ∧
      (mergePages prev next known).Pairwise Message.Before ∧
      (∀ x ∈ mergePages prev next known, x ∈ next ∨ x ∈ prev) ∧
      (∀ x ∈ next, x ∈ mergePages prev next known) ∧
      (∀ x ∈ prev, x.id ∉ next.map Message.id → (x ∈ mergePages prev next known ↔
        next = [] ∨ (∀ n ∈ next, x.createdAt < n.createdAt) ∨
          ∃ k, known = some k ∧ x.id ∉ k)) ∧
      mergePages (mergePages prev next known) next known = mergePages prev next known := by
  have hids : ((mergePages prev next known).map Message.id).Nodup := nodup_mergeMessages
  refine ⟨hids, pairwise_mergePages, fun x => mem_mergeMessages,
    fun x hx => (mem_mergePages hprev hnext).mpr (.inl hx), fun x hx hid => ?_, ?_⟩
  · rw [mem_mergePages hprev hnext]
    have : x ∉ next := fun h => hid (mem_map_of_mem h)
    simp [this, hx, hid]
  · refine Pairwise.eq_of_mem_iff pairwise_mergePages pairwise_mergePages fun x => ?_
    rw [mem_mergePages hids hnext, mem_mergePages hprev hnext]
    tauto

/-- The version of `next` wins.  A row that came during the request stays, one that was known
goes. -/
theorem merge_exact_in_flight :
    mergePages (mergePages [⟨"a", "1", 0⟩, ⟨"b", "2", 0⟩, ⟨"c", "3", 0⟩] [⟨"a", "1", 1⟩]
        (some ["a", "b"])) [⟨"a", "1", 1⟩] (some ["a", "b"]) =
      [⟨"a", "1", 1⟩, ⟨"c", "3", 0⟩] :=
  (merge_exact _ _ _ (by decide) (by decide)).2.2.2.2.2.trans (by decide)

end Smap.Chat
