import Mathlib.Data.List.Basic

/-!
# The sliding-window rate limiter

`shared_kernel/auth/ratelimit.py`: one sorted set per limiter key, trimmed, counted and
extended by a script that Redis runs atomically.  `check` and `check_raw` differ in where the
key and the policy come from and then do the same.  The members of the set are texts the
script builds from the time and from `math.random`, so two calls of one millisecond may build
the same one.  The clock by which Redis expires the key is taken to be the one `now_ms` is
read from.
-/

namespace Smap.Limits

open List

/-- One execution of the script: the time the caller passes, and what `math.random` returns. -/
structure Call where
  nowMs : ℕ
  random : ℕ
  deriving DecidableEq

/-- The sorted set under one key, members with their scores, and when the key expires. -/
structure SortedSet where
  entries : List (String × ℕ) := []
  expiresAt : ℕ := 0

structure Policy where
  windowSec : ℕ
  maxCount : ℕ

structure Decision where
  allowed : Bool
  remaining : ℕ
  limit : ℕ
  resetMs : ℕ
  retryAfterSeconds : ℕ
  deriving DecidableEq

section Limiter

variable (tostring : ℕ → String)

/-- The text a call adds to the set. -/
def member (c : Call) : String := tostring c.nowMs ++ ":" ++ tostring c.random

/-- `ZREMRANGEBYSCORE key 0 (now - window)` on what has not expired. -/
def trimmed (windowMs : ℕ) (z : SortedSet) (nowMs : ℕ) : List (String × ℕ) :=
  (if z.expiresAt ≤ nowMs then [] else z.entries).filter fun e => nowMs < e.2 + windowMs

/-- `ZADD`: a member that is there already only gets the new score. -/
def zadd (entries : List (String × ℕ)) (m : String) (score : ℕ) : List (String × ℕ) :=
  entries.filter (fun e => e.1 ≠ m) ++ [(m, score)]

/-- `_SCRIPT`: whether the call is allowed, the count and the reset time, and the new set. -/
def script (windowMs maxCount : ℕ) (z : SortedSet) (c : Call) : (Bool × ℕ × ℕ) × SortedSet :=
  let kept := trimmed windowMs z c.nowMs
  if maxCount ≤ kept.length then
    let oldest := (kept.map Prod.snd).min?.getD c.nowMs
    ((false, kept.length, oldest + windowMs), { z with entries := kept })
  else
    ((true, kept.length + 1, c.nowMs + windowMs),
      ⟨zadd kept (member tostring c) c.nowMs, c.nowMs + windowMs⟩)

/-- `check_raw`. -/
def checkRaw (windowSec maxCount : ℕ) (z : SortedSet) (c : Call) : Decision × SortedSet :=
  let ((allowed, count, resetMs), z') := script tostring (windowSec * 1000) maxCount z c
  ({ allowed, remaining := maxCount - count, limit := maxCount, resetMs
     retryAfterSeconds := if allowed then 0 else max 1 ((resetMs - c.nowMs) / 1000 + 1) }, z')

/-- `check`, once the policy of the bucket and the key are resolved. -/
def check (p : Policy) : SortedSet → Call → Decision × SortedSet :=
  checkRaw tostring p.windowSec p.maxCount

/-- The calls of a sequence that are allowed, in order. -/
def allowedCalls (p : Policy) : SortedSet → List Call → List Call
  | _, [] => []
  | z, c :: rest =>
    let (decision, z') := check tostring p z c
    if decision.allowed then c :: allowedCalls p z' rest else allowedCalls p z' rest

/-- The later call is no earlier in time, and within a window it builds another member. -/
def Apart (windowMs : ℕ) (c c' : Call) : Prop :=
  c.nowMs ≤ c'.nowMs ∧
    (c'.nowMs < c.nowMs + windowMs → member tostring c ≠ member tostring c')

/-- From a time on, the set holds one member for each allowed call of the last window. -/
def Records (windowMs since : ℕ) (log : List Call) (z : SortedSet) : Prop :=
  ∀ nowMs, since ≤ nowMs → trimmed windowMs z nowMs =
    (log.filter fun c => nowMs < c.nowMs + windowMs).map fun c => (member tostring c, c.nowMs)

/-- Every interval of the window's length holds at most `maxCount` of the calls. -/
def Bounded (windowMs maxCount : ℕ) (log : List Call) : Prop :=
  ∀ t, (log.filter fun c => t ≤ c.nowMs ∧ c.nowMs < t + windowMs).length ≤ maxCount

end Limiter

variable {tostring : ℕ → String} {windowMs maxCount since : ℕ} {log : List Call} {z : SortedSet}
  {c : Call}

/-- Trimming early makes no difference later. -/
theorem trimmed_trimmed {nowMs later : ℕ} (h : nowMs ≤ later) :
    trimmed windowMs { z with entries := trimmed windowMs z nowMs } later =
      trimmed windowMs z later := by
  simp only [trimmed]
  by_cases hlater : z.expiresAt ≤ later
  · simp [hlater]
  have hnow : ¬ z.expiresAt ≤ nowMs := by omega
  simp only [hlater, hnow, if_false, filter_filter]
  apply filter_congr
  intro e _
  simp only [Bool.and_eq_decide, decide_eq_true_eq, decide_eq_decide]
  omega

/-- A denied call leaves the record as it is. -/
theorem Records.deny (h : Records tostring windowMs since log z) (hsince : since ≤ c.nowMs) :
    Records tostring windowMs c.nowMs log { z with entries := trimmed windowMs z c.nowMs } := by
  intro nowMs hnow
  rw [trimmed_trimmed hnow]
  exact h nowMs (Nat.le_trans hsince hnow)

/-- An allowed call is added to the record, where no other call has built its member. -/
theorem Records.allow (h : Records tostring windowMs since log z) (hsince : since ≤ c.nowMs)
    (hc : ∀ c' ∈ log, Apart tostring windowMs c' c) :
    Records tostring windowMs c.nowMs (log ++ [c])
      ⟨zadd (trimmed windowMs z c.nowMs) (member tostring c) c.nowMs, c.nowMs + windowMs⟩ := by
  intro nowMs hnow
  have hfresh : (trimmed windowMs z c.nowMs).filter (fun e => e.1 ≠ member tostring c) =
      trimmed windowMs z c.nowMs := by
    rw [h c.nowMs hsince, filter_eq_self]
    simp only [mem_map, mem_filter, decide_eq_true_eq]
    rintro _ ⟨c', ⟨hc', hwindow⟩, rfl⟩
    exact (hc c' hc').2 hwindow
  by_cases hexpired : c.nowMs + windowMs ≤ nowMs
  · have hout : (log ++ [c]).filter (fun c => nowMs < c.nowMs + windowMs) = [] := by
      simp only [filter_eq_nil_iff, mem_append, mem_singleton, decide_eq_true_eq]
      rintro c' (hc' | rfl)
      · have := (hc c' hc').1
        omega
      · omega
    simp [trimmed, hexpired, hout]
  · have hkept : (trimmed windowMs z c.nowMs).filter (fun e => nowMs < e.2 + windowMs) =
        (log.filter fun c => nowMs < c.nowMs + windowMs).map
          fun c => (member tostring c, c.nowMs) := by
      rw [h c.nowMs hsince, filter_map, filter_filter]
      congr 1
      apply filter_congr
      intro c' _
      simp only [Function.comp_apply, Bool.and_eq_decide, decide_eq_true_eq, decide_eq_decide]
      omega
    rw [trimmed, if_neg hexpired, zadd, hfresh, filter_append, hkept, filter_append, map_append]
    have hin : nowMs < c.nowMs + windowMs := by omega
    simp [hin]

/-- An allowed call fits in: the calls of a window that ends with it are in the set. -/
theorem Bounded.allow (h : Bounded windowMs maxCount log)
    (hroom : (log.filter fun c' => c.nowMs < c'.nowMs + windowMs).length < maxCount) :
    Bounded windowMs maxCount (log ++ [c]) := by
  intro t
  rw [filter_append, length_append]
  by_cases hc : t ≤ c.nowMs ∧ c.nowMs < t + windowMs
  · have hsub : (log.filter fun c' => t ≤ c'.nowMs ∧ c'.nowMs < t + windowMs).length ≤
        (log.filter fun c' => c.nowMs < c'.nowMs + windowMs).length := by
      apply List.Sublist.length_le
      apply monotone_filter_right
      intro c' hc'
      simp only [decide_eq_true_eq] at hc' ⊢
      omega
    have hone := length_filter_le (fun c' : Call => t ≤ c'.nowMs ∧ c'.nowMs < t + windowMs) [c]
    simp only [length_singleton] at hone
    omega
  · simpa [hc] using h t

theorem allowedCalls_bounded (p : Policy) {cs : List Call}
    (hrecords : Records tostring (p.windowSec * 1000) since log z)
    (hbounded : Bounded (p.windowSec * 1000) p.maxCount log) (hsince : ∀ c ∈ cs, since ≤ c.nowMs)
    (hapart : (log ++ cs).Pairwise (Apart tostring (p.windowSec * 1000))) :
    Bounded (p.windowSec * 1000) p.maxCount (log ++ allowedCalls tostring p z cs) := by
  induction cs generalizing log z since with
  | nil => simpa [allowedCalls] using hbounded
  | cons c rest ih =>
    have hsince' := hsince c mem_cons_self
    obtain ⟨hlog, hcons, hcross⟩ := pairwise_append.mp hapart
    have hc : ∀ c' ∈ log, Apart tostring (p.windowSec * 1000) c' c :=
      fun c' hc' => hcross c' hc' c mem_cons_self
    have hrest : ∀ c' ∈ rest, c.nowMs ≤ c'.nowMs :=
      fun c' hc' => ((pairwise_cons.mp hcons).1 c' hc').1
    by_cases hfull : p.maxCount ≤ (trimmed (p.windowSec * 1000) z c.nowMs).length
    · simp only [allowedCalls, check, checkRaw, script, hfull, if_true, Bool.false_eq_true,
        if_false]
      refine ih (hrecords.deny hsince') hbounded hrest (hapart.sublist ?_)
      exact (sublist_cons_self c rest).append_left log
    · simp only [allowedCalls, check, checkRaw, script, hfull, if_false, if_true]
      rw [append_cons]
      refine ih (hrecords.allow hsince' hc) (hbounded.allow ?_) hrest (by simpa using hapart)
      rwa [hrecords c.nowMs hsince', length_map, Nat.not_le] at hfull

/-- **In every interval of the window's length at most `maxCount` calls are allowed**, when no
two calls less than a window apart build the same member. -/
theorem sliding_window_bounded (tostring : ℕ → String) (p : Policy) (cs : List Call)
    (h : cs.Pairwise (Apart tostring (p.windowSec * 1000))) (t : ℕ) :
    ((allowedCalls tostring p {} cs).filter fun c =>
      t ≤ c.nowMs ∧ c.nowMs < t + p.windowSec * 1000).length ≤ p.maxCount := by
  have hrecords : Records tostring (p.windowSec * 1000) 0 [] {} := fun _ _ => by simp [trimmed]
  simpa using allowedCalls_bounded p hrecords (by simp [Bounded]) (by simp) (by simpa using h) t

/-- Two calls a second are allowed; three in one millisecond for which `math.random` returns the
same number build one member between them, and all three are allowed. -/
theorem window_exceeded :
    ((allowedCalls toString ⟨1, 2⟩ {} [⟨5000, 7⟩, ⟨5000, 7⟩, ⟨5000, 7⟩]).filter fun c =>
      5000 ≤ c.nowMs ∧ c.nowMs < 5000 + 1 * 1000).length = 3 := by
  decide +kernel

/-- With three different numbers the third call is denied. -/
theorem window_kept :
    ((allowedCalls toString ⟨1, 2⟩ {} [⟨5000, 7⟩, ⟨5000, 8⟩, ⟨5000, 9⟩]).filter fun c =>
      5000 ≤ c.nowMs ∧ c.nowMs < 5000 + 1 * 1000).length ≤ 2 :=
  sliding_window_bounded toString ⟨1, 2⟩ _ (by simp [Apart]; decide +kernel) 5000

/-! ## Retry-After -/

/-- The set after a sequence of calls on a fresh key. -/
def after (tostring : ℕ → String) (p : Policy) (cs : List Call) : SortedSet :=
  cs.foldl (fun z c => (check tostring p z c).2) {}

theorem length_trimmed_le (nowMs : ℕ) : (trimmed windowMs z nowMs).length ≤ z.entries.length := by
  refine Nat.le_trans (length_filter_le _ _) ?_
  split
  · exact Nat.zero_le _
  · exact Nat.le_refl _

theorem length_entries_check {p : Policy} (h : z.entries.length ≤ p.maxCount) :
    (check tostring p z c).2.entries.length ≤ p.maxCount := by
  by_cases hfull : p.maxCount ≤ (trimmed (p.windowSec * 1000) z c.nowMs).length
  · simp only [check, checkRaw, script, hfull, if_true]
    exact Nat.le_trans (length_trimmed_le _) h
  · simp only [check, checkRaw, script, hfull, if_false, zadd, length_append, length_singleton]
    have hle := length_filter_le (fun e => decide (e.1 ≠ member tostring c))
      (trimmed (p.windowSec * 1000) z c.nowMs)
    omega

/-- The set never holds more than `maxCount` members. -/
theorem length_entries_foldl (p : Policy) (cs : List Call) (h : z.entries.length ≤ p.maxCount) :
    (cs.foldl (fun z c => (check tostring p z c).2) z).entries.length ≤ p.maxCount := by
  induction cs generalizing z with
  | nil => exact h
  | cons c rest ih => exact ih (length_entries_check h)

/-- **Retry-After is sufficient.**  When the time a denied call is told has passed, the oldest
member has left the set, and that makes room for the next call. -/
theorem retry_after_sufficient (tostring : ℕ → String) (p : Policy) (hmax : 1 ≤ p.maxCount)
    (cs : List Call) (c c' : Call)
    (hdenied : (check tostring p (after tostring p cs) c).1.allowed = false)
    (hlater : c.nowMs + 1000 * (check tostring p (after tostring p cs) c).1.retryAfterSeconds ≤
      c'.nowMs) :
    (check tostring p (after tostring p (cs ++ [c])) c').1.allowed = true := by
  have hlength : (after tostring p cs).entries.length ≤ p.maxCount :=
    length_entries_foldl p cs (Nat.zero_le _)
  simp only [after, foldl_append, foldl_cons, foldl_nil] at hlength hdenied hlater ⊢
  generalize cs.foldl (fun z c => (check tostring p z c).2) {} = z at hlength hdenied hlater ⊢
  by_cases hfull : p.maxCount ≤ (trimmed (p.windowSec * 1000) z c.nowMs).length
  · simp only [check, checkRaw, script, hfull, if_true, Bool.false_eq_true, if_false] at hlater ⊢
    have hkept : (trimmed (p.windowSec * 1000) z c.nowMs).length ≤ z.entries.length :=
      length_trimmed_le _
    generalize trimmed (p.windowSec * 1000) z c.nowMs = kept at hfull hlater hkept ⊢
    obtain ⟨oldest, holdest⟩ : ∃ oldest, (kept.map Prod.snd).min? = some oldest := by
      rw [← Option.isSome_iff_exists, isSome_min?_iff, ne_eq, map_eq_nil_iff]
      rintro rfl
      simp only [length_nil] at hfull
      omega
    rw [holdest, Option.getD_some] at hlater
    obtain ⟨e, he, rfl⟩ := mem_map.mp (min?_mem holdest)
    have hgone : (trimmed (p.windowSec * 1000) { z with entries := kept } c'.nowMs).length <
        kept.length := by
      simp only [trimmed]
      split
      · exact length_pos_of_mem he
      · refine length_filter_lt_length_iff_exists.mpr ⟨e, he, ?_⟩
        simp only [decide_eq_true_eq]
        omega
    have hroom : ¬ p.maxCount ≤
        (trimmed (p.windowSec * 1000) { z with entries := kept } c'.nowMs).length := by omega
    simp only [hroom, if_false]
  · simp [check, checkRaw, script, hfull] at hdenied

/-- Two calls a second: the third, 400 milliseconds after the first, is told to come back in
one second, and is allowed then. -/
theorem allowed_after_retry :
    (check toString ⟨1, 2⟩ (after toString ⟨1, 2⟩ ([⟨5000, 7⟩, ⟨5200, 8⟩] ++ [⟨5400, 9⟩]))
      ⟨6400, 3⟩).1.allowed = true :=
  retry_after_sufficient toString ⟨1, 2⟩ (by decide) [⟨5000, 7⟩, ⟨5200, 8⟩] ⟨5400, 9⟩ ⟨6400, 3⟩
    (by decide +kernel) (by decide +kernel)

end Smap.Limits
