import Mathlib.Algebra.Order.BigOperators.Group.List
import Mathlib.Data.List.Induction
import Mathlib.Data.Rat.Floor
import Mathlib.Tactic.Linarith

/-!
# Hourly usage

`shared_kernel/infra/redis_buckets.py`: one hash per minute, which every `record` of that minute
adds to and whose time to live it renews, and `usage`, which sums sixty of them.  The hashes here
are those of one subject, by minute, and Redis expires them by the clock the calls read.

The numbers of a script are doubles: the sums of `_LUA_AGGREGATE` are exact below `2 ^ 53`, and
the first odd number above that is not (`usage_rounded`).
-/

namespace Smap.Limits

open List

/-- The fields of a hash. -/
inductive Counter where
  | inputTokens
  | outputTokens
  | requests

abbrev Usage := Counter → ℕ

def bucketSeconds : ℕ := 60

def windowBuckets : ℕ := 60

def bucketTtlSeconds : ℕ := bucketSeconds * (windowBuckets + 1)

def currentBucket (now : ℚ) : ℤ := ⌊now / bucketSeconds⌋

structure Bucket where
  fields : Usage
  expiresAt : ℚ

abbrev Buckets := ℤ → Option Bucket

/-- `HMGET`: a field that is not there counts nothing. -/
def hmget (buckets : Buckets) (now : ℚ) (k : ℤ) (c : Counter) : ℕ :=
  match buckets k with
  | none => 0
  | some b => if now < b.expiresAt then b.fields c else 0

/-- `HINCRBY`: what does not fit a signed 64-bit integer is an error, and is not added. -/
def hincrby (value amount : ℕ) : ℕ := if value + amount < 2 ^ 63 then value + amount else value

/-- `record`. -/
def record (buckets : Buckets) (now : ℚ) (amounts : Usage) : Buckets :=
  if amounts .inputTokens = 0 ∧ amounts .outputTokens = 0 ∧ amounts .requests = 0 then buckets
  else Function.update buckets (currentBucket now) (some
    { fields := fun c => hincrby (hmget buckets now (currentBucket now) c) (amounts c)
      expiresAt := now + bucketTtlSeconds })

/-- The double next to a number, of 53 significant bits; of two that are equally near, the one
whose last bit is zero. -/
def toDouble (n : ℕ) : ℕ :=
  let unit := 2 ^ (n.log2 - 52)
  let q := n / unit
  let r := n % unit
  if unit < 2 * r ∨ unit = 2 * r ∧ q % 2 = 1 then (q + 1) * unit else q * unit

/-- The loop of `_LUA_AGGREGATE` for one field: `tonumber`, and a sum of doubles. -/
def luaSum (values : List ℕ) : ℕ :=
  values.foldl (fun sum value => toDouble (sum + toDouble value)) 0

/-- `usage`. -/
def usage (buckets : Buckets) (now : ℚ) (c : Counter) : ℕ :=
  luaSum ((range windowBuckets).map fun i : ℕ => hmget buckets now (currentBucket now - i) c)

/-- What a sequence of calls leaves. -/
def recorded (calls : List (ℚ × Usage)) : Buckets :=
  calls.foldl (fun buckets call => record buckets call.1 call.2) fun _ => none

/-- What the calls of some times have recorded. -/
def total (calls : List (ℚ × Usage)) (c : Counter) (when : ℚ → Bool) : ℕ :=
  (calls.map fun call => if when call.1 then call.2 c else 0).sum

theorem toDouble_of_lt {n : ℕ} (h : n < 2 ^ 53) : toDouble n = n := by
  have hexact : n.log2 - 52 = 0 := by
    by_cases hn : n = 0
    · rw [hn]
      rfl
    · have := (Nat.log2_lt hn).mpr h
      omega
  simp [toDouble, hexact, Nat.mod_one]

/-- The sums that are exact. -/
theorem luaSum_eq_sum {values : List ℕ} (h : values.sum < 2 ^ 53) : luaSum values = values.sum := by
  have hloop : ∀ start, start + values.sum < 2 ^ 53 →
      values.foldl (fun sum value => toDouble (sum + toDouble value)) start =
        start + values.sum := by
    clear h
    induction values with
    | nil => simp
    | cons value values ih =>
      intro start hstart
      rw [sum_cons] at hstart
      rw [foldl_cons, toDouble_of_lt (n := value) (by omega), toDouble_of_lt (by omega),
        ih _ (by omega), sum_cons, Nat.add_assoc]
  simpa [luaSum] using hloop 0 (by simpa using h)

variable {calls : List (ℚ × Usage)} {now : ℚ} {k : ℤ} {c : Counter} {when when' : ℚ → Bool}

theorem currentBucket_bounds (now : ℚ) : 60 * (currentBucket now : ℚ) ≤ now ∧
    now < 60 * (currentBucket now : ℚ) + 60 := by
  have hfloor := Int.floor_le (now / bucketSeconds)
  have hlt := Int.lt_floor_add_one (now / bucketSeconds)
  simp only [currentBucket, bucketSeconds, Nat.cast_ofNat] at hfloor hlt ⊢
  constructor <;> linarith

theorem total_or (h : ∀ t, when t = true → when' t = false) :
    total calls c (fun t => when t || when' t) = total calls c when + total calls c when' := by
  induction calls with
  | nil => rfl
  | cons call calls ih =>
    simp only [total, map_cons, sum_cons] at ih ⊢
    have := h call.1
    grind

theorem total_mono (h : ∀ call ∈ calls, when call.1 = true → when' call.1 = true) :
    total calls c when ≤ total calls c when' := by
  refine List.sum_le_sum fun call hcall => ?_
  have := h call hcall
  grind

/-- **No hash has expired while it can be asked for**: from the first second of its minute on, it
is there for longer than an hour. -/
theorem hmget_recorded (htimes : calls.Pairwise fun a b => a.1 ≤ b.1)
    (hnow : ∀ call ∈ calls, call.1 ≤ now) (hk : now < 60 * k + bucketTtlSeconds)
    (hfits : total calls c (fun t => currentBucket t = k) < 2 ^ 63) :
    hmget (recorded calls) now k c = total calls c fun t => currentBucket t = k := by
  induction calls using reverseRecOn generalizing now with
  | nil => rfl
  | append_singleton calls call ih =>
    obtain ⟨time, amounts⟩ := call
    obtain ⟨hcalls, -, hlast⟩ := pairwise_append.mp htimes
    have hbefore : ∀ call ∈ calls, call.1 ≤ time := by simpa using hlast
    have hsplit : recorded (calls ++ [(time, amounts)]) = record (recorded calls) time amounts := by
      simp [recorded]
    have hsum : total (calls ++ [(time, amounts)]) c (fun t => currentBucket t = k) =
        total calls c (fun t => currentBucket t = k) +
          if currentBucket time = k then amounts c else 0 := by
      simp [total]
    rw [hsum] at hfits
    have hrest := ih hcalls (fun call hcall => hnow call (by simp [hcall])) hk (by omega)
    rw [hsplit, hsum, record]
    by_cases hzero : amounts .inputTokens = 0 ∧ amounts .outputTokens = 0 ∧ amounts .requests = 0
    · have hnone : amounts c = 0 := by cases c <;> simp [hzero]
      simp [hzero, hnone, hrest]
    rw [if_neg hzero]
    by_cases hbucket : currentBucket time = k
    · subst hbucket
      obtain ⟨hle, hlt⟩ := currentBucket_bounds time
      have hkept : now < time + bucketTtlSeconds := by linarith
      have hsame := ih hcalls hbefore (hlt.trans
        (by norm_num [bucketTtlSeconds, bucketSeconds, windowBuckets])) (by omega)
      rw [if_pos rfl] at hfits ⊢
      rw [hsame.symm] at hfits ⊢
      rw [hmget, Function.update_self]
      simp only [hkept, if_true]
      rw [hincrby, if_pos hfits]
    · simp [hmget, hbucket, Ne.symm hbucket, ← hrest]

/-- The minutes of a window one by one. -/
theorem sum_total (calls : List (ℚ × Usage)) (k : ℤ) (c : Counter) (n : ℕ) :
    ((range n).map fun i : ℕ => total calls c fun t => currentBucket t = k - i).sum =
    total calls c fun t => k - n < currentBucket t ∧ currentBucket t ≤ k := by
  induction n with
  | zero =>
    have hnone : ∀ t, ¬ (k < currentBucket t ∧ currentBucket t ≤ k) := by omega
    simp [total, hnone]
  | succ n ih =>
    rw [range_succ, map_append, sum_append, ih, map_singleton, sum_singleton, ← total_or]
    · congr 1
      funext t
      rw [← Bool.decide_or, decide_eq_decide]
      omega
    · simp only [decide_eq_true_eq, decide_eq_false_iff_not]
      omega

/-- **The hourly figure is accurate to one bucket**, below `2 ^ 53`. -/
theorem usage_within_bucket (calls : List (ℚ × Usage)) (now : ℚ) (c : Counter)
    (htimes : calls.Pairwise fun a b => a.1 ≤ b.1) (hnow : ∀ call ∈ calls, call.1 ≤ now)
    (hexact : total calls c (fun t => now - 60 * 60 < t) < 2 ^ 53) :
    total calls c (fun t => now - 59 * 60 ≤ t) ≤ usage (recorded calls) now c ∧
      usage (recorded calls) now c ≤ total calls c fun t => now - 60 * 60 < t := by
  obtain ⟨hle, hlt⟩ := currentBucket_bounds now
  -- the minutes that are summed begin within the hour, and are all of the last 59 minutes
  have hupper : total calls c (fun t => currentBucket now - (60 : ℕ) < currentBucket t ∧
      currentBucket t ≤ currentBucket now) ≤ total calls c fun t => now - 60 * 60 < t := by
    refine total_mono fun call _ ht => ?_
    obtain ⟨hle', -⟩ := currentBucket_bounds call.1
    simp only [decide_eq_true_eq] at ht ⊢
    have : (currentBucket now : ℚ) - 59 ≤ currentBucket call.1 := by
      exact_mod_cast Int.sub_left_le_of_le_add (by omega)
    linarith
  have hlower : total calls c (fun t => now - 59 * 60 ≤ t) ≤ total calls c (fun t =>
      currentBucket now - (60 : ℕ) < currentBucket t ∧ currentBucket t ≤ currentBucket now) := by
    refine total_mono fun call hcall ht => ?_
    obtain ⟨hle', hlt'⟩ := currentBucket_bounds call.1
    have hcall := hnow call hcall
    simp only [decide_eq_true_eq] at ht ⊢
    constructor
    · have : (currentBucket now : ℚ) - 60 < currentBucket call.1 := by linarith
      exact_mod_cast this
    · have : (currentBucket call.1 : ℚ) < currentBucket now + 1 := by linarith
      exact Int.lt_add_one_iff.mp (by exact_mod_cast this)
  have hminutes : ((range windowBuckets).map fun i : ℕ =>
      hmget (recorded calls) now (currentBucket now - i) c) = (range windowBuckets).map
        fun i : ℕ => total calls c fun t => currentBucket t = currentBucket now - i := by
    refine map_congr_left fun i hi => hmget_recorded htimes hnow ?_ ?_
    · have hi : (i : ℚ) ≤ 59 := by exact_mod_cast Nat.le_of_lt_succ (mem_range.mp hi)
      push_cast [bucketTtlSeconds, bucketSeconds, windowBuckets]
      linarith
    · have hminute : total calls c (fun t => currentBucket t = currentBucket now - i) ≤
          total calls c (fun t => currentBucket now - (60 : ℕ) < currentBucket t ∧
            currentBucket t ≤ currentBucket now) := by
        refine total_mono fun call _ ht => ?_
        have := mem_range.mp hi
        simp only [decide_eq_true_eq, windowBuckets] at *
        omega
      omega
  have hsum := sum_total calls (currentBucket now) c windowBuckets
  rw [← hminutes] at hsum
  have husage : usage (recorded calls) now c = _ :=
    (luaSum_eq_sum (by rw [hsum]; exact hupper.trans_lt hexact)).trans hsum
  rw [husage]
  exact ⟨hlower, hupper⟩

/-- A call of 3500 seconds ago counts, one of an hour ago no longer does. -/
theorem usage_within_bucket_hour :
    let calls := [((0 : ℚ), fun _ : Counter => 1), (100, fun _ => 2)]
    usage (recorded calls) 3600 .requests = 2 := by
  intro calls
  have h := usage_within_bucket calls 3600 .requests (by norm_num [calls]) (by norm_num [calls])
    (by norm_num [total, calls])
  norm_num [total, calls] at h ⊢
  omega

/-- The script has one token less than the call has recorded. -/
theorem usage_rounded :
    let calls := [((0 : ℚ), fun c : Counter => match c with | .inputTokens => 2 ^ 53 + 1 | _ => 0)]
    usage (recorded calls) 0 .inputTokens = 2 ^ 53 ∧
      total calls .inputTokens (fun t => 0 - 59 * 60 ≤ t) = 2 ^ 53 + 1 := by
  decide +kernel

end Smap.Limits
