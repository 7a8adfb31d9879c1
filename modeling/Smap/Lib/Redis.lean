import Mathlib.Data.Finset.Card

/-!
# A key-value store with the commands scripts use

Values are texts, integers (a text Redis keeps in integer form) and sets.  A command
applied to a value of the wrong kind is an error, modelled by `none`.  Keys do not
expire.

## Main definitions

* `Value`, `Store` — the data.
* `get`, `put`, `del`, `setNX`, `incr`, `sadd`, `scard` — the commands.
-/

namespace Smap.Redis

inductive Value where
  | str (s : String)
  | int (n : ℕ)
  | set (members : Finset String)
  deriving DecidableEq

def Store (κ : Type) := κ → Option Value

variable {κ : Type} [DecidableEq κ]

/-- No key is set. -/
def empty : Store κ := fun _ => none

/-- Keys that end in different numbers are different. -/
theorem toString_injective {m n : ℕ} (h : toString m = toString n) : m = n := by
  have hdigits := congrArg (fun s : String => Nat.ofDigitChars 10 s.toList 0) h
  simpa only [Nat.toString_eq_repr, Nat.toList_repr, Nat.ofDigitChars_ten_toDigits] using hdigits

/-- `SET key value`. -/
def put (r : Store κ) (key : κ) (v : Value) : Store κ := fun k => if k = key then some v else r k

/-- `DEL key`. -/
def del (r : Store κ) (key : κ) : Store κ := fun k => if k = key then none else r k

omit [DecidableEq κ] in
/-- `GET key`: the text under the key, `some none` when there is none. -/
def get (r : Store κ) (key : κ) : Option (Option String) :=
  match r key with
  | none => some none
  | some (.str s) => some (some s)
  | some (.int n) => some (some (toString n))
  | some (.set _) => none

/-- `SET key value NX`: whether the key was free. -/
def setNX (r : Store κ) (key : κ) (v : Value) : Store κ × Bool :=
  match r key with
  | none => (put r key v, true)
  | some _ => (r, false)

/-- `INCR key`. -/
def incr (r : Store κ) (key : κ) : Option (Store κ) :=
  match r key with
  | none => some (put r key (.int 1))
  | some (.int n) => some (put r key (.int (n + 1)))
  | some _ => none

/-- `SADD key member`. -/
def sadd (r : Store κ) (key : κ) (member : String) : Option (Store κ) :=
  match r key with
  | none => some (put r key (.set {member}))
  | some (.set members) => some (put r key (.set (insert member members)))
  | some _ => none

omit [DecidableEq κ] in
/-- `SCARD key`. -/
def scard (r : Store κ) (key : κ) : Option ℕ :=
  match r key with
  | none => some 0
  | some (.set members) => some members.card
  | some _ => none

@[simp] theorem put_apply (r : Store κ) (key k : κ) (v : Value) :
    put r key v k = if k = key then some v else r k := rfl

@[simp] theorem del_apply (r : Store κ) (key k : κ) :
    del r key k = if k = key then none else r k := rfl

variable {r : Store κ} {key : κ}

/-- `SADD` on a key that holds a set, or nothing for the empty one. -/
theorem sadd_of_members {members : Finset String}
    (h : r key = if members = ∅ then none else some (.set members)) (member : String) :
    sadd r key member = some (put r key (.set (insert member members))) := by
  unfold sadd
  by_cases hm : members = ∅
  · rw [h, if_pos hm, hm]
    rfl
  · rw [h, if_neg hm]

/-- `SET NX` under a condition is a one-shot latch: it succeeds when the condition
holds and the key is free, and touches no other key. -/
theorem setNX_latch {v : Value} {held : Bool} (h : r key = if held then some v else none)
    (want : Prop) [Decidable want] :
    ∃ r', (if want then setNX r key v else (r, false)) = (r', decide want && !held) ∧
      r' key = (if held || decide want then some v else none) ∧ ∀ k, k ≠ key → r' k = r k := by
  by_cases hw : want
  · cases held with
    | true => exact ⟨r, by simp_all [setNX], by simp_all, fun _ _ => rfl⟩
    | false =>
      refine ⟨put r key v, by simp_all [setNX], by simp_all, fun k hk => ?_⟩
      rw [put_apply, if_neg hk]
  · exact ⟨r, by simp [hw], by simpa [hw] using h, fun _ _ => rfl⟩

end Smap.Redis
