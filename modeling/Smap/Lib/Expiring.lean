import Mathlib.Data.List.Basic

/-!
# Keys that expire

A keyspace of a key-value store: each key has a value and possibly an instant after which
it counts as gone.  Nothing removes an expired key.  The reading commands take the time
and pass over it, and the writing commands treat it as absent, as Redis does.

The combined commands are reduced to `put`: a value that is written and given a time to
live in one block leaves exactly one entry, whatever was there before.

## Main definitions

* `Entry`, `Keyspace` — the data.
* `live`, `get`, `members` — what a reader sees at a time.
* `put`, `del`, `delAll`, `hset`, `expire`, `sadd`, `srem` — the commands.
-/

namespace Smap.Expiring

/-- A value, and the last instant at which it is still there. -/
structure Entry (ν : Type) where
  value : ν
  deadline : Option ℕ
  deriving DecidableEq

def Entry.liveAt {ν : Type} (e : Entry ν) (t : ℕ) : Bool :=
  e.deadline.all fun d => decide (t ≤ d)

abbrev Keyspace (κ ν : Type) := κ → Option (Entry ν)

variable {κ ν μ : Type}

/-- No key is set. -/
def empty : Keyspace κ ν := fun _ => none

/-- The entry under a key, if it has not expired. -/
def live (s : Keyspace κ ν) (t : ℕ) (k : κ) : Option (Entry ν) :=
  (s k).filter (Entry.liveAt · t)

/-- `GET`, `HGETALL`: the value under a key. -/
def get (s : Keyspace κ ν) (t : ℕ) (k : κ) : Option ν :=
  (live s t k).map Entry.value

/-- `SMEMBERS`: an absent key is the empty set. -/
def members (s : Keyspace κ (List μ)) (t : ℕ) (k : κ) : List μ :=
  (get s t k).getD []

section Commands

variable [DecidableEq κ]

def put (s : Keyspace κ ν) (key : κ) (e : Entry ν) : Keyspace κ ν :=
  fun k => if k = key then some e else s k

/-- `DEL key`. -/
def del (s : Keyspace κ ν) (key : κ) : Keyspace κ ν :=
  fun k => if k = key then none else s k

/-- Several keys are deleted. -/
def delAll (s : Keyspace κ ν) (keys : List κ) : Keyspace κ ν :=
  fun k => if k ∈ keys then none else s k

/-- `HSET key` with a full mapping: the time to live of the key is kept. -/
def hset (s : Keyspace κ ν) (t : ℕ) (key : κ) (v : ν) : Keyspace κ ν :=
  put s key ⟨v, (live s t key).bind Entry.deadline⟩

/-- `EXPIRE key`, with the instant the time to live comes down to. -/
def expire (s : Keyspace κ ν) (t : ℕ) (key : κ) (d : ℕ) : Keyspace κ ν :=
  match live s t key with
  | none => s
  | some e => put s key { e with deadline := some d }

variable [DecidableEq μ]

/-- `SADD key member`: the time to live of the key is kept. -/
def sadd (s : Keyspace κ (List μ)) (t : ℕ) (key : κ) (m : μ) : Keyspace κ (List μ) :=
  put s key ⟨(members s t key).insert m, (live s t key).bind Entry.deadline⟩

/-- What `SREM` leaves of a set: one that becomes empty is removed. -/
def without (m : μ) (e : Entry (List μ)) : Option (Entry (List μ)) :=
  let left := e.value.filter (· ≠ m)
  if left = [] then none else some { e with value := left }

/-- `SREM key member`. -/
def srem (s : Keyspace κ (List μ)) (t : ℕ) (key : κ) (m : μ) : Keyspace κ (List μ) :=
  fun k => if k = key then (live s t key).bind (without m) else s k

end Commands

/-! ## What a reader sees -/

variable {s : Keyspace κ ν} {t : ℕ} {k : κ} {e : Entry ν}

section Reading

@[simp] theorem Entry.liveAt_mk_some (v : ν) (d t : ℕ) :
    (⟨v, some d⟩ : Entry ν).liveAt t = decide (t ≤ d) := rfl

variable {t' : ℕ} {v : ν} {s' : Keyspace κ ν}

theorem Entry.liveAt_mono (htt : t ≤ t') (h : e.liveAt t' = true) : e.liveAt t = true := by
  rcases e with ⟨v, _ | d⟩
  · rfl
  · simp only [liveAt_mk_some, decide_eq_true_eq] at h ⊢
    exact Nat.le_trans htt h

theorem live_eq_some : live s t k = some e ↔ s k = some e ∧ e.liveAt t = true := by
  simp [live, Option.filter_eq_some_iff]

theorem get_eq_some :
    get s t k = some v ↔ ∃ d, s k = some ⟨v, d⟩ ∧ (⟨v, d⟩ : Entry ν).liveAt t = true := by
  unfold get
  constructor
  · intro h
    obtain ⟨⟨v', d⟩, he, rfl⟩ := Option.map_eq_some_iff.mp h
    exact ⟨d, live_eq_some.mp he⟩
  · rintro ⟨d, hd⟩
    rw [live_eq_some.mpr hd]
    rfl

theorem get_of_eq_none (h : s k = none) : get s t k = none := by
  simp [get, live, h]

@[simp] theorem get_empty : get (empty : Keyspace κ ν) t k = none := rfl

/-- A reader's answer depends on the entry only. -/
theorem get_congr (h : s' k = s k) : get s' t k = get s t k := by
  simp [get, live, h]

theorem live_congr (h : s' k = s k) : live s' t k = live s t k := by
  simp [live, h]

/-- As time goes by, keys are only lost. -/
theorem get_mono (htt : t ≤ t') (h : get s t' k = some v) : get s t k = some v := by
  obtain ⟨d, hd, hl⟩ := get_eq_some.mp h
  exact get_eq_some.mpr ⟨d, hd, Entry.liveAt_mono htt hl⟩

theorem members_of_live {sets : Keyspace κ (List μ)} {e : Entry (List μ)}
    (h : live sets t k = some e) : members sets t k = e.value := by
  simp [members, get, h]

end Reading

/-! ## What the commands leave -/

section Writing

variable [DecidableEq κ]

@[simp] theorem put_self (s : Keyspace κ ν) (key : κ) (e : Entry ν) : put s key e key = some e := by
  simp [put]

variable {key : κ} {keys : List κ}

theorem put_of_ne (h : k ≠ key) (s : Keyspace κ ν) (e : Entry ν) : put s key e k = s k := by
  simp [put, h]

theorem get_put_self (he : e.liveAt t = true) (key : κ) :
    get (put s key e) t key = some e.value := by
  simp [get, live, he]

/-- What is read after a write was written, or was there. -/
theorem get_put_cases (he : e.liveAt t = true) {key : κ} (h : get (put s key e) t k = some v) :
    k = key ∧ e.value = v ∨ k ≠ key ∧ get s t k = some v := by
  by_cases hk : k = key
  · subst hk
    exact .inl ⟨rfl, Option.some.inj ((get_put_self he k).symm.trans h)⟩
  · exact .inr ⟨hk, (get_congr (put_of_ne hk s e)).symm.trans h⟩

@[simp] theorem del_self (s : Keyspace κ ν) (key : κ) : del s key key = none := by
  simp [del]

theorem del_of_ne (h : k ≠ key) (s : Keyspace κ ν) : del s key k = s k := by
  simp [del, h]

/-- What is left after a deletion was there before. -/
theorem eq_some_of_del (h : del s key k = some e) : k ≠ key ∧ s k = some e := by
  by_cases hk : k = key
  · subst hk
    simp [del_self] at h
  · rw [del_of_ne hk] at h
    exact ⟨hk, h⟩

theorem delAll_cons (s : Keyspace κ ν) (key : κ) (keys : List κ) :
    delAll s (key :: keys) = delAll (del s key) keys := by
  funext k
  by_cases hk : k = key
  · subst hk
    simp [delAll]
  · simp [delAll, hk, del_of_ne]

theorem delAll_of_mem (h : k ∈ keys) (s : Keyspace κ ν) : delAll s keys k = none := if_pos h

theorem delAll_of_not_mem (h : k ∉ keys) (s : Keyspace κ ν) : delAll s keys k = s k := if_neg h

/-- An entry that is written replaces whatever stood under its key. -/
theorem put_congr {s' : Keyspace κ ν} (h : ∀ k, k ≠ key → s' k = s k) (e : Entry ν) :
    put s' key e = put s key e := by
  funext k
  by_cases hk : k = key
  · subst hk
    rw [put_self, put_self]
  · rw [put_of_ne hk, put_of_ne hk, h k hk]

theorem expire_of_ne {d : ℕ} (h : k ≠ key) : expire s t key d k = s k := by
  unfold expire
  cases live s t key with
  | none => rfl
  | some => exact put_of_ne h s _

/-- A command that puts an entry under a key that it then gives a time to live. -/
theorem expire_put (he : e.liveAt t = true) (d : ℕ) :
    expire (put s key e) t key d = put s key { e with deadline := some d } := by
  have hlive : live (put s key e) t key = some e := live_eq_some.mpr ⟨put_self s key e, he⟩
  rw [expire, hlive]
  exact put_congr (fun k hk => put_of_ne hk s e) _

omit [DecidableEq κ] in
/-- The time to live that a writing command keeps has not run out. -/
theorem liveAt_kept (key : κ) (v : ν) :
    (⟨v, (live s t key).bind Entry.deadline⟩ : Entry ν).liveAt t = true := by
  cases h : live s t key with
  | none => rfl
  | some => exact (live_eq_some.mp h).2

/-- `HSET` and then `EXPIRE`. -/
theorem expire_hset (key : κ) (v : ν) (d : ℕ) :
    expire (hset s t key v) t key d = put s key ⟨v, some d⟩ :=
  expire_put (liveAt_kept key v) d

variable [DecidableEq μ] {sets : Keyspace κ (List μ)}

theorem srem_of_ne (h : k ≠ key) (m : μ) : srem sets t key m k = sets k := by
  simp [srem, h]

/-- `SREM` takes the member out. -/
theorem members_srem (key : κ) (m : μ) :
    members (srem sets t key m) t key = (members sets t key).filter (· ≠ m) := by
  cases hlive : live sets t key with
  | none =>
    have hnone : srem sets t key m key = none := by simp [srem, hlive]
    rw [members, members, get_of_eq_none hnone, get, hlive]
    rfl
  | some e =>
    have hself : srem sets t key m key = without m e := by simp [srem, hlive]
    have he : e.liveAt t = true := (live_eq_some.mp hlive).2
    rw [members_of_live hlive, members]
    by_cases hleft : e.value.filter (· ≠ m) = []
    · rw [get_of_eq_none (hself.trans (if_pos hleft)), hleft]
      rfl
    · have hget : get (srem sets t key m) t key = some (e.value.filter (· ≠ m)) :=
        get_eq_some.mpr ⟨e.deadline, hself.trans (if_neg hleft), he⟩
      rw [hget]
      rfl

/-- `SADD` and then `EXPIRE`. -/
theorem expire_sadd (key : κ) (m : μ) (d : ℕ) :
    expire (sadd sets t key m) t key d =
      put sets key ⟨(members sets t key).insert m, some d⟩ :=
  expire_put (liveAt_kept key _) d

/-- `SREM`, `SADD` and then `EXPIRE`: the one member is replaced by the other. -/
theorem expire_sadd_srem (key : κ) (out into : μ) (d : ℕ) :
    expire (sadd (srem sets t key out) t key into) t key d =
      put sets key ⟨((members sets t key).filter (· ≠ out)).insert into, some d⟩ := by
  rw [expire_sadd, members_srem]
  exact put_congr (fun k hk => srem_of_ne hk out) _

end Writing

end Smap.Expiring
