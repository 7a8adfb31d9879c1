import Smap.Lib.Tallies

/-!
# State of resumable uploads

`contexts/conversation/infrastructure/tus_store.py`: the state records of uploads, the
reservation tiers of users, projects and the host, and the hourly byte quotas, all of them
Redis keys that expire.  Each script is one function, applied at the Redis clock.

A tier is two keys, a sorted set of expiry times and a hash of lengths, both with the ids of
uploads as members.  Scripts visit the three tiers of an upload one after the other
(`Store.onTiers`).
-/

namespace Smap.Uploads

open Smap.Expiring

/-- Milliseconds. -/
abbrev Time := ℕ

/-- `time.time()` in whole seconds. -/
def Time.seconds (t : Time) : ℕ := t / 1000

def Time.hour (t : Time) : ℕ := t / (3600 * 1000)

def ttlSeconds : ℕ := 24 * 3600

def reservationKeyTtlSeconds : ℕ := ttlSeconds + 3600

def quotaKeyTtlSeconds : ℕ := 2 * 3600

def tusUserMaxActive : ℕ := 2

def tusUserMaxReservedBytes : ℕ := 2 * 1024 * 1024 * 1024

def tusProjectMaxActive : ℕ := 4

def tusProjectMaxReservedBytes : ℕ := 4 * 1024 * 1024 * 1024

def tusHostMaxActive : ℕ := 16

def tusHostMaxReservedBytes : ℕ := 8 * 1024 * 1024 * 1024

def tusUserHourlyBytes : ℕ := 2 * 1024 * 1024 * 1024

def tusProjectHourlyBytes : ℕ := 8 * 1024 * 1024 * 1024

/-- The deadline of a key that is given a time to live in seconds. -/
def Time.after (t : Time) (seconds : ℕ) : Time := t + seconds * 1000

inductive Purpose where
  | chatAttachment
  | ragSource
  | knowmapSource
  deriving DecidableEq

structure TusUpload (Uuid : Type) where
  uploadId : Uuid
  userId : Uuid
  uploadLength : ℕ
  uploadOffset : ℕ
  purpose : Purpose
  projectId : Uuid
  chatroomId : Option Uuid
  ragConfigId : Option Uuid
  knowmapConfigId : Option Uuid
  filename : String
  mime : String
  stagingPath : String
  metadataRaw : String
  deriving DecidableEq

/-- `_reservation_keys`, without their two suffixes. -/
inductive Scope (Uuid : Type) where
  | user (id : Uuid)
  | project (id : Uuid)
  | host
  deriving DecidableEq

/-- `_quota_key`. -/
inductive QuotaKey (Uuid : Type) where
  | user (id : Uuid) (hour : ℕ)
  | project (id : Uuid) (hour : ℕ)
  deriving DecidableEq

inductive TusReserveResult where
  | accepted
  | userActiveLimit
  | userByteLimit
  | projectActiveLimit
  | projectByteLimit
  | hostActiveLimit
  | hostByteLimit
  deriving DecidableEq

inductive TusOffsetUpdateResult where
  | accepted
  | mismatch
  | missing
  | userHourlyLimit
  | projectHourlyLimit
  deriving DecidableEq

/-- The keys `:expires` and `:bytes` of a scope. -/
structure Tier (Uuid : Type) where
  expires : Slot Uuid
  bytes : Slot Uuid

open Tier

structure Store (Uuid : Type) where
  uploads : Keyspace Uuid (TusUpload Uuid)
  tiers : Scope Uuid → Tier Uuid
  quotas : Keyspace (QuotaKey Uuid) ℤ

variable {Uuid : Type}

def Store.empty : Store Uuid where
  uploads := Expiring.empty
  tiers _ := ⟨none, none⟩
  quotas := Expiring.empty

/-- The tiers an upload is created under. -/
def TusUpload.scopes (u : TusUpload Uuid) : List (Scope Uuid) :=
  [.user u.userId, .project u.projectId, .host]

def Scope.maxActive : Scope Uuid → ℕ
  | .user _ => tusUserMaxActive
  | .project _ => tusProjectMaxActive
  | .host => tusHostMaxActive

/-- The bytes a tier may hold, given what is checked for the host. -/
def Scope.maxReservedBytes (hostCap : ℕ) : Scope Uuid → ℕ
  | .user _ => tusUserMaxReservedBytes
  | .project _ => tusProjectMaxReservedBytes
  | .host => hostCap

/-- What a creation checks for the host. -/
def hostCapOf (hostMaxReservedBytes : ℕ) : ℕ :=
  min tusHostMaxReservedBytes hostMaxReservedBytes

variable [DecidableEq Uuid]

/-- A loop over tiers. -/
def Store.onTiers (s : Store Uuid) (ks : List (Scope Uuid)) (f : Tier Uuid → Tier Uuid) :
    Store Uuid :=
  { s with tiers := ks.foldl (fun ts k => Function.update ts k (f (ts k))) s.tiers }

/-! ## The scripts -/

/-- `prune` of `_CREATE_SCRIPT`. -/
def Tier.prune (t : Time) (now : ℕ) (tier : Tier Uuid) : Tier Uuid :=
  let expired := (tier.expires.read t).upTo now
  if expired = ∅ then tier
  else ⟨tier.expires.discard t expired, tier.bytes.discard t expired⟩

/-- The end of `_CREATE_SCRIPT`, for one tier. -/
def Tier.reserve (t : Time) (now : ℕ) (id : Uuid) (length : ℕ) (tier : Tier Uuid) :
    Tier Uuid where
  expires := (tier.expires.record t id (now + ttlSeconds)).expire t
    (t.after reservationKeyTtlSeconds)
  bytes := (tier.bytes.record t id length).expire t (t.after reservationKeyTtlSeconds)

/-- The end of `_CAS_SCRIPT`, for one tier. -/
def Tier.refresh (t : Time) (now : ℕ) (id : Uuid) (tier : Tier Uuid) : Tier Uuid where
  expires := (tier.expires.record t id (now + ttlSeconds)).expire t
    (t.after reservationKeyTtlSeconds)
  bytes := tier.bytes.expire t (t.after reservationKeyTtlSeconds)

/-- The loop of `_DELETE_SCRIPT`, for one tier. -/
def Tier.release (t : Time) (id : Uuid) (tier : Tier Uuid) : Tier Uuid :=
  ⟨tier.expires.discard t {id}, tier.bytes.discard t {id}⟩

/-- The tier has no room for one more upload. -/
def Store.full (s : Store Uuid) (t : Time) (k : Scope Uuid) : Prop :=
  k.maxActive ≤ ((s.tiers k).expires.read t).card

/-- The tier has no room for so many bytes more. -/
def Store.over (s : Store Uuid) (t : Time) (hostCap length : ℕ) (k : Scope Uuid) : Prop :=
  k.maxReservedBytes hostCap < ((s.tiers k).bytes.read t).total + length

instance (s : Store Uuid) (t : Time) (k : Scope Uuid) : Decidable (s.full t k) :=
  inferInstanceAs (Decidable (_ ≤ _))

instance (s : Store Uuid) (t : Time) (hostCap length : ℕ) (k : Scope Uuid) :
    Decidable (s.over t hostCap length k) :=
  inferInstanceAs (Decidable (_ < _))

/-- The checks of `_CREATE_SCRIPT`, in their order. -/
def Store.refusal (s : Store Uuid) (t : Time) (hostCap : ℕ) (u : TusUpload Uuid) :
    Option TusReserveResult :=
  if s.full t (.user u.userId) then some .userActiveLimit
  else if s.over t hostCap u.uploadLength (.user u.userId) then some .userByteLimit
  else if s.full t (.project u.projectId) then some .projectActiveLimit
  else if s.over t hostCap u.uploadLength (.project u.projectId) then some .projectByteLimit
  else if s.full t .host then some .hostActiveLimit
  else if s.over t hostCap u.uploadLength .host then some .hostByteLimit
  else none

/-- `_CREATE_SCRIPT`.  A refused creation has pruned the tiers all the same. -/
def createScript (t : Time) (now hostCap : ℕ) (u : TusUpload Uuid) (s : Store Uuid) :
    TusReserveResult × Store Uuid :=
  if (live s.uploads t u.uploadId).isSome then (.accepted, s)
  else
    let s := s.onTiers u.scopes (prune t now)
    match s.refusal t hostCap u with
    | some refused => (refused, s)
    | none =>
      let s := { s with uploads := put s.uploads u.uploadId ⟨u, some (t.after ttlSeconds)⟩ }
      (.accepted, s.onTiers u.scopes (reserve t now u.uploadId u.uploadLength))

/-- `INCRBY`, and then `EXPIRE`. -/
def addToQuota (t : Time) (chunkBytes : ℤ) (quotas : Keyspace (QuotaKey Uuid) ℤ)
    (k : QuotaKey Uuid) : Keyspace (QuotaKey Uuid) ℤ :=
  expire (hset quotas t k ((get quotas t k).getD 0 + chunkBytes)) t k (t.after quotaKeyTtlSeconds)

/-- `_CAS_SCRIPT`.  `u` is the state that was read before, and only names the keys. -/
def casScript (t : Time) (id : Uuid) (u : TusUpload Uuid) (expectedOffset newOffset hour now : ℕ)
    (s : Store Uuid) : TusOffsetUpdateResult × Store Uuid :=
  match get s.uploads t id with
  | none => (.missing, s)
  | some data =>
    if data.uploadOffset ≠ expectedOffset then (.mismatch, s)
    else
      let userKey := .user u.userId hour
      let projectKey := .project u.projectId hour
      let userTotal := (get s.quotas t userKey).getD 0
      let projectTotal := (get s.quotas t projectKey).getD 0
      let chunkBytes : ℤ := newOffset - expectedOffset
      if tusUserHourlyBytes < userTotal + chunkBytes then (.userHourlyLimit, s)
      else if tusProjectHourlyBytes < projectTotal + chunkBytes then (.projectHourlyLimit, s)
      else
        let s := { s with
          quotas := addToQuota t chunkBytes (addToQuota t chunkBytes s.quotas userKey) projectKey
          uploads := put s.uploads id
            ⟨{ data with uploadOffset := newOffset }, some (t.after ttlSeconds)⟩ }
        (.accepted, s.onTiers u.scopes (refresh t now id))

/-- The quota a rollback gives back, never below zero. -/
def giveBack (t : Time) (chunkBytes : ℤ) (quotas : Keyspace (QuotaKey Uuid) ℤ)
    (k : QuotaKey Uuid) : Keyspace (QuotaKey Uuid) ℤ :=
  put quotas k
    ⟨max 0 ((get quotas t k).getD 0 - chunkBytes), some (t.after quotaKeyTtlSeconds)⟩

/-- `_ROLLBACK_SCRIPT`.  The state record is given a new time to live, the tiers are not. -/
def rollbackScript (t : Time) (u : TusUpload Uuid) (expectedOffset newOffset hour : ℕ)
    (s : Store Uuid) : Bool × Store Uuid :=
  match get s.uploads t u.uploadId with
  | none => (false, s)
  | some data =>
    if data.uploadOffset ≠ expectedOffset then (false, s)
    else
      let chunkBytes : ℤ := expectedOffset - newOffset
      (true, { s with
        quotas := giveBack t chunkBytes (giveBack t chunkBytes s.quotas (.user u.userId hour))
          (.project u.projectId hour)
        uploads := put s.uploads u.uploadId
          ⟨{ data with uploadOffset := newOffset }, some (t.after ttlSeconds)⟩ })

/-- `_DELETE_SCRIPT`. -/
def deleteScript (t : Time) (id : Uuid) (u : TusUpload Uuid) (s : Store Uuid) : Store Uuid :=
  match get s.uploads t id with
  | none => s
  | some _ =>
    { s with uploads := del s.uploads id }.onTiers u.scopes (release t id)

/-! ## The methods, each at one instant -/

def create (t : Time) (u : TusUpload Uuid) (hostMaxReservedBytes : ℕ) (s : Store Uuid) :
    TusReserveResult × Store Uuid :=
  createScript t t.seconds (hostCapOf hostMaxReservedBytes) u s

def updateOffset (t : Time) (id : Uuid) (expectedOffset newOffset : ℕ) (quotaHour : Option ℕ)
    (s : Store Uuid) : TusOffsetUpdateResult × Store Uuid :=
  match get s.uploads t id with
  | none => (.missing, s)
  | some u =>
    casScript t id u expectedOffset newOffset (quotaHour.getD t.hour) t.seconds s

def rollbackOffset (t : Time) (u : TusUpload Uuid) (expectedOffset newOffset : ℕ)
    (quotaHour : Option ℕ) (s : Store Uuid) : Bool × Store Uuid :=
  rollbackScript t u expectedOffset newOffset (quotaHour.getD t.hour) s

def delete (t : Time) (id : Uuid) (s : Store Uuid) : Store Uuid :=
  match get s.uploads t id with
  | none => s
  | some u => deleteScript t id u s

/-! ## What the scripts do to the state of an upload and to the tiers -/

section Tiers

variable {s : Store Uuid} {ks : List (Scope Uuid)} {f : Tier Uuid → Tier Uuid}

@[simp] theorem uploads_onTiers : (s.onTiers ks f).uploads = s.uploads := rfl

omit [DecidableEq Uuid] in
theorem TusUpload.nodup_scopes (u : TusUpload Uuid) : u.scopes.Nodup := by
  simp [scopes]

/-- A loop over different tiers applies its body to each of them once. -/
theorem tiers_onTiers (hks : ks.Nodup) (k : Scope Uuid) :
    (s.onTiers ks f).tiers k = if k ∈ ks then f (s.tiers k) else s.tiers k := by
  simp only [Store.onTiers]
  generalize s.tiers = ts
  induction ks generalizing ts with
  | nil => rfl
  | cons k' ks ih =>
    obtain ⟨hk', hks⟩ := List.nodup_cons.mp hks
    rw [List.foldl_cons, ih hks]
    by_cases hk : k = k'
    · subst hk
      simp [hk']
    · simp [hk]

theorem of_onTiers {P : Tier Uuid → Prop} (hks : ks.Nodup) {k : Scope Uuid}
    (hf : k ∈ ks → P (f (s.tiers k))) (hothers : k ∉ ks → P (s.tiers k)) :
    P ((s.onTiers ks f).tiers k) := by
  rw [tiers_onTiers hks]
  by_cases hk : k ∈ ks
  · rw [if_pos hk]
    exact hf hk
  · rw [if_neg hk]
    exact hothers hk

end Tiers

variable {s s' : Store Uuid} {t : Time} {u : TusUpload Uuid}

variable {hostCap : ℕ}

omit [DecidableEq Uuid] in
/-- What a creation that is not refused has found in each tier. -/
theorem room_of_refusal_eq_none (h : s.refusal t hostCap u = none) {k : Scope Uuid}
    (hk : k ∈ u.scopes) : ¬ s.full t k ∧ ¬ s.over t hostCap u.uploadLength k := by
  unfold Store.refusal at h
  split_ifs at h with h₁ h₂ h₃ h₄ h₅ h₆
  simp only [TusUpload.scopes, List.mem_cons, List.not_mem_nil, or_false] at hk
  rcases hk with rfl | rfl | rfl
  · exact ⟨h₁, h₂⟩
  · exact ⟨h₃, h₄⟩
  · exact ⟨h₅, h₆⟩

omit [DecidableEq Uuid] in
theorem refusal_ne_accepted : s.refusal t hostCap u ≠ some .accepted := by
  unfold Store.refusal
  split_ifs <;> simp

/-- What a creation leaves: nothing new where the id is taken, else pruned tiers, and a
reservation in each of them unless it is refused. -/
theorem createScript_cases (t : Time) (now hostCap : ℕ) (u : TusUpload Uuid) (s : Store Uuid) :
    live s.uploads t u.uploadId ≠ none ∧ createScript t now hostCap u s = (.accepted, s) ∨
      (∃ refused, refused ≠ .accepted ∧
        createScript t now hostCap u s =
          (refused, s.onTiers u.scopes (prune t now))) ∨
      live s.uploads t u.uploadId = none ∧
        (s.onTiers u.scopes (prune t now)).refusal t hostCap u = none ∧
        createScript t now hostCap u s =
          (.accepted,
            Store.onTiers
              { s.onTiers u.scopes (prune t now) with
                uploads := put s.uploads u.uploadId ⟨u, some (t.after ttlSeconds)⟩ }
              u.scopes (reserve t now u.uploadId u.uploadLength)) := by
  unfold createScript
  cases hlive : live s.uploads t u.uploadId with
  | some => exact .inl ⟨nofun, rfl⟩
  | none =>
    cases hrefusal : (s.onTiers u.scopes (prune t now)).refusal t hostCap u with
    | some refused =>
      refine .inr (.inl ⟨refused, ?_, by simp [hrefusal]⟩)
      rintro rfl
      exact refusal_ne_accepted hrefusal
    | none => exact .inr (.inr ⟨rfl, rfl, by simp [hrefusal]⟩)

/-- What a claim leaves: nothing new unless it is accepted. -/
theorem casScript_cases (t : Time) (id : Uuid) (u : TusUpload Uuid)
    (expectedOffset newOffset hour now : ℕ) (s : Store Uuid) :
    (casScript t id u expectedOffset newOffset hour now s).1 ≠ .accepted ∧
        (casScript t id u expectedOffset newOffset hour now s).2 = s ∨
      ∃ data quotas, get s.uploads t id = some data ∧ data.uploadOffset = expectedOffset ∧
        casScript t id u expectedOffset newOffset hour now s =
          (.accepted,
            Store.onTiers
              { s with
                quotas := quotas
                uploads := put s.uploads id
                  ⟨{ data with uploadOffset := newOffset }, some (t.after ttlSeconds)⟩ }
              u.scopes (refresh t now id)) := by
  unfold casScript
  cases hget : get s.uploads t id with
  | none => exact .inl ⟨by simp, rfl⟩
  | some data =>
    by_cases hoffset : data.uploadOffset = expectedOffset
    · simp only [hoffset, ne_eq, not_true_eq_false, ↓reduceIte]
      split_ifs
      · exact .inl ⟨by simp, rfl⟩
      · exact .inl ⟨by simp, rfl⟩
      · exact .inr ⟨data, _, rfl, hoffset, rfl⟩
    · simp only [hoffset, ne_eq, not_false_eq_true, ↓reduceIte]
      exact .inl ⟨by simp, trivial⟩

theorem updateOffset_cases (t : Time) (id : Uuid) (expectedOffset newOffset : ℕ)
    (quotaHour : Option ℕ) (s : Store Uuid) :
    (updateOffset t id expectedOffset newOffset quotaHour s).1 ≠ .accepted ∧
        (updateOffset t id expectedOffset newOffset quotaHour s).2 = s ∨
      ∃ data quotas, get s.uploads t id = some data ∧ data.uploadOffset = expectedOffset ∧
        updateOffset t id expectedOffset newOffset quotaHour s =
          (.accepted,
            Store.onTiers
              { s with
                quotas := quotas
                uploads := put s.uploads id
                  ⟨{ data with uploadOffset := newOffset }, some (t.after ttlSeconds)⟩ }
              data.scopes (refresh t t.seconds id)) := by
  unfold updateOffset
  cases hget : get s.uploads t id with
  | none => exact .inl ⟨nofun, rfl⟩
  | some u =>
    obtain hrejected | ⟨data, quotas, hdata, haccepted⟩ := casScript_cases t id u
      expectedOffset newOffset (quotaHour.getD t.hour) t.seconds s
    · exact .inl hrejected
    · obtain rfl := Option.some.inj (hdata.symm.trans hget)
      exact .inr ⟨data, quotas, rfl, haccepted⟩

/-- What a rollback leaves: nothing new unless it finds the offset it expects. -/
theorem rollbackScript_cases (t : Time) (u : TusUpload Uuid)
    (expectedOffset newOffset hour : ℕ) (s : Store Uuid) :
    rollbackScript t u expectedOffset newOffset hour s = (false, s) ∨
      ∃ data quotas, get s.uploads t u.uploadId = some data ∧
        data.uploadOffset = expectedOffset ∧
        rollbackScript t u expectedOffset newOffset hour s =
          (true,
            { s with
              quotas := quotas
              uploads := put s.uploads u.uploadId
                ⟨{ data with uploadOffset := newOffset }, some (t.after ttlSeconds)⟩ }) := by
  unfold rollbackScript
  cases hget : get s.uploads t u.uploadId with
  | none => exact .inl rfl
  | some data =>
    by_cases hoffset : data.uploadOffset = expectedOffset
    · simp only [hoffset, ne_eq, not_true_eq_false, ↓reduceIte]
      exact .inr ⟨data, _, rfl, hoffset, rfl⟩
    · simp only [hoffset, ne_eq, not_false_eq_true, ↓reduceIte]
      exact .inl trivial

end Smap.Uploads
