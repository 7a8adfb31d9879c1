import Smap.Uploads.Store

/-!
# Reservations of live uploads

Creations, claims, rollbacks and deletions, in any order and with time passing between
them.  A creation counts an upload in three tiers and an accepted claim renews its place
there, both for 24 hours from then on.  A rollback renews the state of the upload only.  So
an upload may outlive its reservation, and the next creation prunes it.
-/

namespace Smap.Uploads

open Smap.Expiring Function Slot Tier

variable {Uuid : Type}

/-- The store over time.  What stands below the store is read by no command. -/
structure Timeline (Uuid : Type) where
  clock : Time
  store : Store Uuid
  /-- When an upload was created, or its last claim accepted. -/
  claimedAt : Uuid → Time
  /-- What the last reservation was checked against for the host. -/
  hostCap : ℕ

inductive Command (Uuid : Type) where
  | tick (d : Time)
  | create (u : TusUpload Uuid) (hostMaxReservedBytes : ℕ)
  | claim (id : Uuid) (expectedOffset newOffset : ℕ) (quotaHour : Option ℕ)
  | rollback (u : TusUpload Uuid) (expectedOffset newOffset : ℕ) (quotaHour : Option ℕ)
  | delete (id : Uuid)

namespace Timeline

def initial (clock : Time) : Timeline Uuid where
  clock := clock
  store := .empty
  claimedAt _ := clock
  hostCap := tusHostMaxReservedBytes

/-- The state key of the upload is alive. -/
def alive (w : Timeline Uuid) (id : Uuid) : Prop :=
  (live w.store.uploads w.clock id).isSome = true

instance (w : Timeline Uuid) (id : Uuid) : Decidable (w.alive id) :=
  inferInstanceAs (Decidable (_ = true))

def lengthOf (w : Timeline Uuid) (id : Uuid) : ℕ :=
  (get w.store.uploads w.clock id).elim 0 TusUpload.uploadLength

variable [DecidableEq Uuid]

def exec (w : Timeline Uuid) : Command Uuid → Timeline Uuid
  | .tick d => { w with clock := w.clock + d }
  | .create u hostMaxReservedBytes =>
    let result := create w.clock u hostMaxReservedBytes w.store
    if result.1 = .accepted ∧ live w.store.uploads w.clock u.uploadId = none then
      { w with
        store := result.2
        claimedAt := Function.update w.claimedAt u.uploadId w.clock
        hostCap := hostCapOf hostMaxReservedBytes }
    else { w with store := result.2 }
  | .claim id expectedOffset newOffset quotaHour =>
    let result := updateOffset w.clock id expectedOffset newOffset quotaHour w.store
    if result.1 = .accepted then
      { w with
        store := result.2
        claimedAt := Function.update w.claimedAt id w.clock }
    else { w with store := result.2 }
  | .rollback u expectedOffset newOffset quotaHour =>
    { w with store := (rollbackOffset w.clock u expectedOffset newOffset quotaHour w.store).2 }
  | .delete id => { w with store := delete w.clock id w.store }

def run (w : Timeline Uuid) (cs : List (Command Uuid)) : Timeline Uuid := cs.foldl exec w

/-- No time passes that leaves an upload alive 24 hours after it was created or last
claimed, in whole seconds. -/
def Timely (w : Timeline Uuid) : Command Uuid → Prop
  | .tick d => ∀ id, (live w.store.uploads (w.clock + d) id).isSome = true →
      (w.clock + d).seconds < (w.claimedAt id).seconds + ttlSeconds
  | _ => True

def AllTimely : List (Command Uuid) → Timeline Uuid → Prop
  | [], _ => True
  | c :: cs, w => w.Timely c ∧ AllTimely cs (w.exec c)

/-- Every live upload is counted with its length in its tiers, and the caps hold of the live
uploads. -/
structure Covered (w : Timeline Uuid) : Prop where
  counted : ∀ id u, get w.store.uploads w.clock id = some u → ∀ k ∈ u.scopes,
    id ∈ ((w.store.tiers k).expires.read w.clock).fields ∧
      ((w.store.tiers k).bytes.read w.clock).Holds id u.uploadLength
  within : ∀ (k : Scope Uuid) (S : Finset Uuid),
    (∀ id ∈ S, ∃ u, get w.store.uploads w.clock id = some u ∧ k ∈ u.scopes) →
      S.card ≤ k.maxActive ∧ ∑ id ∈ S, w.lengthOf id ≤ k.maxReservedBytes w.hostCap

end Timeline

/-! ## One tier -/

/-- The upload has its place in both keys of the tier. -/
def Tier.Keeps (tier : Tier Uuid) (id : Uuid) (score length : ℕ) (d : Time) : Prop :=
  tier.expires.Keeps id score d ∧ tier.bytes.Keeps id length d

/-- The tier is within its caps at a time. -/
def Tier.Within (tier : Tier Uuid) (t : Time) (active bytes : ℕ) : Prop :=
  (tier.expires.read t).card ≤ active ∧ (tier.bytes.read t).total ≤ bytes

theorem Time.le_after (t : Time) (seconds : ℕ) : t ≤ t.after seconds := Nat.le_add_right _ _

section Tiers

variable {tier : Tier Uuid} {t d : Time} {id id' : Uuid} {score length now active bytes : ℕ}

theorem Tier.Within.later {t' : Time} (h : tier.Within t active bytes) (htt : t ≤ t') :
    tier.Within t' active bytes :=
  ⟨(read_part_of_le htt).card_le.trans h.1, (read_part_of_le htt).total_le.trans h.2⟩

variable [DecidableEq Uuid]

variable (h : tier.Keeps id score length d)

include h

theorem Tier.Keeps.prune (ht : t ≤ d) (hnow : now < score) :
    (tier.prune t now).Keeps id score length d := by
  unfold Tier.prune
  have hid := Tally.notMem_upTo (h.1.read ht) hnow
  by_cases hempty : (tier.expires.read t).upTo now = ∅
  · rw [if_pos hempty]
    exact h
  · rw [if_neg hempty]
    exact ⟨h.1.discard ht hid, h.2.discard ht hid⟩

omit h in
theorem Tier.Within.prune (h : tier.Within t active bytes) (now : ℕ) :
    (tier.prune t now).Within t active bytes := by
  unfold Tier.prune
  by_cases hempty : (tier.expires.read t).upTo now = ∅
  · rw [if_pos hempty]
    exact h
  · rw [if_neg hempty]
    exact ⟨(read_discard_part _ _ _).card_le.trans h.1,
      (read_discard_part _ _ _).total_le.trans h.2⟩

omit h in
theorem Tier.keeps_reserve (tier : Tier Uuid) (t : Time) (now : ℕ) (id : Uuid) (length : ℕ) :
    (tier.reserve t now id length).Keeps id (now + ttlSeconds) length
      (t.after reservationKeyTtlSeconds) :=
  ⟨keeps_expire_record _ _ _ _ _, keeps_expire_record _ _ _ _ _⟩

theorem Tier.Keeps.reserve {n : ℕ} (ht : t ≤ d) (hid : id ≠ id')
    (hd : d ≤ t.after reservationKeyTtlSeconds) :
    (tier.reserve t now id' n).Keeps id score length d :=
  ⟨((h.1.record ht hid).expire ht _).mono hd, ((h.2.record ht hid).expire ht _).mono hd⟩

omit h in
/-- A reservation for which there was room. -/
theorem Tier.within_reserve (hactive : (tier.expires.read t).card < active)
    (hbytes : (tier.bytes.read t).total + length ≤ bytes) (now : ℕ) (id : Uuid) :
    (tier.reserve t now id length).Within t active bytes := by
  constructor
  · rw [reserve, read_expire (t.le_after _), read_record]
    exact (Tally.card_insert_le _ _ _).trans hactive
  · rw [reserve, read_expire (t.le_after _), read_record]
    exact (Tally.total_insert_le _ _ _).trans hbytes

omit h in
theorem Tier.keeps_refresh (h : tier.bytes.Keeps id length d) (ht : t ≤ d) (now : ℕ) :
    (tier.refresh t now id).Keeps id (now + ttlSeconds) length (t.after reservationKeyTtlSeconds) :=
  ⟨keeps_expire_record _ _ _ _ _, h.expire ht _⟩

theorem Tier.Keeps.refresh (ht : t ≤ d) (hid : id ≠ id')
    (hd : d ≤ t.after reservationKeyTtlSeconds) :
    (tier.refresh t now id').Keeps id score length d :=
  ⟨((h.1.record ht hid).expire ht _).mono hd, (h.2.expire ht _).mono hd⟩

omit h in
/-- A place that is renewed takes no room. -/
theorem Tier.Within.refresh (h : tier.Within t active bytes) (hid : tier.expires.Keeps id score d)
    (ht : t ≤ d) (now : ℕ) : (tier.refresh t now id).Within t active bytes := by
  constructor
  · rw [Tier.refresh, read_expire (t.le_after _), read_record,
      Tally.card_insert_of_holds (hid.read ht)]
    exact h.1
  · rw [Tier.refresh, read_expire (t.le_after _)]
    exact h.2

theorem Tier.Keeps.release (ht : t ≤ d) (hid : id ≠ id') :
    (tier.release t id').Keeps id score length d := by
  have hgone : id ∉ ({id'} : Finset Uuid) := by simpa using hid
  exact ⟨h.1.discard ht hgone, h.2.discard ht hgone⟩

omit h in
theorem Tier.Within.release (h : tier.Within t active bytes) (id : Uuid) :
    (tier.release t id).Within t active bytes :=
  ⟨(read_discard_part _ _ _).card_le.trans h.1, (read_discard_part _ _ _).total_le.trans h.2⟩

end Tiers

/-! ## All tiers -/

namespace Timeline

section Invariant

variable {w w' : Timeline Uuid} {id : Uuid} {u : TusUpload Uuid}

/-- A live upload has its place in each of its tiers, and is not due to be pruned. -/
structure Place (w : Timeline Uuid) (id : Uuid) (u : TusUpload Uuid) : Prop where
  timely : w.clock.seconds < (w.claimedAt id).seconds + ttlSeconds
  past : w.claimedAt id ≤ w.clock
  kept : ∀ k ∈ u.scopes, (w.store.tiers k).Keeps id ((w.claimedAt id).seconds + ttlSeconds)
    u.uploadLength ((w.claimedAt id).after reservationKeyTtlSeconds)

/-- What every command keeps. -/
structure Reserved (w : Timeline Uuid) : Prop where
  place : ∀ id u, get w.store.uploads w.clock id = some u → w.Place id u
  within : ∀ k, (w.store.tiers k).Within w.clock k.maxActive (k.maxReservedBytes w.hostCap)

/-- The keys of a tier outlive the places in it. -/
theorem Place.clock_le (h : w.Place id u) :
    w.clock ≤ (w.claimedAt id).after reservationKeyTtlSeconds := by
  have htimely := h.timely
  have hhour : ∀ t c n : ℕ, t / 1000 < c / 1000 + n → t ≤ c + (n + 3600) * 1000 := by
    intro t c n hn
    omega
  exact hhour w.clock (w.claimedAt id) ttlSeconds htimely

/-- A key that is renewed now outlives those that were renewed before. -/
theorem Place.after_le (h : w.Place id u) :
    (w.claimedAt id).after reservationKeyTtlSeconds ≤ w.clock.after reservationKeyTtlSeconds := by
  exact Nat.add_le_add_right h.past _

/-- A command that keeps the places of an upload, and its place in time. -/
theorem Place.congr (h : w.Place id u) (hclock : w'.clock = w.clock)
    (hclaimed : w'.claimedAt id = w.claimedAt id)
    (hkept : ∀ k ∈ u.scopes, ∀ score length d, w.clock.seconds < score → w.clock ≤ d →
      d ≤ w.clock.after reservationKeyTtlSeconds →
      (w.store.tiers k).Keeps id score length d → (w'.store.tiers k).Keeps id score length d) :
    w'.Place id u where
  timely := by rw [hclock, hclaimed]; exact h.timely
  past := by rw [hclock, hclaimed]; exact h.past
  kept k hk := by
    rw [hclaimed]
    exact hkept k hk _ _ _ h.timely h.clock_le h.after_le (h.kept k hk)

/-- An upload that is given its places now. -/
theorem place_now (hclaimed : w.claimedAt id = w.clock)
    (hkept : ∀ k ∈ u.scopes, (w.store.tiers k).Keeps id (w.clock.seconds + ttlSeconds)
      u.uploadLength (w.clock.after reservationKeyTtlSeconds)) : w.Place id u where
  timely := by simp [hclaimed, ttlSeconds]
  past := hclaimed.le
  kept := by rw [hclaimed]; exact hkept

theorem reserved_initial (clock : Time) : (initial clock : Timeline Uuid).Reserved where
  place id u h := by simp [initial, Store.empty] at h
  within k := ⟨Nat.zero_le _, Nat.zero_le _⟩

section Steps

variable (h : w.Reserved)

include h

theorem Reserved.covered : w.Covered where
  counted id u hget k hk := by
    have hplace := h.place id u hget
    have hkept := hplace.kept k hk
    exact ⟨(hkept.1.read hplace.clock_le).1, hkept.2.read hplace.clock_le⟩
  within k S hS := by
    have hholds : ∀ id ∈ S, ((w.store.tiers k).expires.read w.clock).Holds id
        ((w.claimedAt id).seconds + ttlSeconds) := by
      intro id hid
      obtain ⟨u, hget, hk⟩ := hS id hid
      have hplace := h.place id u hget
      exact (hplace.kept k hk).1.read hplace.clock_le
    have hlength : ∀ id ∈ S, ((w.store.tiers k).bytes.read w.clock).Holds id (w.lengthOf id) := by
      intro id hid
      obtain ⟨u, hget, hk⟩ := hS id hid
      have hplace := h.place id u hget
      rw [lengthOf, hget]
      exact (hplace.kept k hk).2.read hplace.clock_le
    exact ⟨(Tally.sum_le_total hholds).1.trans (h.within k).1,
      (Tally.sum_le_total hlength).2.trans (h.within k).2⟩

theorem Reserved.tick {d : Time} (htimely : w.Timely (.tick d)) :
    ({ w with clock := w.clock + d } : Timeline Uuid).Reserved where
  place id u hget := by
    have hplace := h.place id u (get_mono (Nat.le_add_right _ _) hget)
    have hlive : (live w.store.uploads (w.clock + d) id).isSome = true := by
      obtain ⟨e, he, -⟩ := Option.map_eq_some_iff.mp hget
      simp [he]
    exact ⟨htimely id hlive, hplace.past.trans (Nat.le_add_right _ _), hplace.kept⟩
  within k := (h.within k).later (Nat.le_add_right _ _)

variable [DecidableEq Uuid]

theorem Reserved.create {hostMaxReservedBytes : ℕ} :
    (w.exec (.create u hostMaxReservedBytes)).Reserved := by
  have hnodup := u.nodup_scopes
  -- Pruning takes no place of a live upload.
  have hpruned : ({ w with
      store := w.store.onTiers u.scopes (Tier.prune w.clock w.clock.seconds) } :
      Timeline Uuid).Reserved := by
    constructor
    · intro id v hget
      refine (h.place id v hget).congr rfl rfl ?_
      intro k _ score length d hscore hd _ hkeeps
      exact of_onTiers (P := (·.Keeps id score length d)) hnodup
        (fun _ => hkeeps.prune hd hscore) (fun _ => hkeeps)
    · intro k
      exact of_onTiers (P := (·.Within w.clock _ _)) hnodup
        (fun _ => (h.within k).prune _) (fun _ => h.within k)
  obtain ⟨hlive, hsame⟩ | ⟨refused, hrefused, hpruning⟩ | ⟨hnone, hrefusal, hreserved⟩ :=
    createScript_cases w.clock w.clock.seconds (hostCapOf hostMaxReservedBytes) u w.store
  · simp only [exec, Uploads.create, hsame, hlive, and_false, ↓reduceIte]
    exact h
  · simp only [exec, Uploads.create, hpruning, hrefused, false_and, ↓reduceIte]
    exact hpruned
  · simp only [exec, Uploads.create, hreserved, hnone, and_self, ↓reduceIte]
    constructor
    · intro id v hget
      obtain ⟨rfl, rfl⟩ | ⟨hid, hold⟩ := get_put_cases (by simp [Time.after]) hget
      · refine place_now (update_self _ _ _) fun k hk => ?_
        exact of_onTiers (P := (·.Keeps _ _ _ _)) hnodup
          (fun _ => keeps_reserve _ _ _ _ _) (fun hk' => absurd hk hk')
      · refine (hpruned.place id v hold).congr rfl (update_of_ne hid _ _) ?_
        intro k _ score length d hscore hd hafter hkeeps
        exact of_onTiers (P := (·.Keeps id score length d)) hnodup
          (fun _ => hkeeps.reserve hd hid hafter) (fun _ => hkeeps)
    · intro k
      refine of_onTiers (P := (·.Within w.clock _ _)) hnodup ?_ ?_
      · intro hk
        obtain ⟨hfull, hover⟩ := room_of_refusal_eq_none hrefusal hk
        exact within_reserve (Nat.not_le.mp hfull) (Nat.not_lt.mp hover) _ _
      · intro hk
        have hwithin := hpruned.within k
        cases k with
        | host => exact absurd (by simp [TusUpload.scopes]) hk
        | _ => exact hwithin

variable {expectedOffset newOffset : ℕ} {quotaHour : Option ℕ}

theorem Reserved.claim : (w.exec (.claim id expectedOffset newOffset quotaHour)).Reserved := by
  obtain ⟨hrejected, hsame⟩ | ⟨u, quotas, hget, -, haccepted⟩ :=
    updateOffset_cases w.clock id expectedOffset newOffset quotaHour w.store
  · simp only [exec, hrejected, ↓reduceIte, hsame]
    exact h
  have hnodup := u.nodup_scopes
  have hplace := h.place id u hget
  simp only [exec, haccepted, ↓reduceIte]
  constructor
  · intro id' v hget'
    obtain ⟨rfl, rfl⟩ | ⟨hid, hold⟩ := get_put_cases (by simp [Time.after]) hget'
    · refine place_now (update_self _ _ _) fun k hk => ?_
      exact of_onTiers (P := (·.Keeps _ _ _ _)) hnodup
        (fun hk => keeps_refresh (hplace.kept k hk).2 hplace.clock_le _)
        (fun hk' => absurd hk hk')
    · refine (h.place id' v hold).congr rfl (update_of_ne hid _ _) ?_
      intro k _ score length d _ hd hafter hkeeps
      exact of_onTiers (P := (·.Keeps id' score length d)) hnodup
        (fun _ => hkeeps.refresh hd hid hafter) (fun _ => hkeeps)
  · intro k
    exact of_onTiers (P := (·.Within w.clock _ _)) hnodup
      (fun hk => (h.within k).refresh (hplace.kept k hk).1 hplace.clock_le _)
      (fun _ => h.within k)

/-- A rollback keeps an upload alive and leaves the tiers as they are. -/
theorem Reserved.rollback : (w.exec (.rollback u expectedOffset newOffset quotaHour)).Reserved := by
  simp only [exec, rollbackOffset]
  obtain hsame | ⟨data, quotas, hdata, -, hrolledBack⟩ :=
    rollbackScript_cases w.clock u expectedOffset newOffset (quotaHour.getD w.clock.hour) w.store
  · rw [hsame]
    exact h
  rw [hrolledBack]
  constructor
  · intro id v hget
    obtain ⟨rfl, rfl⟩ | ⟨hid, hold⟩ := get_put_cases (by simp [Time.after]) hget
    · have hplace := h.place _ data hdata
      exact ⟨hplace.timely, hplace.past, hplace.kept⟩
    · exact (h.place id v hold).congr rfl rfl fun _ _ _ _ _ _ _ _ hkeeps => hkeeps
  · exact h.within

theorem Reserved.delete : (w.exec (.delete id)).Reserved := by
  simp only [exec, Uploads.delete, deleteScript]
  cases hget : get w.store.uploads w.clock id with
  | none => exact h
  | some u =>
    have hnodup := u.nodup_scopes
    constructor
    · intro id' v hget'
      obtain ⟨d, hd, hlive⟩ := get_eq_some.mp hget'
      obtain ⟨hid, hd⟩ := eq_some_of_del hd
      refine (h.place id' v (get_eq_some.mpr ⟨d, hd, hlive⟩)).congr rfl rfl ?_
      intro k _ score length d _ hd _ hkeeps
      exact of_onTiers (P := (·.Keeps id' score length d)) hnodup
        (fun _ => hkeeps.release hd hid) (fun _ => hkeeps)
    · intro k
      exact of_onTiers (P := (·.Within w.clock _ _)) hnodup
        (fun _ => (h.within k).release _) (fun _ => h.within k)

/-- **One command.** -/
theorem Reserved.exec {c : Command Uuid} (htimely : w.Timely c) : (w.exec c).Reserved := by
  cases c with
  | tick => exact h.tick htimely
  | create => exact h.create
  | claim => exact h.claim
  | rollback => exact h.rollback
  | delete => exact h.delete

/-- **A whole sequence of commands.** -/
theorem Reserved.run {cs : List (Command Uuid)} (htimely : AllTimely cs w) :
    (w.run cs).Reserved := by
  induction cs generalizing w with
  | nil => exact h
  | cons c cs ih => exact ih (h.exec htimely.1) htimely.2

end Steps

variable [DecidableEq Uuid]

/-- **Reservations cover every live upload**, if no upload is alive 24 hours after it was
created or last claimed. -/
theorem reservations_cover_live_uploads (clock : Time) (cs : List (Command Uuid))
    (htimely : AllTimely cs (initial clock)) : ((initial clock).run cs).Covered :=
  ((reserved_initial clock).run htimely).covered

end Invariant

section Runs

variable [DecidableEq Uuid] [Fintype Uuid]

instance (w : Timeline Uuid) : (c : Command Uuid) → Decidable (w.Timely c)
  | .tick _ => inferInstanceAs (Decidable (∀ _, _ → _))
  | .create _ _ | .claim .. | .rollback .. | .delete _ => isTrue trivial

instance decidableAllTimely :
    (cs : List (Command Uuid)) → (w : Timeline Uuid) → Decidable (AllTimely cs w)
  | [], _ => isTrue trivial
  | c :: cs, w =>
    have := decidableAllTimely cs (w.exec c)
    inferInstanceAs (Decidable (_ ∧ _))

end Runs

/-- An upload of one byte, all of one user and project. -/
def oneByte (id : Fin 3) : TusUpload (Fin 3) where
  uploadId := id
  userId := 0
  uploadLength := 1
  uploadOffset := 0
  purpose := .chatAttachment
  projectId := 0
  chatroomId := some 0
  ragConfigId := none
  knowmapConfigId := none
  filename := "a.txt"
  mime := "text/plain"
  stagingPath := "/tmp/smap-tus/a.part"
  metadataRaw := ""

/-- Two uploads of one user, each claimed once and rolled back after ten seconds. -/
def writesRolledBack : List (Command (Fin 3)) :=
  [.create (oneByte 0) tusHostMaxReservedBytes, .create (oneByte 1) tusHostMaxReservedBytes,
    .claim 0 0 1 none, .claim 1 0 1 none, .tick (10 * 1000),
    .rollback (oneByte 0) 1 0 none, .rollback (oneByte 1) 1 0 none]

/-- A third upload is refused as long as the two are counted. -/
theorem two_uploads_covered :
    let w := (initial 0).run
      (writesRolledBack ++ [.tick (12 * 3600 * 1000), .create (oneByte 2) tusHostMaxReservedBytes])
    w.alive 0 ∧ w.alive 1 ∧ ¬ w.alive 2 ∧ w.Covered := by
  refine ⟨by decide +kernel, by decide +kernel, by decide +kernel, ?_⟩
  exact reservations_cover_live_uploads 0 _ (by decide +kernel)

/-- The two uploads 24 hours after their claims, and a third one that is created then. -/
def outlived : Timeline (Fin 3) :=
  (initial 0).run (writesRolledBack ++
    [.tick ((24 * 3600 - 5) * 1000), .create (oneByte 2) tusHostMaxReservedBytes])

/-- **A third upload of a user.**  Both uploads are still alive when the third is created,
since the rollbacks came after the claims, and neither is counted any more. -/
theorem third_upload_of_a_user : (∀ id, outlived.alive id) ∧ ¬ outlived.Covered := by
  refine ⟨by decide +kernel, fun hcovered => ?_⟩
  have hlive : ∀ id, ∃ u ∈ get outlived.store.uploads outlived.clock id,
      Scope.user 0 ∈ u.scopes := by
    decide +kernel
  have hthree := (hcovered.within (.user 0) Finset.univ fun id _ => hlive id).1
  exact absurd hthree (by decide)

end Timeline

end Smap.Uploads
