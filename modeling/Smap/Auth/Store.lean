import Mathlib.Data.List.Sort
import Smap.Lib.Alone
import Smap.Lib.Expiring

/-!
# What authentication stores

The session store in Redis, with its four keyspaces, the tables of the identity context
that mirror it, and the operations the authentication code performs on both.  A Redis
command or a `MULTI` block is one operation, and so is a statement of a repository.

Random values (`uuid4`, `token_urlsafe`) are drawn one after the other, so that no value
is drawn twice; a caller may present any value, drawn or not.  A hash is the value it was
computed from under another type: it is injective and tells nothing else.  Redis and the
application read one clock, in microseconds.

Audit events, `last_login_at` and the descriptive columns of a session row
(`user_agent`, `ip_inet`, `created_at`) are left out: nothing modelled here reads them.
-/

namespace Smap.Auth

open Expiring

abbrev Uuid := ℕ

/-- Instants and durations, in microseconds. -/
abbrev Time := ℕ

def second : Time := 1000000

/-- `int(d.total_seconds())`. -/
def wholeSeconds (d : Time) : ℕ := d / second

structure RefreshToken where
  id : ℕ
  deriving DecidableEq

structure RefreshHash where
  token : RefreshToken
  deriving DecidableEq

def hashRefresh (token : RefreshToken) : RefreshHash := ⟨token⟩

/-- `RefreshRecord`. -/
structure RefreshRecord where
  sessionId : Uuid
  userId : Uuid
  familyId : Uuid
  lastJti : Option Uuid
  issuedAt : Time
  expiresAt : Time
  lastSeenAt : Time
  deriving DecidableEq

/-- The fields under a `session:` key.  An empty `last_jti` is `none`; records written by
older code have no `last_seen_at`. -/
structure RawRecord where
  sessionId : Uuid
  userId : Uuid
  familyId : Uuid
  lastJti : Option Uuid
  issuedAt : Time
  expiresAt : Time
  lastSeenAt : Option Time
  deriving DecidableEq

/-- `_dump_record`. -/
def dumpRecord (r : RefreshRecord) : RawRecord where
  sessionId := r.sessionId
  userId := r.userId
  familyId := r.familyId
  lastJti := r.lastJti
  issuedAt := r.issuedAt
  expiresAt := r.expiresAt
  lastSeenAt := some r.lastSeenAt

/-- `_parse_record`, with the time it reads for a record that lacks `last_seen_at`. -/
def parseRecord (now : Time) (raw : RawRecord) : RefreshRecord where
  sessionId := raw.sessionId
  userId := raw.userId
  familyId := raw.familyId
  lastJti := raw.lastJti
  issuedAt := raw.issuedAt
  expiresAt := raw.expiresAt
  lastSeenAt := raw.lastSeenAt.getD now

/-! ## Redis -/

/-- The keyspaces `session:`, `session_family:`, `session_hash_family:` and
`jti_denylist:`. -/
structure SessionStore where
  session : Keyspace RefreshHash RawRecord
  family : Keyspace Uuid (List RefreshHash)
  hashFamily : Keyspace RefreshHash Uuid
  denylist : Keyspace Uuid Unit

/-- The commands the token module sends, with their times to live in seconds. -/
inductive Cmd where
  | delSession (h : RefreshHash)
  | hsetSession (h : RefreshHash) (raw : RawRecord)
  | expireSession (h : RefreshHash) (ttl : ℕ)
  | delFamily (f : Uuid)
  | saddFamily (f : Uuid) (h : RefreshHash)
  | sremFamily (f : Uuid) (h : RefreshHash)
  | expireFamily (f : Uuid) (ttl : ℕ)
  | setHashFamily (h : RefreshHash) (f : Uuid) (ttl : ℕ)
  | delHashFamily (h : RefreshHash)
  | setDenied (jti : Uuid) (ttl : ℕ)

def Cmd.run (t : Time) (s : SessionStore) : Cmd → SessionStore
  | .delSession h => { s with session := del s.session h }
  | .hsetSession h raw => { s with session := hset s.session t h raw }
  | .expireSession h ttl => { s with session := expire s.session t h (t + ttl * second) }
  | .delFamily f => { s with family := del s.family f }
  | .saddFamily f h => { s with family := sadd s.family t f h }
  | .sremFamily f h => { s with family := srem s.family t f h }
  | .expireFamily f ttl => { s with family := expire s.family t f (t + ttl * second) }
  | .setHashFamily h f ttl =>
    { s with hashFamily := put s.hashFamily h ⟨f, some (t + ttl * second)⟩ }
  | .delHashFamily h => { s with hashFamily := del s.hashFamily h }
  | .setDenied jti ttl =>
    { s with denylist := put s.denylist jti ⟨(), some (t + ttl * second)⟩ }

/-- The blocks of commands that are sent as one: the pipelines of `_write_session`,
`rotate_session`, `revoke_session` and `kill_family`, and two single commands. -/
inductive Pipeline where
  | writeSession (h : RefreshHash) (raw : RawRecord) (ttl : ℕ)
  | rotateSession (old new : RefreshHash) (raw : RawRecord) (ttl : ℕ)
  | revokeSession (h : RefreshHash) (family : Uuid)
  | killFamily (family : Uuid) (hashes : List RefreshHash)
  | deleteSession (h : RefreshHash)
  | denyJti (jti : Uuid) (seconds : ℕ)

open Pipeline

def Pipeline.cmds : Pipeline → List Cmd
  | .writeSession h raw ttl =>
    [.hsetSession h raw, .expireSession h ttl, .saddFamily raw.familyId h,
      .expireFamily raw.familyId ttl, .setHashFamily h raw.familyId ttl]
  | .rotateSession old new raw ttl =>
    [.delSession old, .hsetSession new raw, .expireSession new ttl,
      .sremFamily raw.familyId old, .saddFamily raw.familyId new,
      .expireFamily raw.familyId ttl, .setHashFamily new raw.familyId ttl]
  | .revokeSession h family => [.delSession h, .delHashFamily h, .sremFamily family h]
  | .killFamily family hashes =>
    hashes.flatMap (fun h => [.delSession h, .delHashFamily h]) ++ [.delFamily family]
  | .deleteSession h => [.delSession h]
  | .denyJti jti seconds => [.setDenied jti seconds]

/-- The block at a time. -/
def Pipeline.run (p : Pipeline) (t : Time) (s : SessionStore) : SessionStore :=
  p.cmds.foldl (Cmd.run t) s

/-! What each block leaves, keyspace by keyspace. -/

section Blocks

variable (t : Time) (s : SessionStore)

theorem run_writeSession (h : RefreshHash) (raw : RawRecord) (ttl : ℕ) :
    (writeSession h raw ttl).run t s =
      { session := put s.session h ⟨raw, some (t + ttl * second)⟩
        family := put s.family raw.familyId
          ⟨(members s.family t raw.familyId).insert h, some (t + ttl * second)⟩
        hashFamily := put s.hashFamily h ⟨raw.familyId, some (t + ttl * second)⟩
        denylist := s.denylist } := by
  simp only [run, cmds, List.foldl_cons, List.foldl_nil, Cmd.run, expire_hset, expire_sadd]

theorem run_rotateSession (old new : RefreshHash) (raw : RawRecord) (ttl : ℕ) :
    (rotateSession old new raw ttl).run t s =
      { session := put (del s.session old) new ⟨raw, some (t + ttl * second)⟩
        family := put s.family raw.familyId
          ⟨((members s.family t raw.familyId).filter (· ≠ old)).insert new, some (t + ttl * second)⟩
        hashFamily := put s.hashFamily new ⟨raw.familyId, some (t + ttl * second)⟩
        denylist := s.denylist } := by
  simp only [run, cmds, List.foldl_cons, List.foldl_nil, Cmd.run, expire_hset, expire_sadd_srem]

theorem run_revokeSession (h : RefreshHash) (family : Uuid) :
    (revokeSession h family).run t s =
      { s with
        session := del s.session h
        family := srem s.family t family h
        hashFamily := del s.hashFamily h } := rfl

/-- The loop of `kill_family` over the members it read. -/
theorem foldl_kill (hashes : List RefreshHash) :
    (hashes.flatMap fun h => [.delSession h, .delHashFamily h]).foldl (Cmd.run t) s =
      { s with
        session := delAll s.session hashes
        hashFamily := delAll s.hashFamily hashes } := by
  induction hashes generalizing s with
  | nil => rfl
  | cons h hashes ih =>
    rw [List.flatMap_cons, List.foldl_append, ih, delAll_cons, delAll_cons]
    rfl

theorem run_killFamily (family : Uuid) (hashes : List RefreshHash) :
    (killFamily family hashes).run t s =
      { s with
        session := delAll s.session hashes
        family := del s.family family
        hashFamily := delAll s.hashFamily hashes } := by
  rw [run, cmds, List.foldl_append, foldl_kill]
  rfl

theorem run_denyJti (jti : Uuid) (seconds : ℕ) :
    (denyJti jti seconds).run t s =
      { s with denylist := put s.denylist jti ⟨(), some (t + seconds * second)⟩ } := rfl

end Blocks

/-! ## Tables -/

inductive UserStatus where
  | active
  | pending
  | banned
  | deleted
  deriving DecidableEq

/-- The Argon2id hash of a normalised password. -/
structure PasswordHash where
  normalised : String
  deriving DecidableEq

structure User where
  id : Uuid
  passwordHash : Option PasswordHash
  emailVerified : Bool
  status : UserStatus
  deriving DecidableEq

/-- A row of `sessions`. -/
structure Session where
  id : Uuid
  userId : Uuid
  familyId : Uuid
  refreshTokenHash : RefreshHash
  lastJti : Option Uuid
  lastUsedAt : Time
  expiresAt : Time
  revokedAt : Option Time
  deriving DecidableEq

structure ResetToken where
  id : ℕ
  deriving DecidableEq

structure ResetHash where
  token : ResetToken
  deriving DecidableEq

/-- A row of `password_reset_tokens`. -/
structure PasswordReset where
  userId : Uuid
  tokenHash : ResetHash
  expiresAt : Time
  usedAt : Option Time
  deriving DecidableEq

structure Database where
  users : Uuid → Option User
  admins : Uuid → Bool
  sessions : List Session
  resets : List PasswordReset

namespace Database

/-- `UserRepository.set_password`. -/
def setPassword (db : Database) (u : Uuid) (hash : PasswordHash) : Database :=
  { db with
    users := fun v =>
      if v = u then (db.users u).map fun user => { user with passwordHash := some hash }
      else db.users v }

/-- `SessionRepository.insert`; `last_used_at` is the column's default. -/
def insertSession (db : Database) (row : Session) : Database :=
  { db with sessions := db.sessions ++ [row] }

/-- The order of `list_for_user`: `last_used_at` and then `id`, both descending. -/
def listedBefore (a b : Session) : Prop :=
  b.lastUsedAt < a.lastUsedAt ∨ b.lastUsedAt = a.lastUsedAt ∧ b.id ≤ a.id

instance : DecidableRel listedBefore := fun _ _ => inferInstanceAs (Decidable (_ ∨ _ ∧ _))

/-- The rows `list_for_user` selects: not revoked and not expired. -/
def activeSessions (db : Database) (now : Time) (u : Uuid) : List Session :=
  db.sessions.filter fun s => s.userId = u ∧ s.revokedAt = none ∧ now < s.expiresAt

/-- `SessionRepository.list_for_user`. -/
def listForUser (db : Database) (now : Time) (u : Uuid) (limit offset : ℕ) : List Session :=
  (((db.activeSessions now u).insertionSort listedBefore).drop offset).take limit

/-- `SessionRepository.get_by_id`. -/
def getSession (db : Database) (id : Uuid) : Option Session :=
  db.sessions.find? fun s => s.id = id

/-- `UPDATE sessions SET … WHERE …`. -/
def updateSessions (db : Database) (p : Session → Bool) (f : Session → Session) : Database :=
  { db with sessions := db.sessions.map fun s => if p s then f s else s }

/-- `SessionRepository.update_on_rotation`. -/
def updateOnRotation (db : Database) (now : Time) (old new : RefreshHash) (jti : Uuid) :
    Database :=
  db.updateSessions (fun s => s.refreshTokenHash = old) fun s =>
    { s with refreshTokenHash := new, lastJti := some jti, lastUsedAt := now }

/-- `SessionRepository.revoke`. -/
def revoke (db : Database) (now : Time) (id : Uuid) : Database :=
  db.updateSessions (fun s => s.id = id) fun s => { s with revokedAt := some now }

/-- `SessionRepository.revoke_all_for_user`. -/
def revokeAllForUser (db : Database) (now : Time) (u : Uuid) : Database :=
  db.updateSessions (fun s => s.userId = u ∧ s.revokedAt = none) fun s =>
    { s with revokedAt := some now }

/-- `_TokenRepo.issue` on the reset tokens: the user's earlier ones are used up. -/
def issueReset (db : Database) (now : Time) (u : Uuid) (hash : ResetHash) (ttl : Time) :
    Database :=
  { db with
    resets := db.resets.map (fun r =>
        if r.userId = u ∧ r.usedAt = none then { r with usedAt := some now } else r) ++
      [⟨u, hash, now + ttl, none⟩] }

/-- The row a reset token can be consumed from. -/
def usableReset (now : Time) (hash : ResetHash) (r : PasswordReset) : Bool :=
  r.tokenHash = hash ∧ r.usedAt = none ∧ now < r.expiresAt

/-- `_TokenRepo.consume` on the reset tokens: the user, if there was a usable row. -/
def consumeReset (db : Database) (now : Time) (hash : ResetHash) : Option Uuid × Database :=
  ((db.resets.find? (usableReset now hash)).map PasswordReset.userId,
    { db with
      resets := db.resets.map fun r =>
        if usableReset now hash r then { r with usedAt := some now } else r })

end Database

/-! ## Operations -/

structure World where
  clock : Time
  /-- How many values `uuid4` has drawn. -/
  uuids : ℕ
  /-- How many values `token_urlsafe` has drawn. -/
  tokens : ℕ
  redis : SessionStore
  db : Database

/-- Nothing has been drawn or stored yet. -/
def World.initial (clock : Time) (users : Uuid → Option User) (admins : Uuid → Bool) : World where
  clock := clock
  uuids := 0
  tokens := 0
  redis := ⟨empty, empty, empty, empty⟩
  db := ⟨users, admins, [], []⟩

/-- What a call to the token module returns to its caller. -/
inductive Reply where
  | created (token : RefreshToken) (record : RefreshRecord)
  | rotated (token : RefreshToken) (record : RefreshRecord) (oldHash : RefreshHash)
  | reuse (message : String)
  | revoked (record : Option RefreshRecord)
  | killed (count : ℕ)
  | found (record : Option RefreshRecord)
  | denied (answer : Bool)
  | done

inductive Op where
  | now
  | uuid4
  | tokenUrlsafe
  | hgetall (h : RefreshHash)
  | smembers (f : Uuid)
  | getHashFamily (h : RefreshHash)
  | existsDenied (jti : Uuid)
  | exec (p : Pipeline)
  | getUser (u : Uuid)
  | isAdmin (u : Uuid)
  | setPassword (u : Uuid) (hash : PasswordHash)
  | insertSession (id userId familyId : Uuid) (hash : RefreshHash) (lastJti : Option Uuid)
      (expiresAt : Time)
  | listForUser (u : Uuid) (limit offset : ℕ)
  | getSession (id : Uuid)
  | updateOnRotation (old new : RefreshHash) (jti : Uuid)
  | revoke (id : Uuid)
  | revokeAllForUser (u : Uuid)
  | issueReset (u : Uuid) (hash : ResetHash) (ttl : Time)
  | consumeReset (hash : ResetHash)
  | reply (r : Reply)

def Res : Op → Type
  | .now => Time
  | .uuid4 => Uuid
  | .tokenUrlsafe => ℕ
  | .hgetall _ => Option RawRecord
  | .smembers _ => List RefreshHash
  | .getHashFamily _ => Option Uuid
  | .existsDenied _ => Bool
  | .getUser _ => Option User
  | .isAdmin _ => Bool
  | .listForUser _ _ _ => List Session
  | .getSession _ => Option Session
  | .consumeReset _ => Option Uuid
  | _ => Unit

abbrev Prog := Program.Prog Op Res

def perform (o : Op) : Prog (Res o) := Program.Prog.perform o

/-- What an operation answers and leaves. -/
def act : (o : Op) → World → Res o × World
  | .now, w => (w.clock, w)
  | .uuid4, w => (w.uuids, { w with uuids := w.uuids + 1 })
  | .tokenUrlsafe, w => (w.tokens, { w with tokens := w.tokens + 1 })
  | .hgetall h, w => (get w.redis.session w.clock h, w)
  | .smembers f, w => (members w.redis.family w.clock f, w)
  | .getHashFamily h, w => (get w.redis.hashFamily w.clock h, w)
  | .existsDenied jti, w => ((get w.redis.denylist w.clock jti).isSome, w)
  | .exec p, w => ((), { w with redis := p.run w.clock w.redis })
  | .getUser u, w => (w.db.users u, w)
  | .isAdmin u, w => (w.db.admins u, w)
  | .setPassword u hash, w => ((), { w with db := w.db.setPassword u hash })
  | .insertSession id userId familyId hash lastJti expiresAt, w =>
    ((), { w with
      db := w.db.insertSession
        ⟨id, userId, familyId, hash, lastJti, w.clock, expiresAt, none⟩ })
  | .listForUser u limit offset, w => (w.db.listForUser w.clock u limit offset, w)
  | .getSession id, w => (w.db.getSession id, w)
  | .updateOnRotation old new jti, w =>
    ((), { w with db := w.db.updateOnRotation w.clock old new jti })
  | .revoke id, w => ((), { w with db := w.db.revoke w.clock id })
  | .revokeAllForUser u, w => ((), { w with db := w.db.revokeAllForUser w.clock u })
  | .issueReset u hash ttl, w => ((), { w with db := w.db.issueReset w.clock u hash ttl })
  | .consumeReset hash, w =>
    ((w.db.consumeReset w.clock hash).1,
      { w with db := (w.db.consumeReset w.clock hash).2 })
  | .reply _, w => ((), w)

/-! Each operation under the name its callers use. -/

def now : Prog Time := perform .now
def uuid4 : Prog Uuid := perform .uuid4
def tokenUrlsafe : Prog ℕ := perform .tokenUrlsafe
def reply (r : Reply) : Prog Unit := perform (.reply r)

namespace Redis

def hgetall (h : RefreshHash) : Prog (Option RawRecord) := perform (.hgetall h)
def smembers (f : Uuid) : Prog (List RefreshHash) := perform (.smembers f)
def getHashFamily (h : RefreshHash) : Prog (Option Uuid) := perform (.getHashFamily h)
def existsDenied (jti : Uuid) : Prog Bool := perform (.existsDenied jti)
def execute (p : Pipeline) : Prog Unit := perform (.exec p)

end Redis

namespace Users

def getById (u : Uuid) : Prog (Option User) := perform (.getUser u)
def isAdmin (u : Uuid) : Prog Bool := perform (.isAdmin u)
def setPassword (u : Uuid) (hash : PasswordHash) : Prog Unit := perform (.setPassword u hash)

end Users

namespace Sessions

def insert (id userId familyId : Uuid) (hash : RefreshHash) (lastJti : Option Uuid)
    (expiresAt : Time) : Prog Unit :=
  perform (.insertSession id userId familyId hash lastJti expiresAt)
def listForUser (u : Uuid) (limit offset : ℕ) : Prog (List Session) :=
  perform (.listForUser u limit offset)
def getById (id : Uuid) : Prog (Option Session) := perform (.getSession id)
def updateOnRotation (old new : RefreshHash) (jti : Uuid) : Prog Unit :=
  perform (.updateOnRotation old new jti)
def revoke (id : Uuid) : Prog Unit := perform (.revoke id)
def revokeAllForUser (u : Uuid) : Prog Unit := perform (.revokeAllForUser u)

end Sessions

namespace Resets

def issue (u : Uuid) (hash : ResetHash) (ttl : Time) : Prog Unit :=
  perform (.issueReset u hash ttl)
def consume (hash : ResetHash) : Prog (Option Uuid) := perform (.consumeReset hash)

end Resets

end Smap.Auth
