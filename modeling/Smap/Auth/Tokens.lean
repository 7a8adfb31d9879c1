import Smap.Auth.Store

/-!
# The token module

Refresh-token sessions and the denylist of access tokens (`shared_kernel/auth/tokens.py`),
as programs over the operations of the store.  Each program reads and then sends one block
of commands; nothing makes the reading and the block one operation.

A call is one of these programs with its arguments.  Calls run side by side in a pool,
each with private notes: the random values it has drawn and not yet stored, what it last
read, and what it has done.  The notes are not part of the code; they say in which way the
arguments of a block come from the readings before it (`Grounded`).
-/

namespace Smap.Auth

open Program Expiring Auth.Redis

/-- The settings of the token section; `nfkc` is Unicode normalisation. -/
structure Settings where
  accessTtlSeconds : ℕ
  refreshTtlSeconds : ℕ
  idleTimeoutSeconds : ℤ
  issuer : String
  audience : String
  nfkc : String → String

/-- The defaults of `JwtSection`, with passwords taken as already normalised. -/
def Settings.default : Settings where
  accessTtlSeconds := 15 * 60
  refreshTtlSeconds := 30 * 24 * 3600
  idleTimeoutSeconds := 45 * 60
  issuer := "smap.local"
  audience := "smap.api"
  nfkc := id

/-! ## Functions of the module -/

/-- `new_refresh_token`. -/
def newRefreshToken : Prog RefreshToken := do
  return ⟨← tokenUrlsafe⟩

/-- `max(1, int((expires_at - now()).total_seconds()))`. -/
def ttlSeconds (expiresAt now : Time) : ℕ := max 1 (wholeSeconds (expiresAt - now))

/-- `_write_session`. -/
def writeSession (refreshToken : RefreshToken) (record : RefreshRecord) : Prog Unit := do
  let t ← now
  execute (.writeSession (hashRefresh refreshToken) (dumpRecord record)
    (ttlSeconds record.expiresAt t))

/-- The lifetime of a session: an empty duration counts as none given. -/
def Settings.lifetime (cfg : Settings) : Option Time → Time
  | some (d + 1) => d + 1
  | _ => cfg.refreshTtlSeconds * second

/-- `create_session`. -/
def createSession (cfg : Settings) (userId sessionId : Uuid) (familyId lastJti : Option Uuid)
    (ttl : Option Time) : Prog (RefreshToken × RefreshRecord) := do
  let family ← match familyId with
    | some f => pure f
    | none => uuid4
  let issued ← now
  let token ← newRefreshToken
  let record : RefreshRecord :=
    { sessionId := sessionId
      userId := userId
      familyId := family
      lastJti := lastJti
      issuedAt := issued
      expiresAt := issued + cfg.lifetime ttl
      lastSeenAt := issued }
  writeSession token record
  return (token, record)

/-- `kill_family`. -/
def killFamily (familyId : Uuid) : Prog ℕ := do
  let hashes ← smembers familyId
  if hashes = [] then
    return 0
  execute (.killFamily familyId hashes)
  return hashes.length

/-- `_kill_family_by_hash`. -/
def killFamilyByHash (refreshHash : RefreshHash) : Prog Unit := do
  let familyId ← getHashFamily refreshHash
  match familyId with
  | none => return ()
  | some f => let _ ← killFamily f

/-- `_parse_record` on what `HGETALL` answered. -/
def parse (raw : RawRecord) : Prog RefreshRecord := do
  return parseRecord (← now) raw

/-- `rotate_session`; the error is a `TokenReuseError`. -/
def rotateSession (oldToken : RefreshToken) (newJti : Uuid) :
    Prog (Except String (RefreshToken × RefreshRecord × RefreshHash)) := do
  let oldHash := hashRefresh oldToken
  let raw ← hgetall oldHash
  match raw with
  | none =>
    killFamilyByHash oldHash
    return .error "refresh token not recognised — session family killed"
  | some raw =>
    let record ← parse raw
    if record.expiresAt < (← now) then
      execute (.deleteSession oldHash)
      return .error "refresh token expired"
    let newToken ← newRefreshToken
    let newHash := hashRefresh newToken
    let newRecord : RefreshRecord :=
      { sessionId := record.sessionId
        userId := record.userId
        familyId := record.familyId
        lastJti := some newJti
        issuedAt := record.issuedAt
        expiresAt := record.expiresAt
        lastSeenAt := ← now }
    let t ← now
    execute (.rotateSession oldHash newHash (dumpRecord newRecord) (ttlSeconds record.expiresAt t))
    return .ok (newToken, newRecord, oldHash)

/-- `revoke_session`. -/
def revokeSession (refreshToken : RefreshToken) : Prog (Option RefreshRecord) := do
  let h := hashRefresh refreshToken
  let raw ← hgetall h
  match raw with
  | none => return none
  | some raw =>
    let record ← parse raw
    execute (.revokeSession h record.familyId)
    return some record

/-- `get_record`. -/
def getRecord (refreshToken : RefreshToken) : Prog (Option RefreshRecord) := do
  let raw ← hgetall (hashRefresh refreshToken)
  match raw with
  | none => return none
  | some raw => return some (← parse raw)

/-- `deny_jti`. -/
def denyJti (jti : Uuid) (ttl : Time) : Prog Unit :=
  execute (.denyJti jti (max 1 (wholeSeconds ttl)))

/-- `is_denied`. -/
def isDenied (jti : Uuid) : Prog Bool := existsDenied jti

/-! ## Calls side by side -/

/-- What a call has drawn, read and done. -/
structure Notes where
  /-- The last random token, until it is stored. -/
  token : Option ℕ
  /-- The last random identifier, until it is stored as a family. -/
  uuid : Option Uuid
  /-- The record that was read last. -/
  read : Option (RefreshHash × RawRecord)
  /-- The last family whose members were read. -/
  members : Option (Uuid × List RefreshHash)
  /-- The session this call has rotated away. -/
  rotated : Option RefreshHash
  /-- The family this call has killed or found empty. -/
  closed : Option Uuid
  /-- What the call has returned. -/
  reply : Option Reply

def Notes.blank : Notes := ⟨none, none, none, none, none, none, none⟩

/-- What a call notes down.  What it read counts until it has sent a block. -/
def note (l : Notes) : (o : Op) → Res o → Notes
  | .tokenUrlsafe, id => { l with token := some id }
  | .uuid4, id => { l with uuid := some id }
  | .hgetall h, (raw : Option RawRecord) => { l with read := raw.map fun r => (h, r) }
  | .smembers f, (hashes : List RefreshHash) =>
    { l with
      members := some (f, hashes)
      closed := if hashes = [] then some f else l.closed }
  | .exec (.writeSession _ _ _), _ =>
    { l with token := none, uuid := none, read := none, members := none }
  | .exec (.rotateSession old _ _ _), _ =>
    { l with token := none, read := none, members := none, rotated := some old }
  | .exec (.killFamily f _), _ => { l with read := none, members := none, closed := some f }
  | .exec _, _ => { l with read := none, members := none }
  | .reply r, _ => { l with reply := some r }
  | _, _ => l

section Eval

variable (l : Notes) (w : World)

@[simp] theorem eval_hgetall (h : RefreshHash) :
    eval act note (hgetall h) l w =
      (get w.redis.session w.clock h, note l (.hgetall h) (get w.redis.session w.clock h), w) := rfl

@[simp] theorem eval_smembers (f : Uuid) :
    eval act note (smembers f) l w =
      (members w.redis.family w.clock f,
        note l (.smembers f) (members w.redis.family w.clock f), w) := rfl

@[simp] theorem eval_now : eval act note now l w = (w.clock, l, w) := rfl

@[simp] theorem eval_existsDenied (jti : Uuid) :
    eval act note (existsDenied jti) l w =
      ((get w.redis.denylist w.clock jti).isSome, l, w) := rfl

@[simp] theorem eval_getById (u : Uuid) :
    eval act note (Users.getById u) l w = (w.db.users u, l, w) := rfl

@[simp] theorem eval_isAdmin (u : Uuid) :
    eval act note (Users.isAdmin u) l w = (w.db.admins u, l, w) := rfl

@[simp] theorem eval_setPassword (u : Uuid) (hash : PasswordHash) :
    eval act note (Users.setPassword u hash) l w =
      ((), l, { w with db := w.db.setPassword u hash }) := rfl

@[simp] theorem eval_getSession (id : Uuid) :
    eval act note (Sessions.getById id) l w = (w.db.getSession id, l, w) := rfl

@[simp] theorem eval_revoke (id : Uuid) :
    eval act note (Sessions.revoke id) l w =
      ((), l, { w with db := w.db.revoke w.clock id }) := rfl

@[simp] theorem eval_consume (hash : ResetHash) :
    eval act note (Resets.consume hash) l w =
      ((w.db.consumeReset w.clock hash).1, l,
        { w with db := (w.db.consumeReset w.clock hash).2 }) := rfl

@[simp] theorem eval_execute (p : Pipeline) :
    eval act note (execute p) l w =
      ((), note l (.exec p) (), { w with redis := p.run w.clock w.redis }) := rfl

end Eval

/-- What a call may ask of the module; its only caller passes no family and no lifetime to
`create_session`. -/
inductive Call where
  | createSession (userId sessionId : Uuid) (lastJti : Option Uuid)
  | rotateSession (oldToken : RefreshToken) (newJti : Uuid)
  | revokeSession (refreshToken : RefreshToken)
  | killFamily (familyId : Uuid)
  | getRecord (refreshToken : RefreshToken)
  | denyJti (jti : Uuid) (ttl : Time)
  | isDenied (jti : Uuid)

/-- What the caller of `rotate_session` gets. -/
def Reply.ofRotation : Except String (RefreshToken × RefreshRecord × RefreshHash) → Reply
  | .ok (token, record, oldHash) => .rotated token record oldHash
  | .error message => .reuse message

/-- The call, up to its answer. -/
def Call.answer (cfg : Settings) : Call → Prog Reply
  | .createSession userId sessionId lastJti => do
    let (token, record) ← Auth.createSession cfg userId sessionId none lastJti none
    return .created token record
  | .rotateSession oldToken newJti => do
    return .ofRotation (← Auth.rotateSession oldToken newJti)
  | .revokeSession refreshToken => do return .revoked (← Auth.revokeSession refreshToken)
  | .killFamily familyId => do return .killed (← Auth.killFamily familyId)
  | .getRecord refreshToken => do return .found (← Auth.getRecord refreshToken)
  | .denyJti jti ttl => do
    Auth.denyJti jti ttl
    return .done
  | .isDenied jti => do return .denied (← Auth.isDenied jti)

def Call.prog (cfg : Settings) (c : Call) : Prog Unit := do
  let r ← c.answer cfg
  reply r

/-- From outside, time goes by. -/
def tick (d : Time) (w : World) : World := { w with clock := w.clock + d }

def machine : Machine Op Res Notes World Unit Unit Time := total act note tick

abbrev Calls := Pool Op Res Notes World

/-- The calls, none of which has begun. -/
def start (cfg : Settings) (w : World) (calls : List Call) : Calls :=
  ⟨w, calls.map fun c => ⟨.blank, c.prog cfg⟩⟩

/-- The notes at an index. -/
def notesOf (p : Calls) : ℕ → Notes := p.locOf .blank

/-- What the call at an index has returned. -/
def replyOf (p : Calls) (i : ℕ) : Option Reply := (notesOf p i).reply

/-! ## Where the arguments of a block come from -/

/-- A block is computed from what its call has drawn and read. -/
def Grounded (l : Notes) : Op → Prop
  | .exec (.writeSession h raw _) => l.token = some h.token.id ∧ l.uuid = some raw.familyId
  | .exec (.rotateSession old new raw _) =>
    l.token = some new.token.id ∧ ∃ r, l.read = some (old, r) ∧ raw.familyId = r.familyId
  | .exec (.revokeSession h f) => ∃ r, l.read = some (h, r) ∧ f = r.familyId
  | .exec (.killFamily f hashes) => l.members = some (f, hashes)
  | _ => True

/-- What a call does of its own: it rotates the token it was given, it opens a session
only if it is `create_session` and denies a token only if it is `deny_jti`, and it returns
a new token only after it has rotated. -/
def Call.Does (c : Call) (l : Notes) : Op → Prop
  | .exec (.writeSession _ _ _) => ∃ u s j, c = .createSession u s j
  | .exec (.rotateSession old _ _ _) => ∃ t j, c = .rotateSession t j ∧ old = hashRefresh t
  | .exec (.denyJti _ _) => ∃ jti ttl, c = .denyJti jti ttl
  | .reply (.rotated _ _ _) =>
    ∃ t j, c = .rotateSession t j ∧ l.rotated = some (hashRefresh t)
  | _ => True

/-- The obligations of a call. -/
def Call.Ok (c : Call) (l : Notes) (o : Op) : Prop := Grounded l o ∧ c.Does l o

section Conduct

variable {c : Call}

/-- The empty discipline of the token module. -/
abbrev rules : Discipline machine := free machine .blank

variable {l : Notes} {t : RefreshToken} {u v : Uuid} {j : Option Uuid}

theorem obeys_now : Obeys rules c.Ok (fun l' _ => l' = l) now l :=
  ⟨⟨trivial, trivial⟩, fun _ _ _ => rfl⟩

/-- A record that is parsed is in the family it was stored with. -/
theorem obeys_parse {raw : RawRecord} :
    Obeys rules c.Ok (fun l' r => l' = l ∧ r.familyId = raw.familyId) (parse raw) l :=
  obeys_bind obeys_now fun _ _ h => ⟨h, rfl⟩

theorem obeys_killFamily {f : Uuid} :
    Obeys rules c.Ok (fun l' _ => l'.closed = some f ∧ l'.uuid = l.uuid) (killFamily f) l := by
  refine obeys_perform_bind ⟨trivial, trivial⟩ fun _ (hashes : List RefreshHash) _ => ?_
  by_cases hempty : hashes = []
  · rw [if_pos hempty]
    exact ⟨if_pos hempty, rfl⟩
  · rw [if_neg hempty]
    exact ⟨⟨rfl, trivial⟩, fun _ _ _ => ⟨rfl, rfl⟩⟩

theorem obeys_killFamilyByHash {h : RefreshHash} :
    Obeys rules c.Ok (fun l' _ => l'.uuid = l.uuid) (killFamilyByHash h) l := by
  refine obeys_perform_bind ⟨trivial, trivial⟩ fun _ (f : Option Uuid) _ => ?_
  cases f with
  | none => exact rfl
  | some => exact obeys_bind obeys_killFamily fun _ _ h => h.2

/-- A rotation answers with a new token only after it has rotated the one it was given. -/
theorem obeys_rotateSession {j jti : Uuid} (hc : c = .rotateSession t j) : Obeys rules c.Ok
      (fun l' r => (r.isOk = true → l'.rotated = some (hashRefresh t)) ∧ l'.uuid = l.uuid)
      (rotateSession t jti) l := by
  refine obeys_perform_bind ⟨trivial, trivial⟩ fun _ (raw : Option RawRecord) _ => ?_
  cases raw with
  | none => exact obeys_bind obeys_killFamilyByHash fun _ _ h => ⟨nofun, h⟩
  | some raw =>
    refine obeys_bind obeys_parse fun l₁ record h₁ => ?_
    obtain ⟨rfl, hfamily⟩ := h₁
    refine obeys_bind obeys_now fun l₂ t₂ h₂ => ?_
    subst h₂
    by_cases hexpired : record.expiresAt < t₂
    · rw [if_pos hexpired]
      exact ⟨⟨trivial, trivial⟩, fun _ _ _ => ⟨nofun, rfl⟩⟩
    rw [if_neg hexpired]
    refine obeys_perform_bind ⟨trivial, trivial⟩ fun _ (id : ℕ) _ => ?_
    refine obeys_bind obeys_now fun l₃ t₃ h₃ => ?_
    subst h₃
    refine obeys_bind obeys_now fun l₄ t₄ h₄ => ?_
    subst h₄
    refine obeys_perform_bind ⟨?_, t, j, hc, rfl⟩ fun _ _ _ => ⟨fun _ => rfl, rfl⟩
    exact ⟨rfl, raw, rfl, hfamily⟩

theorem obeys_writeSession {token : RefreshToken} {record : RefreshRecord}
    (hc : c = .createSession u v j) (htoken : l.token = some token.id)
    (huuid : l.uuid = some record.familyId) :
    Obeys rules c.Ok (fun _ _ => True) (writeSession token record) l := by
  refine obeys_bind obeys_now fun l₁ t h₁ => ?_
  subst h₁
  exact ⟨⟨⟨htoken, huuid⟩, u, v, j, hc⟩, fun _ _ _ => trivial⟩

theorem obeys_createSession {cfg : Settings} {s : Uuid} {lastJti : Option Uuid} {ttl : Option Time}
    (hc : c = .createSession u v j) :
    Obeys rules c.Ok (fun _ _ => True) (createSession cfg u s none lastJti ttl) l := by
  refine obeys_perform_bind ⟨trivial, trivial⟩ fun _ (family : Uuid) _ => ?_
  refine obeys_bind obeys_now fun l₁ issued h₁ => ?_
  subst h₁
  refine obeys_perform_bind ⟨trivial, trivial⟩ fun _ (id : ℕ) _ => ?_
  exact obeys_bind (obeys_writeSession hc rfl rfl) fun _ _ _ => trivial

theorem obeys_revokeSession : Obeys rules c.Ok (fun _ _ => True) (revokeSession t) l := by
  refine obeys_perform_bind ⟨trivial, trivial⟩ fun _ (raw : Option RawRecord) _ => ?_
  cases raw with
  | none => trivial
  | some raw =>
    refine obeys_bind obeys_parse fun l₁ record h₁ => ?_
    obtain ⟨rfl, hfamily⟩ := h₁
    exact ⟨⟨⟨raw, rfl, hfamily⟩, trivial⟩, fun _ _ _ => trivial⟩

theorem obeys_getRecord : Obeys rules c.Ok (fun _ _ => True) (getRecord t) l := by
  refine obeys_perform_bind ⟨trivial, trivial⟩ fun _ (raw : Option RawRecord) _ => ?_
  cases raw with
  | none => trivial
  | some => exact obeys_bind obeys_parse fun _ _ _ => trivial

/-- A call of `kill_family` has closed its family when it is done. -/
def Call.Done (c : Call) (l : Notes) : Prop := ∀ f, c = .killFamily f → l.closed = some f

theorem Call.obeys_answer (cfg : Settings) (c : Call) :
    Obeys rules c.Ok (fun l r => c.Does l (.reply r) ∧ c.Done l) (c.answer cfg) .blank := by
  cases c with
  | createSession =>
    exact obeys_bind (obeys_createSession rfl) fun _ _ _ => ⟨trivial, nofun⟩
  | rotateSession t j =>
    refine obeys_bind (obeys_rotateSession rfl) fun l r h => ?_
    cases r with
    | error => exact ⟨trivial, nofun⟩
    | ok => exact ⟨⟨t, j, rfl, h.1 rfl⟩, nofun⟩
  | revokeSession => exact obeys_bind obeys_revokeSession fun _ _ _ => ⟨trivial, nofun⟩
  | killFamily =>
    refine obeys_bind obeys_killFamily fun _ _ h => ⟨trivial, fun f' hf => ?_⟩
    obtain rfl := Call.killFamily.inj hf
    exact h.1
  | getRecord => exact obeys_bind obeys_getRecord fun _ _ _ => ⟨trivial, nofun⟩
  | denyJti jti ttl => exact ⟨⟨trivial, jti, ttl, rfl⟩, fun _ _ _ => ⟨trivial, nofun⟩⟩
  | isDenied => exact ⟨⟨trivial, trivial⟩, fun _ _ _ => ⟨trivial, nofun⟩⟩

/-- **Every call keeps to its obligations.** -/
theorem Call.obeys (cfg : Settings) (c : Call) :
    Obeys rules c.Ok (fun l _ => c.Done l) (c.prog cfg) .blank :=
  obeys_bind (c.obeys_answer cfg) fun _ _ h => ⟨⟨trivial, h.1⟩, fun _ _ _ => h.2⟩

end Conduct

/-- The calls of a pool keep to their obligations, each in its place. -/
theorem obeyed_start (cfg : Settings) (w : World) (calls : List Call) :
    Obeyed machine .blank (fun i l o => ∃ c, calls[i]? = some c ∧ c.Ok l o)
      (fun i l _ => ∃ c, calls[i]? = some c ∧ c.Done l) (start cfg w calls) := by
  intro i t ht
  simp only [start, List.getElem?_map, Option.map_eq_some_iff] at ht
  obtain ⟨c, hc, rfl⟩ := ht
  exact Obeys.mono (fun l o hok => ⟨c, hc, hok⟩) (fun _ _ h => ⟨c, hc, h⟩) (c.obeys cfg)

/-- No call has noted anything yet. -/
theorem notesOf_start (cfg : Settings) (w : World) (calls : List Call) (i : ℕ) :
    notesOf (start cfg w calls) i = .blank := by
  simp only [notesOf, Pool.locOf, start, List.getElem?_map, Option.map_map]
  cases calls[i]? with
  | none | some => rfl

end Smap.Auth
