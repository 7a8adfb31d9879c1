import Smap.Auth.Jwt

/-!
# The authentication service

Sign-in, refresh, logout and the operations that revoke sessions
(`contexts/identity/application/auth_service.py`), with the password policy they check.
A method is a program over the operations of the store; the errors it raises are values.
Its statements take effect at once: the router commits on success and on the errors of
`refresh`, and the other methods raise only before they write.

Sign-in is the seam all flows share, `_establish_session`; its callers have verified the
credentials and the status of the account.
-/

namespace Smap.Auth

open Program Expiring Sessions

/-! ## Passwords -/

def minPasswordLength : ℕ := 10

def maxPasswordLength : ℕ := 1024

/-- `[A-Za-z]`. -/
def isAsciiLetter (ch : Char) : Bool := ('A' ≤ ch && ch ≤ 'Z') || ('a' ≤ ch && ch ≤ 'z')

/-- `[0-9]`. -/
def isAsciiDigit (ch : Char) : Bool := '0' ≤ ch && ch ≤ '9'

/-- `validate_password`: the detail of the first rule that is broken. -/
def validatePassword (cfg : Settings) (candidate : String) : Except String Unit :=
  let normalised := (cfg.nfkc candidate).toList
  if normalised.length < minPasswordLength then
    .error "password must be ≥ 10 characters"
  else if maxPasswordLength < normalised.length then
    .error "password must be ≤ 1024 characters"
  else if normalised.any isAsciiLetter = false then
    .error "password must contain at least one letter"
  else if normalised.any isAsciiDigit = false then
    .error "password must contain at least one digit"
  else if normalised.any (fun ch => !isAsciiLetter ch && !isAsciiDigit ch) = false then
    .error "password must contain at least one symbol"
  else
    .ok ()

/-- `PasswordHasher.hash`, on a password that has been validated. -/
def hashPassword (cfg : Settings) (plaintext : String) : PasswordHash := ⟨cfg.nfkc plaintext⟩

/-- `PasswordHasher.verify`. -/
def PasswordHash.verify (cfg : Settings) (hash : PasswordHash) (plaintext : String) : Bool :=
  hash.normalised = cfg.nfkc plaintext

/-! ## Methods -/

inductive AuthError where
  | tokenInvalid (detail : String)
  | tokenExpired (detail : String)
  | invalidCredentials
  | passwordPolicyViolation (detail : String)
  deriving DecidableEq

structure TokenPair where
  accessToken : Jwt
  refreshToken : RefreshToken
  expiresIn : ℕ

structure LoginOutcome where
  user : User
  tokens : TokenPair
  sessionId : Uuid

/-- How long a password reset token can be used. -/
def resetTtl : Time := 30 * 60 * second

namespace AuthService

/-- The role claim of an access token. -/
def roleOf (isAdmin : Bool) : String := if isAdmin then "admin" else "user"

/-- `_establish_session`. -/
def establishSession (cfg : Settings) (user : User) : Prog LoginOutcome := do
  let isAdmin ← Users.isAdmin user.id
  let sessionId ← uuid4
  let (accessToken, claims) ←
    signAccessToken cfg user.id sessionId (roleOf isAdmin) isAdmin
  let (refreshToken, record) ←
    createSession cfg user.id sessionId none (some claims.jti) none
  insert sessionId user.id record.familyId (hashRefresh refreshToken)
    (some claims.jti) record.expiresAt
  let remaining ← claims.remainingTtl
  return {
    user := user
    tokens := ⟨accessToken, refreshToken, wholeSeconds remaining⟩
    sessionId := sessionId }

/-- `if last_jti is not None: await tokens.deny_jti(last_jti, ttl=ttl)`; `deny_access_jti`
is `deny_jti` with the configured lifetime. -/
def denyLast (lastJti : Option Uuid) (ttl : Time) : Prog Unit :=
  match lastJti with
  | none => return ()
  | some jti => denyJti jti ttl

/-- What is done for each session of a user whose sessions are invalidated. -/
def invalidateEach (cfg : Settings) : List Session → Prog Unit
  | [] => return ()
  | s :: rest => do
      let _ ← killFamily s.familyId
      denyLast s.lastJti (cfg.accessTtlSeconds * second)
      invalidateEach cfg rest

/-- `_invalidate_user_sessions`. -/
def invalidateUserSessions (cfg : Settings) (userId : Uuid) : Prog Unit := do
  let sessions ← listForUser userId 10000 0
  invalidateEach cfg sessions
  revokeAllForUser userId

/-- The idle timeout applies and has passed. -/
def idleExpired (cfg : Settings) (now lastSeenAt : Time) : Bool :=
  decide (0 < cfg.idleTimeoutSeconds) &&
    decide (cfg.idleTimeoutSeconds * second < (now : ℤ) - lastSeenAt)

/-- `refresh`. -/
def refresh (cfg : Settings) (refreshToken : RefreshToken) :
    Prog (Except AuthError TokenPair) := do
  let peek ← getRecord refreshToken
  match peek with
  | none => return .error (.tokenInvalid "refresh token not recognised")
  | some peek =>
      let user ← Users.getById peek.userId
      match user.filter (·.status = .active) with
      | none =>
          invalidateUserSessions cfg peek.userId
          return .error (.tokenExpired "session user no longer active")
      | some user =>
          if idleExpired cfg (← now) peek.lastSeenAt then
            let _ ← Auth.revokeSession refreshToken
            denyLast peek.lastJti (cfg.accessTtlSeconds * second)
            revoke peek.sessionId
            return .error (.tokenExpired "session idle timeout")
          let isAdmin ← Users.isAdmin user.id
          let (accessToken, claims) ←
            signAccessToken cfg user.id peek.sessionId (roleOf isAdmin) isAdmin
          match ← rotateSession refreshToken claims.jti with
          | .error detail =>
              denyJti claims.jti (← claims.remainingTtl)
              return .error (.tokenInvalid detail)
          | .ok (newToken, _, oldHash) =>
              updateOnRotation oldHash (hashRefresh newToken) claims.jti
              let remaining ← claims.remainingTtl
              return .ok ⟨accessToken, newToken, wholeSeconds remaining⟩

/-- `logout`. -/
def logout (refreshToken : RefreshToken) (accessJti : Uuid) (accessTtl : Time) :
    Prog Unit := do
  let record ← Auth.revokeSession refreshToken
  denyJti accessJti accessTtl
  match record with
  | none => return ()
  | some record => revoke record.sessionId

/-- `revoke_session`. -/
def revokeSession (userId sessionId : Uuid) (accessTtl : Time) : Prog Unit := do
  let session ← getById sessionId
  match session.filter (·.userId = userId) with
  | none => return ()
  | some session =>
      revoke sessionId
      denyLast session.lastJti accessTtl
      let _ ← killFamily session.familyId

/-- `change_password`. -/
def changePassword (cfg : Settings) (userId : Uuid) (currentPassword newPassword : String) :
    Prog (Except AuthError Unit) := do
  match validatePassword cfg newPassword with
  | .error detail => return .error (.passwordPolicyViolation detail)
  | .ok () =>
      let user ← Users.getById userId
      match user.bind User.passwordHash with
      | none => return .error .invalidCredentials
      | some hash =>
          if hash.verify cfg currentPassword = false then
            return .error .invalidCredentials
          Users.setPassword userId (hashPassword cfg newPassword)
          invalidateUserSessions cfg userId
          return .ok ()

/-- `request_password_reset`, for an account it has found. -/
def requestPasswordReset (userId : Uuid) : Prog ResetToken := do
  let id ← tokenUrlsafe
  Resets.issue userId ⟨⟨id⟩⟩ resetTtl
  return ⟨id⟩

/-- `reset_password`. -/
def resetPassword (cfg : Settings) (token : ResetToken) (newPassword : String) :
    Prog (Except AuthError Unit) := do
  match validatePassword cfg newPassword with
  | .error detail => return .error (.passwordPolicyViolation detail)
  | .ok () =>
      let consumed ← Resets.consume ⟨token⟩
      match consumed with
      | none => return .error (.tokenInvalid "password reset token invalid or expired")
      | some userId =>
          Users.setPassword userId (hashPassword cfg newPassword)
          invalidateUserSessions cfg userId
          return .ok ()

end AuthService

/-! ## Requests one after the other -/

/-- What may be asked of the service; the routers pass the configured lifetime of an access
token to `logout` and `revoke_session`.  An account may change from outside, and time goes
by. -/
inductive Request where
  | signIn (user : User)
  | refresh (token : RefreshToken)
  | logout (token : RefreshToken) (accessJti : Uuid)
  | revokeSession (userId sessionId : Uuid)
  | changePassword (userId : Uuid) (currentPassword newPassword : String)
  | requestPasswordReset (userId : Uuid)
  | resetPassword (token : ResetToken) (newPassword : String)
  | accountChanged (userId : Uuid) (user : Option User) (isAdmin : Bool)
  | elapse (d : Time)

/-- The world, the access tokens that sign-ins and refreshes have handed out, and the
refresh tokens that successful refreshes have consumed. -/
structure Site where
  world : World
  issued : List Jwt
  consumed : List RefreshToken

/-- One request, from its beginning to its end. -/
def Site.serve (cfg : Settings) (s : Site) : Request → Site
  | .signIn user =>
      let (outcome, w) := alone (AuthService.establishSession cfg user) s.world
      { s with world := w, issued := outcome.tokens.accessToken :: s.issued }
  | .refresh token =>
      match alone (AuthService.refresh cfg token) s.world with
      | (.ok pair, w) =>
          { world := w, issued := pair.accessToken :: s.issued, consumed := token :: s.consumed }
      | (.error _, w) => { s with world := w }
  | .logout token accessJti =>
      { s with
        world := (alone
          (AuthService.logout token accessJti (cfg.accessTtlSeconds * second)) s.world).2 }
  | .revokeSession userId sessionId =>
      { s with
        world := (alone
          (AuthService.revokeSession userId sessionId (cfg.accessTtlSeconds * second)) s.world).2 }
  | .changePassword userId currentPassword newPassword =>
      { s with
        world := (alone
          (AuthService.changePassword cfg userId currentPassword newPassword) s.world).2 }
  | .requestPasswordReset userId =>
      { s with world := (alone (AuthService.requestPasswordReset userId) s.world).2 }
  | .resetPassword token newPassword =>
      { s with world := (alone (AuthService.resetPassword cfg token newPassword) s.world).2 }
  | .accountChanged userId user isAdmin =>
      { s with
        world :=
          { s.world with
            db :=
              { s.world.db with
                users := Function.update s.world.db.users userId user
                admins := Function.update s.world.db.admins userId isAdmin } } }
  | .elapse d => { s with world := tick d s.world }

/-- A sequence of requests. -/
def Site.run (cfg : Settings) (s : Site) (rs : List Request) : Site :=
  rs.foldl (Site.serve cfg) s

/-- No request has been served yet. -/
def Site.initial (clock : Time) (users : Uuid → Option User) (admins : Uuid → Bool) : Site :=
  ⟨.initial clock users admins, [], []⟩

end Smap.Auth
