import Smap.Auth.Tokens

/-!
# Access tokens

The access-token signer and verifier (`shared_kernel/auth/jwt.py`) and the middleware that
turns a bearer token into a principal (`app/api/middleware/auth.py`).  A token is its claim
set together with whether the signature verifies; temporal claims are whole seconds.

The middleware looks a token up in the denylist by its `jti` alone.  It reads neither the
session store nor the session rows, so whether a session has been revoked shows only
through the denylist.
-/

namespace Smap.Auth

open Program Expiring

/-- The claims of either kind of token. -/
structure JwtClaims where
  iss : String
  aud : String
  sub : Uuid
  sid : Option Uuid
  jti : Uuid
  iat : ℕ
  nbf : ℕ
  exp : ℕ
  rol : Option String
  adm : Option Bool
  tokenUse : Option String
  impersonatedBy : Option Uuid
  chatroomId : Option Uuid
  displayName : Option String
  deriving DecidableEq

/-- A token, and whether its signature verifies. -/
structure Jwt where
  claims : JwtClaims
  signed : Bool
  deriving DecidableEq

structure AccessClaims where
  sub : Uuid
  sessionId : Uuid
  jti : Uuid
  exp : Time
  iat : Time
  role : String
  isAdmin : Bool
  impersonatedBy : Option Uuid

structure GuestClaims where
  guestSessionId : Uuid
  chatroomId : Uuid
  displayName : String
  jti : Uuid
  exp : Time
  iat : Time

/-- `_LEEWAY`. -/
def leeway : Time := second

/-- The claim set of an access token, as it is signed. -/
def accessJwt (cfg : Settings) (issued : Time) (userId sessionId jti : Uuid) (role : String)
    (isAdmin : Bool) : Jwt where
  signed := true
  claims :=
    { iss := cfg.issuer
      aud := cfg.audience
      sub := userId
      sid := some sessionId
      jti := jti
      iat := wholeSeconds issued
      nbf := wholeSeconds issued
      exp := wholeSeconds (issued + cfg.accessTtlSeconds * second)
      rol := some role
      adm := some isAdmin
      tokenUse := some "access"
      impersonatedBy := none
      chatroomId := none
      displayName := none }

/-- `sign_access_token`; its callers here pass no extra claims. -/
def signAccessToken (cfg : Settings) (userId sessionId : Uuid) (role : String)
    (isAdmin : Bool) : Prog (Jwt × AccessClaims) := do
  let issued ← now
  let exp := issued + cfg.accessTtlSeconds * second
  let jti ← uuid4
  return (accessJwt cfg issued userId sessionId jti role isAdmin,
    { sub := userId
      sessionId := sessionId
      jti := jti
      exp := exp
      iat := issued
      role := role
      isAdmin := isAdmin
      impersonatedBy := none })

/-- `AccessClaims.remaining_ttl`; a lifetime that is over counts as none. -/
def AccessClaims.remainingTtl (c : AccessClaims) : Prog Time := do
  return c.exp - (← now)

/-- `VaultClient.verify_jwt`. -/
def verifyJwt (token : Jwt) : Except String JwtClaims :=
  if token.signed then .ok token.claims else .error "JWT signature invalid."

/-- The checks both verifiers make of issuer, audience, purpose and times; `kind` is the
word their messages use for the token. -/
def verifyClaims (cfg : Settings) (purpose kind : String) (current : Time) (c : JwtClaims) :
    Except String Unit :=
  let iss := c.iss
  let aud := c.aud
  if iss ≠ cfg.issuer then
    .error s!"issuer mismatch: '{iss}'"
  else if aud ≠ cfg.audience then
    .error s!"audience mismatch: '{aud}'"
  else if c.tokenUse ≠ some purpose then
    .error s!"token_use claim is not '{purpose}'"
  else if c.exp ≤ c.iat then
    .error "malformed claim set: iat >= exp"
  else if current + leeway < c.iat * second then
    .error s!"{kind} token issued in the future"
  else if c.exp * second + leeway < current then
    .error s!"{kind} token expired"
  else if current + leeway < c.nbf * second then
    .error s!"{kind} token not yet valid"
  else
    .ok ()

/-- `verify_access_token`, at the time it reads. -/
def verifyAccessToken (cfg : Settings) (current : Time) (token : Jwt) :
    Except String AccessClaims := do
  let c ← verifyJwt token
  match c.sid with
  | none => .error "malformed claim set: 'sid'"
  | some sid =>
      verifyClaims cfg "access" "access" current c
      return {
        sub := c.sub
        sessionId := sid
        jti := c.jti
        exp := c.exp * second
        iat := c.iat * second
        role := c.rol.getD "user"
        isAdmin := c.adm.getD false
        impersonatedBy := c.impersonatedBy }

/-- `verify_guest_token`, at the time it reads. -/
def verifyGuestToken (cfg : Settings) (current : Time) (token : Jwt) :
    Except String GuestClaims := do
  let c ← verifyJwt token
  match c.chatroomId, c.displayName with
  | none, _ => .error "malformed guest claim set: 'chatroom_id'"
  | some _, none => .error "malformed guest claim set: 'display_name'"
  | some room, some name =>
      verifyClaims cfg "guest_access" "guest" current c
      return {
        guestSessionId := c.sub
        chatroomId := room
        displayName := name
        jti := c.jti
        exp := c.exp * second
        iat := c.iat * second }

/-- `is_guest_token`: the purpose is read from the token before it is verified. -/
def isGuestToken (token : Jwt) : Bool := token.claims.tokenUse = some "guest_access"

/-! ## The middleware -/

structure Principal where
  userId : Uuid
  isAdmin : Bool
  emailVerified : Bool
  isGuest : Bool
  chatroomId : Option Uuid

/-- The part of the request context the middleware fills in. -/
structure RequestContext where
  principal : Principal
  sessionId : Option Uuid
  accessJti : Uuid
  accessExp : Time
  impersonatedBy : Option Uuid

/-- The request goes on without or with a principal, or is refused. -/
inductive Outcome where
  | anonymous
  | authenticated (ctx : RequestContext)
  | denied (slug title : String) (status : ℕ) (detail : String)

/-- `AuthMiddleware._handle_guest`. -/
def handleGuest (cfg : Settings) (token : Jwt) : Prog Outcome := do
  match verifyGuestToken cfg (← now) token with
  | .error detail =>
      return .denied "auth/token-expired" "Guest token invalid or expired" 401 detail
  | .ok claims =>
      if ← isDenied claims.jti then
        return .denied "auth/token-revoked" "Guest token revoked" 401 "guest jti is denylisted"
      return .authenticated
        { principal :=
            { userId := claims.guestSessionId
              isAdmin := false
              emailVerified := false
              isGuest := true
              chatroomId := some claims.chatroomId }
          sessionId := none
          accessJti := claims.jti
          accessExp := claims.exp
          impersonatedBy := none }

/-- `AuthMiddleware.dispatch` on the bearer token of a request, if it has one. -/
def dispatch (cfg : Settings) : Option Jwt → Prog Outcome
  | none => return .anonymous
  | some token =>
      if isGuestToken token then
        handleGuest cfg token
      else do
        match verifyAccessToken cfg (← now) token with
        | .error detail =>
            return .denied "auth/token-expired" "Access token invalid or expired" 401 detail
        | .ok claims =>
            if ← isDenied claims.jti then
              return .denied "auth/token-revoked" "Access token revoked" 401 "jti is denylisted"
            let user ← Users.getById claims.sub
            match user with
            | none =>
                return .denied "auth/invalid-credentials" "Account not found" 401 "user missing"
            | some user =>
                if user.status = .deleted then
                  return .denied "auth/invalid-credentials" "Account not found" 401 "user missing"
                if user.status = .banned then
                  return .denied "auth/banned" "Account banned" 403 "banned"
                let isAdmin ← Users.isAdmin user.id
                return .authenticated
                  { principal :=
                      { userId := user.id
                        isAdmin := isAdmin
                        emailVerified := user.emailVerified
                        isGuest := false
                        chatroomId := none }
                    sessionId := some claims.sessionId
                    accessJti := claims.jti
                    accessExp := claims.exp
                    impersonatedBy := claims.impersonatedBy }

/-- A program on its own, as far as its caller and the world can tell. -/
def alone {α : Type} (p : Prog α) (w : World) : α × World :=
  let r := eval act note p .blank w
  (r.1, r.2.2)

/-- The middleware authenticates a request with the token. -/
def accepts (cfg : Settings) (w : World) (token : Jwt) : Bool :=
  match (alone (dispatch cfg (some token)) w).1 with
  | .authenticated _ => true
  | _ => false

end Smap.Auth
