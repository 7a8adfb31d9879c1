import Smap.Auth.Serving

/-!
# How far a revocation reaches

Changing or resetting a password and revoking a session put access tokens on the denylist,
which is all the middleware looks at.  They deny one token for each session they go
through, the `last_jti` of its row.  A session that has been refreshed has handed out more
tokens than that, and the older ones live on until they expire.  Nor do the two password
operations go through every session they mark as revoked: they list at most ten thousand
rows, and leave out the rows that have expired.

A token is refused from then on exactly if it is one of the denied ones, or was denied
until its expiry already.
-/

namespace Smap.Auth

open Program Expiring AuthService Site

/-! ## The operations -/

inductive Revocation where
  | changePassword (userId : Uuid) (currentPassword newPassword : String)
  | resetPassword (token : ResetToken) (newPassword : String)
  | revokeSession (userId sessionId : Uuid)

open Revocation

namespace Revocation

def request : Revocation → Request
  | .changePassword u current new => .changePassword u current new
  | .resetPassword token new => .resetPassword token new
  | .revokeSession u id => .revokeSession u id

/-- The operation returns without an error. -/
def returns (cfg : Settings) (w : World) : Revocation → Bool
  | .changePassword u current new =>
    (alone (AuthService.changePassword cfg u current new) w).1.isOk
  | .resetPassword token new => (alone (AuthService.resetPassword cfg token new) w).1.isOk
  | .revokeSession _ _ => true

/-- The user whose sessions a password operation revokes. -/
def user (w : World) : Revocation → Option Uuid
  | .changePassword u _ _ => some u
  | .resetPassword token _ => (w.db.consumeReset w.clock ⟨token⟩).1
  | .revokeSession _ _ => none

/-- The row `revoke_session` finds. -/
def row (w : World) : Revocation → Option Session
  | .revokeSession u id => (w.db.getSession id).filter (·.userId = u)
  | _ => none

/-- The sessions the operation marks as revoked. -/
def targets (op : Revocation) (w : World) : List Uuid :=
  ((op.user w).elim [] fun u =>
      (w.db.sessions.filter fun s => s.userId = u ∧ s.revokedAt = none).map Session.id) ++
    (op.row w).toList.map Session.id

/-- The access tokens the operation denies. -/
def lastJtis (op : Revocation) (w : World) : List Uuid :=
  ((op.user w).elim [] fun u => (w.db.listForUser w.clock u 10000 0).filterMap Session.lastJti) ++
    (op.row w).toList.filterMap Session.lastJti

end Revocation

/-! ## What the operations deny -/

variable {cfg : Settings} {w : World} {α : Type}

section Deny

variable {l : Notes}

/-- How long a token is denied from now on. -/
def denyDeadline (cfg : Settings) (w : World) : Time :=
  w.clock + max 1 cfg.accessTtlSeconds * second

/-- The denylist after some tokens have been denied. -/
def denying (cfg : Settings) (w : World) (jtis : List Uuid) : Keyspace Uuid Unit :=
  fun j => if j ∈ jtis then some ⟨(), some (denyDeadline cfg w)⟩ else w.redis.denylist j

/-- The denylist and the clock, which is all that matters here. -/
structure Denies (cfg : Settings) (w : World) (jtis : List Uuid) (w' : World) : Prop where
  clock : w'.clock = w.clock
  denylist : w'.redis.denylist = denying cfg w jtis

theorem Denies.nothing {w' : World} (hclock : w'.clock = w.clock)
    (hlist : w'.redis.denylist = w.redis.denylist) : Denies cfg w [] w' := by
  refine ⟨hclock, ?_⟩
  rw [hlist]
  funext j
  simp [denying]

variable {js js' : List Uuid} {new : String}

theorem Denies.trans {w₁ w₂ : World} (h : Denies cfg w js w₁) (h' : Denies cfg w₁ js' w₂) :
    Denies cfg w (js ++ js') w₂ := by
  refine ⟨h'.clock.trans h.clock, ?_⟩
  rw [h'.denylist]
  funext j
  simp only [denying, denyDeadline, h.clock, h.denylist, List.mem_append]
  by_cases hj : j ∈ js'
  · simp [hj]
  · simp [hj]

/-- The program denies these tokens, from whatever world it is run. -/
def Denying {α : Type} (cfg : Settings) (jtis : List Uuid) (p : Prog α) : Prop :=
  ∀ l w, Denies cfg w jtis (eval act note p l w).2.2

theorem Denying.bind {β : Type} {p : Prog α} {f : α → Prog β} (hp : Denying cfg js p)
    (hf : ∀ a, Denying cfg js' (f a)) : Denying cfg (js ++ js') (p >>= f) := by
  intro l w
  rw [eval_bind]
  exact (hp l w).trans (hf _ _ _)

theorem denying_pure (a : α) : Denying cfg [] (pure a : Prog α) :=
  fun _ _ => .nothing rfl rfl

theorem denying_killFamily (f : Uuid) : Denying cfg [] (killFamily f) := by
  intro l w
  by_cases hempty : members w.redis.family w.clock f = []
  · exact .nothing (by simp [killFamily, hempty]) (by simp [killFamily, hempty])
  · exact .nothing (by simp [killFamily, hempty]) (by simp [killFamily, hempty, run_killFamily])

theorem denying_denyLast (jti : Option Uuid) :
    Denying cfg jti.toList (denyLast jti (cfg.accessTtlSeconds * second)) := by
  intro l w
  cases jti with
  | none => exact .nothing rfl rfl
  | some =>
    refine ⟨rfl, ?_⟩
    funext j
    simp [denyLast, denyJti, run_denyJti, put, denying, denyDeadline, wholeSeconds_mul]

theorem denying_invalidateEach (sessions : List Session) :
    Denying cfg (sessions.filterMap Session.lastJti) (invalidateEach cfg sessions) := by
  induction sessions with
  | nil => exact denying_pure ()
  | cons s rest ih =>
    have hall : Denying cfg ([] ++ (s.lastJti.toList ++ rest.filterMap Session.lastJti))
        (invalidateEach cfg (s :: rest)) :=
      (denying_killFamily s.familyId).bind fun _ => (denying_denyLast s.lastJti).bind fun _ => ih
    cases hj : s.lastJti with
    | none | some => simpa [List.filterMap_cons, hj] using hall

/-- A statement of a repository denies nothing. -/
theorem denies_revoked (u : Uuid) : Denying cfg [] (Sessions.revokeAllForUser u) :=
  fun _ _ => .nothing rfl rfl

/-- `_invalidate_user_sessions` denies the last token of each row it lists. -/
theorem denies_invalidateUserSessions (cfg : Settings) (u : Uuid) (l : Notes) (w : World) :
    Denies cfg w ((w.db.listForUser w.clock u 10000 0).filterMap Session.lastJti)
      (eval act note (invalidateUserSessions cfg u) l w).2.2 := by
  have hall : Denies cfg w ((w.db.listForUser w.clock u 10000 0).filterMap Session.lastJti ++ [])
      (eval act note (invalidateUserSessions cfg u) l w).2.2 :=
    (denying_invalidateEach _).bind (fun _ => denies_revoked u) _ w
  rwa [List.append_nil] at hall

/-- The same, where the tables have changed but not the session rows. -/
theorem denies_invalidate {db : Database} (hdb : db.sessions = w.db.sessions) (u : Uuid)
    (l : Notes) :
    Denies cfg w ((w.db.listForUser w.clock u 10000 0).filterMap Session.lastJti)
      (eval act note (invalidateUserSessions cfg u) l { w with db := db }).2.2 := by
  have hlist : db.listForUser w.clock u 10000 0 = w.db.listForUser w.clock u 10000 0 := by
    simp only [Database.listForUser, Database.activeSessions, hdb]
  have h := denies_invalidateUserSessions cfg u l { w with db := db }
  rw [← hlist]
  exact ⟨h.clock, h.denylist⟩

theorem denies_changePassword {u : Uuid} {old : String}
    (hret : (alone (AuthService.changePassword cfg u old new) w).1.isOk = true) :
    Denies cfg w ((w.db.listForUser w.clock u 10000 0).filterMap Session.lastJti)
      (alone (AuthService.changePassword cfg u old new) w).2 := by
  simp only [alone, AuthService.changePassword] at hret ⊢
  cases hnew : validatePassword cfg new with
  | error => simp [hnew, Except.isOk, Except.toBool] at hret
  | ok =>
    simp only [hnew, eval_bind, eval_getById] at hret ⊢
    cases hhash : (w.db.users u).bind User.passwordHash with
    | none => simp [hhash, Except.isOk, Except.toBool] at hret
    | some hash =>
      simp only [hhash] at hret ⊢
      by_cases hold : hash.verify cfg old = false
      · simp [hold, Except.isOk, Except.toBool] at hret
      · rw [if_neg hold]
        simp only [eval_bind, eval_setPassword, eval_pure]
        refine denies_invalidate ?_ u _
        rfl

theorem denies_resetPassword {token : ResetToken}
    (hret : (alone (AuthService.resetPassword cfg token new) w).1.isOk = true) :
    ∃ u, (w.db.consumeReset w.clock ⟨token⟩).1 = some u ∧
      Denies cfg w ((w.db.listForUser w.clock u 10000 0).filterMap Session.lastJti)
        (alone (AuthService.resetPassword cfg token new) w).2 := by
  simp only [alone, AuthService.resetPassword] at hret ⊢
  cases hnew : validatePassword cfg new with
  | error => simp [hnew, Except.isOk, Except.toBool] at hret
  | ok =>
    simp only [hnew, eval_bind, eval_consume] at hret ⊢
    cases huser : (w.db.consumeReset w.clock ⟨token⟩).1 with
    | none => simp [huser, Except.isOk, Except.toBool] at hret
    | some u =>
      refine ⟨u, rfl, ?_⟩
      simp only [eval_bind, eval_setPassword, eval_pure]
      refine denies_invalidate ?_ u _
      rfl

theorem denies_revokeSession (u id : Uuid) :
    Denies cfg w (((w.db.getSession id).filter (·.userId = u)).toList.filterMap Session.lastJti)
      (alone (AuthService.revokeSession u id (cfg.accessTtlSeconds * second)) w).2 := by
  simp only [alone, AuthService.revokeSession, eval_bind, eval_getSession]
  cases (w.db.getSession id).filter (·.userId = u) with
  | none => exact .nothing rfl rfl
  | some session =>
    have hall : Denying cfg (session.lastJti.toList ++ ([] ++ []))
        (do denyLast session.lastJti (cfg.accessTtlSeconds * second)
            let _ ← killFamily session.familyId) :=
      (denying_denyLast session.lastJti).bind fun _ =>
        (denying_killFamily session.familyId).bind fun _ => denying_pure ()
    have h := hall .blank { w with db := w.db.revoke w.clock id }
    have hjtis : [session].filterMap Session.lastJti = session.lastJti.toList := by
      cases hj : session.lastJti <;> simp [hj]
    simp only [List.append_nil, eval_bind, eval_revoke, Option.toList_some, hjtis] at h ⊢
    exact ⟨h.clock, h.denylist⟩

/-- **What an operation that returns leaves on the denylist.** -/
theorem denies_serve {op : Revocation} {s : Site} (hret : op.returns cfg s.world = true) :
    Denies cfg s.world (op.lastJtis s.world) (s.serve cfg op.request).world := by
  cases op with
  | changePassword =>
    simpa [Site.serve, request, lastJtis, user, row] using denies_changePassword hret
  | resetPassword =>
    obtain ⟨u, hu, hdenies⟩ := denies_resetPassword hret
    simpa [Site.serve, request, lastJtis, user, row, hu] using hdenies
  | revokeSession u id =>
    simpa [Site.serve, request, lastJtis, user, row] using denies_revokeSession u id

end Deny

/-! ## Denied until expiry -/

/-- The token has not expired at a time. -/
def Jwt.unexpired (token : Jwt) (t : Time) : Prop := t < token.claims.exp * second

/-- The token stays on the denylist until it expires. -/
def DeniedUntilExpiry (w : World) (token : Jwt) : Prop :=
  ∀ t, w.clock ≤ t → token.unexpired t → get w.redis.denylist t token.claims.jti = some ()

/-- A token that has been handed out: its `jti` has been drawn, and no token outlives the
configured lifetime. -/
structure Drawn (cfg : Settings) (w : World) (token : Jwt) : Prop where
  jti : token.claims.jti < w.uuids
  exp : token.claims.exp * second ≤ denyDeadline cfg w

variable {token : Jwt}

/-- Only `deny_jti` touches the denylist. -/
theorem denylist_run {p : Pipeline} (hp : ∀ jti seconds, p ≠ .denyJti jti seconds) (t : Time)
    (s : SessionStore) : (p.run t s).denylist = s.denylist := by
  cases p with
  | writeSession => rw [run_writeSession]
  | rotateSession => rw [run_rotateSession]
  | revokeSession | deleteSession => rfl
  | killFamily => rw [run_killFamily]
  | denyJti jti seconds => exact absurd rfl (hp jti seconds)

theorem DeniedUntilExpiry.congr {w' : World} (h : DeniedUntilExpiry w token)
    (hclock : w'.clock = w.clock) (hlist : w'.redis.denylist = w.redis.denylist) :
    DeniedUntilExpiry w' token := by
  intro t ht hexp
  rw [hlist]
  exact h t (hclock ▸ ht) hexp

/-- A token that is denied for the configured lifetime is denied until it expires. -/
theorem deniedUntilExpiry_of_entry (hd : Drawn cfg w token) {d : Time}
    (he : w.redis.denylist token.claims.jti = some ⟨(), some d⟩) (hdl : denyDeadline cfg w ≤ d) :
    DeniedUntilExpiry w token := by
  intro t _ hexp
  refine get_eq_some.mpr ⟨some d, he, ?_⟩
  have htd : t ≤ d := Nat.le_of_lt (Nat.lt_of_lt_of_le hexp (Nat.le_trans hd.exp hdl))
  simpa using htd

/-- What a method knows of a token that was handed out before it began. -/
structure Kept (cfg : Settings) (token : Jwt) (l : Notes) (w : World) : Prop where
  drawn : Drawn cfg w token
  other : l.uuid ≠ some token.claims.jti
  denied : DeniedUntilExpiry w token

/-- An operation keeps a token denied: nothing takes it off the denylist, and it is denied
anew only for the configured lifetime. -/
theorem Kept.step {l : Notes} {o : Op} (hok : ServiceOk cfg l o) (h : Kept cfg token l w) :
    Kept cfg token (note l o (act o w).1) (act o w).2 := by
  have hsame : ∀ (hquiet : ∀ jti seconds, o ≠ .exec (.denyJti jti seconds)),
      (act o w).2.redis.denylist = w.redis.denylist := by
    intro hquiet
    by_cases hexec : ∃ p, o = .exec p
    · obtain ⟨p, rfl⟩ := hexec
      exact denylist_run (fun jti seconds hp => hquiet jti seconds (by rw [hp])) _ _
    · rw [session_act (not_exists.mp hexec)]
  have hclock := Coherent.clock_act o w
  have hdrawn : Drawn cfg (act o w).2 token := by
    refine ⟨Nat.lt_of_lt_of_le h.drawn.jti ?_, ?_⟩
    · cases o with
      | uuid4 => exact Nat.le_succ _
      | _ => exact Nat.le_refl _
    · rw [denyDeadline, hclock]
      exact h.drawn.exp
  refine ⟨hdrawn, ?_, ?_⟩
  · intro hu
    obtain ⟨hold, -⟩ | ⟨-, hjti⟩ := uuid_note (i := 0) hu
    · exact h.other hold
    · exact absurd h.drawn.jti (by rw [hjti]; exact Nat.lt_irrefl _)
  · by_cases hdeny : ∃ jti seconds, o = .exec (.denyJti jti seconds)
    · obtain ⟨jti, seconds, rfl⟩ := hdeny
      by_cases hj : token.claims.jti = jti
      · subst hj
        obtain rfl | hu := hok.2 _ _ rfl
        · exact deniedUntilExpiry_of_entry hdrawn (put_self ..) (Nat.le_refl _)
        · exact absurd hu h.other
      · intro t ht hexp
        have hput : (act (.exec (.denyJti jti seconds)) w).2.redis.denylist token.claims.jti =
            w.redis.denylist token.claims.jti := put_of_ne hj _ _
        rw [get_congr hput]
        exact h.denied t ht hexp
    · exact h.denied.congr hclock (hsame fun jti seconds ho => hdeny ⟨jti, seconds, ho⟩)

/-- **A denied token stays denied**, whatever requests follow. -/
theorem deniedUntilExpiry_run (rs : List Request) {s : Site} (hd : Drawn cfg s.world token)
    (h : DeniedUntilExpiry s.world token) :
    DeniedUntilExpiry (s.run cfg rs).world token := by
  induction rs generalizing s with
  | nil => exact h
  | cons r rs ih =>
    have hnext := serve_invariant
      (P := fun w => Drawn cfg w token ∧ DeniedUntilExpiry w token)
      (fun p post hp w hw => by
        have hkept : Kept cfg token .blank w := ⟨hw.1, nofun, hw.2⟩
        have hall := eval_invariant (fun _ _ _ => Kept.step) hp hkept
        exact ⟨hall.1.drawn, hall.1.denied⟩)
      (fun w users admins hw => ⟨⟨hw.1.jti, hw.1.exp⟩, hw.2⟩)
      (fun w d hw => ⟨⟨hw.1.jti, Nat.le_trans hw.1.exp
          (Nat.add_le_add_right (Nat.le_add_right _ _) _)⟩,
        fun t ht hexp => hw.2 t (Nat.le_trans (Nat.le_add_right _ _) ht) hexp⟩)
      ⟨hd, h⟩ r
    exact ih hnext.1 hnext.2

/-! ## Access tokens that have been handed out -/

/-- The token was signed by the service, with a `jti` of its own. -/
def HandedOut (cfg : Settings) (w : World) (token : Jwt) : Prop :=
  ∃ issued u sid jti role adm, issued ≤ w.clock ∧ jti < w.uuids ∧
    token = accessJwt cfg issued u sid jti role adm

theorem HandedOut.mono {w' : World} (h : HandedOut cfg w token) (hclock : w.clock ≤ w'.clock)
    (huuids : w.uuids ≤ w'.uuids) : HandedOut cfg w' token := by
  obtain ⟨issued, u, sid, jti, role, adm, hissued, hjti, rfl⟩ := h
  exact ⟨issued, u, sid, jti, role, adm, Nat.le_trans hissued hclock,
    Nat.lt_of_lt_of_le hjti huuids, rfl⟩

theorem HandedOut.drawn (h : HandedOut cfg w token) : Drawn cfg w token := by
  obtain ⟨issued, u, sid, jti, role, adm, hissued, hjti, rfl⟩ := h
  refine ⟨hjti, ?_⟩
  calc wholeSeconds (issued + cfg.accessTtlSeconds * second) * second
      ≤ issued + cfg.accessTtlSeconds * second := Nat.div_mul_le_self _ _
    _ ≤ w.clock + max 1 cfg.accessTtlSeconds * second :=
        Nat.add_le_add hissued (Nat.mul_le_mul_right _ (Nat.le_max_right _ _))

theorem clock_eval (p : Prog α) (l : Notes) (w : World) :
    (eval act note p l w).2.2.clock = w.clock := by
  induction p generalizing l w with
  | pure => rfl
  | op o k ih => exact (ih _ _ _).trans (Coherent.clock_act o w)

theorem uuids_le_eval (p : Prog α) (l : Notes) (w : World) :
    w.uuids ≤ (eval act note p l w).2.2.uuids := by
  induction p generalizing l w with
  | pure => exact Nat.le_refl _
  | op o k ih =>
    refine Nat.le_trans ?_ (ih _ _ _)
    cases o with
    | uuid4 => exact Nat.le_succ _
    | _ => exact Nat.le_refl _

theorem eval_getRecord (t : RefreshToken) (l : Notes) (w : World) :
    ∃ l', eval act note (getRecord t) l w =
      ((get w.redis.session w.clock (hashRefresh t)).map (parseRecord w.clock), l', w) := by
  refine ⟨note l (.hgetall (hashRefresh t)) (get w.redis.session w.clock (hashRefresh t)), ?_⟩
  simp only [getRecord, eval_bind, eval_hgetall]
  cases get w.redis.session w.clock (hashRefresh t) <;> rfl

theorem eval_signAccessToken (u sid : Uuid) (role : String) (adm : Bool) (l : Notes)
    (w : World) :
    eval act note (signAccessToken cfg u sid role adm) l w =
      ((accessJwt cfg w.clock u sid w.uuids role adm,
          { sub := u, sessionId := sid, jti := w.uuids,
            exp := w.clock + cfg.accessTtlSeconds * second, iat := w.clock, role := role,
            isAdmin := adm, impersonatedBy := none }),
        note l .uuid4 w.uuids, { w with uuids := w.uuids + 1 }) := rfl

/-- A program that has just signed a token, and goes on. -/
theorem handedOut_signed (p : Prog α) (l : Notes) (u sid : Uuid) (role : String) (adm : Bool) :
    HandedOut cfg (eval act note p l { w with uuids := w.uuids + 1 }).2.2
      (accessJwt cfg w.clock u sid w.uuids role adm) := by
  refine ⟨w.clock, u, sid, w.uuids, role, adm, ?_, ?_, rfl⟩
  · rw [clock_eval]
  · exact uuids_le_eval p l { w with uuids := w.uuids + 1 }

/-- A refresh that succeeds hands out a token it has just signed. -/
theorem handedOut_refresh {t : RefreshToken} {pair : TokenPair}
    (h : (alone (refresh cfg t) w).1 = .ok pair) :
    HandedOut cfg (alone (refresh cfg t) w).2 pair.accessToken := by
  obtain ⟨l, hrecord⟩ := eval_getRecord t .blank w
  simp only [alone, refresh, eval_bind, hrecord] at h ⊢
  cases hget : get w.redis.session w.clock (hashRefresh t) with
  | none => simp [hget] at h
  | some raw =>
    simp only [hget, Option.map_some, eval_bind, eval_getById] at h ⊢
    cases huser : (w.db.users (parseRecord w.clock raw).userId).filter (·.status = .active) with
    | none => simp [huser] at h
    | some user =>
      simp only [huser, eval_bind, eval_now] at h ⊢
      by_cases hidle :
          idleExpired cfg w.clock (parseRecord w.clock raw).lastSeenAt = true
      · simp [hidle] at h
      simp only [hidle, Bool.false_eq_true, ↓reduceIte, eval_bind, eval_isAdmin,
        eval_signAccessToken] at h ⊢
      have htoken : pair.accessToken = accessJwt cfg w.clock user.id
          (parseRecord w.clock raw).sessionId w.uuids
          (roleOf (w.db.admins user.id)) (w.db.admins user.id) := by
        split at h
        · simp only [eval_bind, eval_pure, reduceCtorEq] at h
        · simp only [eval_bind, eval_pure, Except.ok.injEq] at h
          rw [← h]
      rw [htoken]
      exact (handedOut_signed (rotateSession t w.uuids) _ _ _ _ _).mono
        (clock_eval _ _ _).ge (uuids_le_eval _ _ _)

/-- So does a sign-in. -/
theorem handedOut_establishSession (user : User) :
    HandedOut cfg (alone (establishSession cfg user) w).2
      (alone (establishSession cfg user) w).1.tokens.accessToken := by
  -- the session, the token and the family are drawn, in this order
  have hjti : w.uuids + 1 < w.uuids + 3 := by omega
  exact ⟨w.clock, user.id, w.uuids, w.uuids + 1, roleOf (w.db.admins user.id),
    w.db.admins user.id, Nat.le_refl w.clock, hjti, rfl⟩

variable {s : Site}

theorem HandedOut.serve (h : HandedOut cfg s.world token) (r : Request) :
    HandedOut cfg (s.serve cfg r).world token := by
  refine serve_invariant (P := fun w => HandedOut cfg w token) ?_ ?_ ?_ h r
  · intro _ p _ _ w hw
    exact hw.mono (clock_eval _ _ _).ge (uuids_le_eval _ _ _)
  · intro w users admins hw
    exact hw.mono (Nat.le_refl _) (Nat.le_refl _)
  · intro w d hw
    exact hw.mono (Nat.le_add_right _ _) (Nat.le_refl _)

theorem HandedOut.run (h : HandedOut cfg s.world token) (rs : List Request) :
    HandedOut cfg (s.run cfg rs).world token := by
  induction rs generalizing s with
  | nil => exact h
  | cons r rs ih => exact ih (h.serve r)

/-- Every access token of the record was signed by the service. -/
def Site.Issued (cfg : Settings) (s : Site) : Prop :=
  ∀ token ∈ s.issued, HandedOut cfg s.world token

namespace Site.Issued

theorem serve (h : s.Issued cfg) (r : Request) : (s.serve cfg r).Issued cfg := by
  intro token ht
  have hold : token ∈ s.issued → HandedOut cfg (s.serve cfg r).world token :=
    fun hmem => (h token hmem).serve r
  cases r with
  | signIn user =>
    obtain rfl | hmem := List.mem_cons.mp ht
    · exact handedOut_establishSession user
    · exact hold hmem
  | refresh t =>
    have hnew : ∀ pair, (alone (refresh cfg t) s.world).1 = .ok pair →
        HandedOut cfg (alone (refresh cfg t) s.world).2 pair.accessToken :=
      fun _ => handedOut_refresh
    rcases hres : alone (refresh cfg t) s.world with ⟨result, w⟩
    simp only [hres] at hnew
    simp only [Site.serve, hres] at ht hold ⊢
    cases result with
    | error => exact hold ht
    | ok pair =>
      obtain rfl | hmem := List.mem_cons.mp ht
      · exact hnew pair rfl
      · exact hold hmem
  | _ => exact hold ht

theorem run (h : s.Issued cfg) (rs : List Request) : (s.run cfg rs).Issued cfg := by
  induction rs generalizing s with
  | nil => exact h
  | cons r rs ih => exact ih (h.serve r)

theorem initial (clock : Time) (users : Uuid → Option User) (admins : Uuid → Bool) :
    (initial clock users admins).Issued cfg := by
  intro token htoken
  cases htoken

end Site.Issued

/-! ## What the middleware makes of them -/

theorem verifyAccessToken_of_claims {current : Time} {sid : Uuid} (hsigned : token.signed = true)
    (hsid : token.claims.sid = some sid)
    (hclaims : verifyClaims cfg "access" "access" current token.claims = .ok ()) :
    ∃ claims, verifyAccessToken cfg current token = .ok claims ∧
      claims.jti = token.claims.jti ∧ claims.sub = token.claims.sub := by
  simp [verifyAccessToken, verifyJwt, hsigned, hsid, hclaims, bind, Except.bind, pure, Except.pure]

/-- A token of the service passes the verifier until it expires. -/
theorem HandedOut.verify (h : HandedOut cfg w token) (hexp : token.unexpired w.clock) :
    ∃ claims, verifyAccessToken cfg w.clock token = .ok claims ∧
      claims.jti = token.claims.jti ∧ claims.sub = token.claims.sub := by
  obtain ⟨issued, u, sid, jti, role, adm, hissued, -, rfl⟩ := h
  have hiat : wholeSeconds issued * second ≤ w.clock :=
    Nat.le_trans (Nat.div_mul_le_self _ _) hissued
  have hlt : wholeSeconds issued < wholeSeconds (issued + cfg.accessTtlSeconds * second) :=
    Nat.lt_of_mul_lt_mul_right (Nat.lt_of_le_of_lt hiat hexp)
  have hnow : ¬ w.clock + leeway < wholeSeconds issued * second :=
    Nat.not_lt.mpr (Nat.le_trans hiat (Nat.le_add_right _ _))
  have hlate :
      ¬ wholeSeconds (issued + cfg.accessTtlSeconds * second) * second + leeway < w.clock :=
    Nat.not_lt.mpr (Nat.le_trans (Nat.le_of_lt hexp) (Nat.le_add_right _ _))
  have hclaims : verifyClaims cfg "access" "access" w.clock
      (accessJwt cfg issued u sid jti role adm).claims = .ok () := by
    simp [verifyClaims, accessJwt, Nat.not_le.mpr hlt, hnow, hlate]
  exact verifyAccessToken_of_claims rfl rfl hclaims

/-- The middleware authenticates an unexpired token of the service unless it is denied or
its user is gone or banned. -/
theorem HandedOut.accepts_eq (h : HandedOut cfg w token) (hexp : token.unexpired w.clock) :
    accepts cfg w token =
      ((get w.redis.denylist w.clock token.claims.jti).isNone &&
        (w.db.users token.claims.sub).any fun u => u.status ≠ .deleted ∧ u.status ≠ .banned) := by
  have haccess : isGuestToken token = false := by
    obtain ⟨issued, u, sid, jti, role, adm, -, -, rfl⟩ := h
    rfl
  obtain ⟨claims, hverify, hjti, hsub⟩ := h.verify hexp
  simp only [accepts, alone, dispatch, haccess, Bool.false_eq_true, ↓reduceIte, eval_bind, eval_now,
    hverify, isDenied, eval_existsDenied, hjti]
  by_cases hdenied : get w.redis.denylist w.clock token.claims.jti = none
  · simp only [hdenied, Option.isSome_none, Bool.false_eq_true, ↓reduceIte, eval_bind, eval_getById,
      hsub]
    cases huser : w.db.users token.claims.sub with
    | none => simp
    | some u => cases hstatus : u.status <;> simp [hstatus]
  · simp [hdenied, Option.isSome_iff_ne_none]

/-! ## How far the operations reach -/

/-- After the operation, and whatever is asked later, no access token that a session it
revokes had been given before is accepted while it has not expired. -/
def Site.Reached (cfg : Settings) (s : Site) (op : Revocation) : Prop :=
  ∀ token ∈ s.issued, ∀ sid ∈ op.targets s.world, token.claims.sid = some sid → ∀ later,
    token.unexpired ((s.serve cfg op.request).run cfg later).world.clock →
      accepts cfg ((s.serve cfg op.request).run cfg later).world token = false

/-- Before the operation, each of these tokens that has not expired is the last one of a
row the operation goes through, or has been denied until its expiry already. -/
def Site.Covered (s : Site) (op : Revocation) : Prop :=
  ∀ token ∈ s.issued, ∀ sid ∈ op.targets s.world, token.claims.sid = some sid →
    token.unexpired s.world.clock →
      token.claims.jti ∈ op.lastJtis s.world ∨ DeniedUntilExpiry s.world token

section Reach

variable {op : Revocation}

theorem clock_le_run (s : Site) (rs : List Request) :
    s.world.clock ≤ (s.run cfg rs).world.clock := by
  induction rs generalizing s with
  | nil => exact Nat.le_refl _
  | cons r rs ih =>
    have hserve : s.world.clock ≤ (s.serve cfg r).world.clock :=
      serve_invariant (P := fun w => s.world.clock ≤ w.clock)
        (fun p _ _ w hw => Nat.le_trans hw (clock_eval p .blank w).ge) (fun _ _ _ hw => hw)
        (fun w d hw => Nat.le_trans hw (Nat.le_add_right _ d)) (Nat.le_refl _) r
    exact Nat.le_trans hserve (ih _)

variable (h : HandedOut cfg s.world token)

include h

/-- A token the operation goes through is denied until it expires, and so is one that was
before. -/
theorem deniedUntilExpiry_serve (hret : op.returns cfg s.world = true)
    (hcov : token.claims.jti ∈ op.lastJtis s.world ∨ DeniedUntilExpiry s.world token) :
    DeniedUntilExpiry (s.serve cfg op.request).world token := by
  have hden := denies_serve hret
  by_cases hlast : token.claims.jti ∈ op.lastJtis s.world
  · refine deniedUntilExpiry_of_entry (h.serve op.request).drawn
      (d := denyDeadline cfg s.world) ?_ ?_
    · rw [hden.denylist]
      exact if_pos hlast
    · rw [denyDeadline, hden.clock]
      exact Nat.le_refl _
  · have hbefore := hcov.resolve_left hlast
    intro t ht hexp
    have hsame : (s.serve cfg op.request).world.redis.denylist token.claims.jti =
        s.world.redis.denylist token.claims.jti := by
      rw [hden.denylist]
      exact if_neg hlast
    rw [get_congr hsame]
    exact hbefore t (hden.clock ▸ ht) hexp

theorem refused_of_denied (hd : DeniedUntilExpiry s.world token) (later : List Request)
    (hexp : token.unexpired (s.run cfg later).world.clock) :
    accepts cfg (s.run cfg later).world token = false := by
  have hdenied := deniedUntilExpiry_run later h.drawn hd _ (Nat.le_refl _) hexp
  rw [(h.run later).accepts_eq hexp, hdenied]
  rfl

/-- A token that is refused whatever is asked later is denied until it expires: the account
may be found active at any time. -/
theorem denied_of_refused
    (hrefused : ∀ later, token.unexpired (s.run cfg later).world.clock →
      accepts cfg (s.run cfg later).world token = false) : DeniedUntilExpiry s.world token := by
  intro t ht hexp
  let later : List Request :=
    [.accountChanged token.claims.sub (some ⟨token.claims.sub, none, true, .active⟩) false,
      .elapse (t - s.world.clock)]
  have hclock : (s.run cfg later).world.clock = t := Nat.add_sub_cancel' ht
  have hno := hrefused later (hclock ▸ hexp)
  rw [(h.run later).accepts_eq (hclock ▸ hexp), hclock] at hno
  have huser : (s.run cfg later).world.db.users token.claims.sub =
      some ⟨token.claims.sub, none, true, .active⟩ := Function.update_self ..
  have hlist : (s.run cfg later).world.redis.denylist = s.world.redis.denylist := rfl
  rw [huser, hlist] at hno
  cases hget : get s.world.redis.denylist t token.claims.jti with
  | none => simp [hget] at hno
  | some => rfl

end Reach

/-- **How far a revocation reaches.**  Whatever requests have been served, the access tokens
of the sessions that `change_password`, `reset_password` or `revoke_session` revokes are
refused from its return until they expire exactly if each of them was the last token of a
row it goes through, or denied until its expiry before. -/
theorem revocation_reaches_iff (cfg : Settings) (clock : Time) (users : Uuid → Option User)
    (admins : Uuid → Bool) (rs : List Request) (op : Revocation)
    (hret : op.returns cfg ((initial clock users admins).run cfg rs).world = true) :
    ((initial clock users admins).run cfg rs).Reached cfg op ↔
      ((initial clock users admins).run cfg rs).Covered op := by
  generalize hs : (initial clock users admins).run cfg rs = s at hret ⊢
  have hissued : s.Issued cfg := hs ▸ (Site.Issued.initial clock users admins).run rs
  have hclock := (denies_serve hret).clock
  constructor
  · intro hreach token hmem sid hsid htoken _
    by_cases hlast : token.claims.jti ∈ op.lastJtis s.world
    · exact .inl hlast
    right
    have hdenied := denied_of_refused ((hissued token hmem).serve op.request)
      (hreach token hmem sid hsid htoken)
    intro t ht hexp
    have hnow := hdenied t (hclock ▸ ht) hexp
    rw [(denies_serve hret).denylist] at hnow
    rwa [get_congr (if_neg hlast)] at hnow
  · intro hcov token hmem sid hsid htoken later hexp
    have hle : s.world.clock ≤ ((s.serve cfg op.request).run cfg later).world.clock :=
      hclock ▸ clock_le_run (s.serve cfg op.request) later
    have hnow : token.unexpired s.world.clock := Nat.lt_of_le_of_lt hle hexp
    exact refused_of_denied ((hissued token hmem).serve op.request)
      (deniedUntilExpiry_serve (hissued token hmem) hret (hcov token hmem sid hsid htoken hnow))
      later hexp

def holder : User := ⟨7, some (hashPassword .default "old-secret-1"), true, .active⟩

/-- The one account there is. -/
def holders (u : Uuid) : Option User := if u = 7 then some holder else none

/-- One sign-in. -/
def signedIn : Site := (initial 0 holders fun _ => false).run .default [.signIn holder]

/-- The holder changes their password. -/
def newSecret : Revocation := .changePassword 7 "old-secret-1" "new-secret-2"

/-- A session that has not been refreshed is reached. -/
theorem unrefreshed_session_reached :
    newSecret.returns .default signedIn.world = true ∧ signedIn.Reached .default newSecret := by
  have hret : newSecret.returns .default signedIn.world = true := by decide +kernel
  refine ⟨hret, (revocation_reaches_iff .default 0 holders (fun _ => false) [.signIn holder]
    newSecret hret).mpr ?_⟩
  intro token hmem _ _ _ _
  have hone : ∀ token ∈ signedIn.issued,
      token.claims.jti ∈ newSecret.lastJtis signedIn.world := by decide +kernel
  exact .inl (hone token hmem)

/-- A sign-in, and a refresh one minute later. -/
def refreshedLater : Site :=
  (initial 0 holders fun _ => false).run .default
    [.signIn holder, .elapse (60 * second), .refresh ⟨0⟩]

/-- The access token of the sign-in. -/
def firstToken : Jwt := accessJwt .default 0 7 0 1 "user" false

/-- After the change of password the access token of the sign-in is accepted, because the
session has been refreshed since. -/
theorem older_token_survives :
    newSecret.returns .default refreshedLater.world = true ∧
      firstToken ∈ refreshedLater.issued ∧
      0 ∈ newSecret.targets refreshedLater.world ∧ firstToken.claims.sid = some 0 ∧
      (refreshedLater.serve .default newSecret.request).world.clock <
        firstToken.claims.exp * second ∧
      accepts .default (refreshedLater.serve .default newSecret.request).world firstToken =
        true := by
  decide +kernel

end Smap.Auth
