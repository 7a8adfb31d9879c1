import Smap.Auth.Families
import Smap.Auth.Service

/-!
# One request after the other

A request that runs on its own acts on readings that still hold: nothing changes between a
reading and the block computed from it (`InSync`).  So the blocks of such requests are
current, and the sets and records of the session store agree after every sequence of
requests.

`ServiceOk` is what the methods of the service keep to at each operation: their blocks are
computed from what they have read, and an access token is denied for the configured
lifetime of access tokens, unless it is one that the method has signed itself and not
handed out.
-/

namespace Smap.Auth

open Program Expiring AuthService Function

/-! ## What the methods keep to -/

/-- The obligations of the methods of the service. -/
def ServiceOk (cfg : Settings) (l : Notes) (o : Op) : Prop :=
  Grounded l o ∧ ∀ jti seconds, o = .exec (.denyJti jti seconds) →
    seconds = max 1 cfg.accessTtlSeconds ∨ l.uuid = some jti

/-- A program of the service that keeps to its obligations. -/
abbrev Serves {α : Type} (cfg : Settings) (p : Prog α) (l : Notes) : Prop :=
  Obeys rules (ServiceOk cfg) (fun _ _ => True) p l

variable {cfg : Settings} {l : Notes} {o : Op}

section Conduct

variable {c : Call} {u : Uuid}

/-- A function of the token module that denies nothing may be called anywhere. -/
theorem ServiceOk.of_call (hc : ∀ jti ttl, c ≠ .denyJti jti ttl) (h : c.Ok l o) :
    ServiceOk cfg l o := by
  refine ⟨h.1, ?_⟩
  rintro jti seconds rfl
  obtain ⟨jti', ttl, heq⟩ := h.2
  exact absurd heq (hc jti' ttl)

theorem Obeys.service {α : Type} {post post' : Notes → α → Prop} {p : Prog α}
    (h : Obeys rules c.Ok post p l) (hc : ∀ jti ttl, c ≠ .denyJti jti ttl)
    (hpost : ∀ l a, post l a → post' l a) : Obeys rules (ServiceOk cfg) post' p l :=
  h.mono (fun _ _ => .of_call hc) hpost

theorem wholeSeconds_mul (n : ℕ) : wholeSeconds (n * second) = n :=
  Nat.mul_div_cancel n (by decide)

/-- An access token is denied for the configured lifetime. -/
theorem obeys_denyAccess (cfg : Settings) {jti : Uuid} :
    Serves cfg (denyJti jti (cfg.accessTtlSeconds * second)) l := by
  refine ⟨⟨trivial, ?_⟩, fun _ _ _ => trivial⟩
  intro jti' seconds heq
  obtain ⟨-, rfl⟩ := Pipeline.denyJti.inj (Op.exec.inj heq)
  exact .inl (by rw [wholeSeconds_mul])

theorem obeys_kill (cfg : Settings) {f : Uuid} : Serves cfg (killFamily f) l :=
  Obeys.service (c := .killFamily f) obeys_killFamily nofun fun _ _ _ => trivial

/-- A statement of a repository. -/
theorem obeys_statement (hok : ServiceOk cfg l o) : Serves cfg (perform o) l :=
  ⟨hok, fun _ _ _ => trivial⟩

theorem obeys_signAccessToken {s : Uuid} {role : String} {adm : Bool} :
    Obeys rules (ServiceOk cfg) (fun l' r => l'.uuid = some r.2.jti)
      (signAccessToken cfg u s role adm) l := by
  refine obeys_perform_bind ⟨trivial, nofun⟩ fun _ (issued : Time) _ => ?_
  exact ⟨⟨trivial, nofun⟩, fun _ _ _ => rfl⟩

theorem obeys_remainingTtl {claims : AccessClaims} :
    Obeys rules (ServiceOk cfg) (fun l' _ => l' = l) claims.remainingTtl l :=
  ⟨⟨trivial, nofun⟩, fun _ _ _ => rfl⟩

theorem obeys_denyLast (jti : Option Uuid) :
    Serves cfg (denyLast jti (cfg.accessTtlSeconds * second)) l := by
  cases jti with
  | none => trivial
  | some => exact obeys_denyAccess cfg

theorem obeys_invalidateEach (sessions : List Session) :
    Serves cfg (invalidateEach cfg sessions) l := by
  induction sessions generalizing l with
  | nil => trivial
  | cons s rest ih =>
    refine obeys_bind (obeys_kill cfg) fun _ _ _ => ?_
    exact obeys_bind (obeys_denyLast s.lastJti) fun _ _ _ => ih

theorem obeys_invalidateUserSessions : Serves cfg (invalidateUserSessions cfg u) l := by
  refine obeys_perform_bind ⟨trivial, nofun⟩ fun _ (sessions : List Session) _ => ?_
  exact obeys_bind (obeys_invalidateEach sessions) fun _ _ _ =>
    obeys_statement ⟨trivial, nofun⟩

theorem obeys_establishSession (user : User) : Serves cfg (establishSession cfg user) l := by
  refine obeys_perform_bind ⟨trivial, nofun⟩ fun _ (isAdmin : Bool) _ => ?_
  refine obeys_perform_bind ⟨trivial, nofun⟩ fun _ (sessionId : Uuid) _ => ?_
  refine obeys_bind obeys_signAccessToken fun _ _ _ => ?_
  refine obeys_bind (Obeys.service (c := .createSession user.id sessionId none)
    (obeys_createSession rfl) nofun fun _ _ h => h) fun _ _ _ => ?_
  refine obeys_bind (obeys_statement ⟨trivial, nofun⟩) fun _ _ _ => ?_
  exact obeys_bind obeys_remainingTtl fun _ _ _ => trivial

/-- A refresh that succeeds has rotated the token it was given. -/
theorem obeys_refresh (cfg : Settings) (t : RefreshToken) :
    Obeys rules (ServiceOk cfg) (fun l' r => r.isOk = true → l'.rotated = some (hashRefresh t))
      (refresh cfg t) l := by
  refine obeys_bind (Obeys.service (c := .getRecord t) obeys_getRecord nofun fun _ _ h => h)
    fun _ peek _ => ?_
  cases peek with
  | none => exact nofun
  | some peek =>
    refine obeys_perform_bind ⟨trivial, nofun⟩ fun _ (user : Option User) _ => ?_
    cases user.filter (·.status = .active) with
    | none => exact obeys_bind obeys_invalidateUserSessions fun _ _ _ => nofun
    | some =>
      refine obeys_perform_bind ⟨trivial, nofun⟩ fun _ (t₁ : Time) _ => ?_
      by_cases hidle : idleExpired cfg t₁ peek.lastSeenAt = true
      · rw [if_pos hidle]
        refine obeys_bind (Obeys.service (c := .revokeSession t) obeys_revokeSession nofun
          fun _ _ h => h) fun _ _ _ => ?_
        refine obeys_bind (obeys_denyLast peek.lastJti) fun _ _ _ => ?_
        exact obeys_bind (obeys_statement ⟨trivial, nofun⟩) fun _ _ _ => nofun
      · rw [if_neg hidle]
        refine obeys_perform_bind ⟨trivial, nofun⟩ fun _ (adm : Bool) _ => ?_
        refine obeys_bind obeys_signAccessToken fun l₁ signed hsigned => ?_
        refine obeys_bind (Obeys.service (c := .rotateSession t signed.2.jti)
          (obeys_rotateSession rfl) nofun fun _ _ h => h) fun l₂ r hr => ?_
        obtain ⟨hrotated, huuid⟩ := hr
        cases r with
        | error =>
          -- the token it has signed itself is denied for what is left of it
          refine obeys_bind obeys_remainingTtl fun l₃ remaining h₃ => ?_
          subst h₃
          refine obeys_perform_bind ⟨trivial, fun jti seconds heq => .inr ?_⟩
            fun _ _ _ => nofun
          obtain ⟨rfl, -⟩ := Pipeline.denyJti.inj (Op.exec.inj heq)
          exact huuid.trans hsigned
        | ok =>
          refine obeys_perform_bind ⟨trivial, nofun⟩ fun _ _ _ => ?_
          refine obeys_bind obeys_remainingTtl fun l₃ remaining h₃ => ?_
          subst h₃
          exact fun _ => hrotated rfl

theorem obeys_logout (t : RefreshToken) (jti : Uuid) :
    Serves cfg (logout t jti (cfg.accessTtlSeconds * second)) l := by
  refine obeys_bind (Obeys.service (c := .revokeSession t) obeys_revokeSession nofun
    fun _ _ h => h) fun _ record _ => ?_
  refine obeys_bind (obeys_denyAccess cfg) fun _ _ _ => ?_
  cases record with
  | none => trivial
  | some => exact obeys_statement ⟨trivial, nofun⟩

theorem obeys_serviceRevoke (u s : Uuid) :
    Serves cfg (AuthService.revokeSession u s (cfg.accessTtlSeconds * second)) l := by
  refine obeys_perform_bind ⟨trivial, nofun⟩
    fun _ (session : Option Session) _ => ?_
  cases session.filter (·.userId = u) with
  | none => trivial
  | some session =>
    refine obeys_bind (obeys_statement ⟨trivial, nofun⟩) fun _ _ _ => ?_
    refine obeys_bind (obeys_denyLast session.lastJti) fun _ _ _ => ?_
    exact obeys_bind (obeys_kill cfg) fun _ _ _ => trivial

/-- A new password is set, and the sessions of the user are invalidated. -/
theorem obeys_setPassword (u : Uuid) (hash : PasswordHash) :
    Serves cfg (do
      Users.setPassword u hash
      invalidateUserSessions cfg u
      return (.ok () : Except AuthError Unit)) l :=
  obeys_bind (obeys_statement ⟨trivial, nofun⟩) fun _ _ _ =>
    obeys_bind obeys_invalidateUserSessions fun _ _ _ => trivial

theorem obeys_changePassword (u : Uuid) (old new : String) :
    Serves cfg (changePassword cfg u old new) l := by
  unfold changePassword
  split
  · trivial
  refine obeys_perform_bind ⟨trivial, nofun⟩ fun _ (user : Option User) _ => ?_
  cases user.bind User.passwordHash with
  | none => trivial
  | some hash =>
    dsimp only
    by_cases hverify : hash.verify cfg old = false
    · rw [if_pos hverify]
      trivial
    · rw [if_neg hverify]
      exact obeys_setPassword u _

theorem obeys_resetPassword (token : ResetToken) (new : String) :
    Serves cfg (resetPassword cfg token new) l := by
  unfold resetPassword
  split
  · trivial
  · refine obeys_perform_bind ⟨trivial, nofun⟩ fun _ (user : Option Uuid) _ => ?_
    cases user with
    | none => trivial
    | some u => exact obeys_setPassword u _

theorem obeys_requestPasswordReset (u : Uuid) : Serves cfg (requestPasswordReset u) l := by
  refine obeys_perform_bind ⟨trivial, nofun⟩ fun _ (id : ℕ) _ => ?_
  exact obeys_bind (obeys_statement ⟨trivial, nofun⟩) fun _ _ _ => trivial

end Conduct

/-! ## What requests preserve -/

variable {s : Site}

/-- **What every method keeps, and what changes of accounts and the clock keep, every
request keeps.** -/
theorem serve_invariant {P : World → Prop}
    (hprog : ∀ {α : Type} (p : Prog α) (post : Notes → α → Prop),
      Obeys rules (ServiceOk cfg) post p .blank → ∀ w, P w → P (alone p w).2)
    (haccount : ∀ w users admins, P w →
      P { w with db := { w.db with users := users, admins := admins } })
    (htick : ∀ w d, P w → P (tick d w)) (h : P s.world) (r : Request) :
    P (s.serve cfg r).world := by
  cases r with
  | signIn user => exact hprog _ _ (obeys_establishSession user) _ h
  | refresh token =>
    have hrefresh := hprog _ _ (obeys_refresh cfg token) _ h
    simp only [Site.serve]
    split <;> simp_all
  | logout token jti => exact hprog _ _ (obeys_logout token jti) _ h
  | revokeSession u id => exact hprog _ _ (obeys_serviceRevoke u id) _ h
  | changePassword u old new => exact hprog _ _ (obeys_changePassword u old new) _ h
  | requestPasswordReset u => exact hprog _ _ (obeys_requestPasswordReset u) _ h
  | resetPassword token new => exact hprog _ _ (obeys_resetPassword token new) _ h
  | accountChanged => exact haccount _ _ _ h
  | elapse d => exact htick _ d h

/-! ## A call that is alone -/

/-- The notes of one call, and no other. -/
def solo (l : Notes) : ℕ → Notes := update (fun _ => .blank) 0 l

@[simp] theorem solo_zero (l : Notes) : solo l 0 = l := update_self ..

@[simp] theorem update_solo (l l' : Notes) : update (solo l) 0 l' = solo l' :=
  update_idem ..

theorem solo_blank (i : ℕ) : solo .blank i = .blank := by
  simp [solo, update_eq_self]

/-- What the call has read is what is stored. -/
structure InSync (l : Notes) (w : World) : Prop where
  read : ∀ h raw, l.read = some (h, raw) → get w.redis.session w.clock h = some raw
  members : ∀ f hashes, l.members = some (f, hashes) → members w.redis.family w.clock f = hashes

variable {w : World}

namespace InSync

theorem blank : InSync .blank w := ⟨nofun, nofun⟩

/-- Only a block changes the store, and a call forgets its readings when it sends one. -/
theorem step (h : InSync l w) (o : Op) : InSync (note l o (act o w).1) (act o w).2 := by
  cases o with
  | hgetall =>
    refine ⟨fun h' raw hr => ?_, h.members⟩
    obtain ⟨raw', hget, ⟨⟩⟩ := Option.map_eq_some_iff.mp hr
    exact hget
  | smembers =>
    refine ⟨h.read, fun f' hashes hm => ?_⟩
    cases hm
    rfl
  | exec p => cases p <;> exact ⟨nofun, nofun⟩
  | _ => exact ⟨h.read, h.members⟩

/-- A block computed from readings that are in step with the store is current. -/
theorem current (h : InSync l w) (hok : Grounded l o) : current o w = true := by
  cases o with
  | exec p =>
    cases p with
    | rotateSession old =>
      obtain ⟨-, r, hread, -⟩ := hok
      exact Option.isSome_of_mem (h.read old r hread)
    | killFamily f hashes =>
      have hm := h.members f hashes hok
      simp only [Auth.current, hm, List.all_eq_true, decide_eq_true_eq]
      exact fun _ hmem => hmem
    | _ => rfl
  | _ => rfl

end InSync

section Alone

variable {α : Type} {p : Prog α} {post : Notes → α → Prop}

variable (hp : Obeys rules (ServiceOk cfg) post p .blank)

include hp

/-- **Invariants of a method on its own**, with the sets and the records in agreement. -/
theorem alone_invariant {R : Notes → World → Prop}
    (hstep : ∀ l w o, ServiceOk cfg l o → current o w = true → Coherent (solo l) w → R l w →
      R (note l o (act o w).1) (act o w).2) (hw : Coherent (solo .blank) w) (hR : R .blank w) :
    ∃ l, Coherent (solo l) (alone p w).2 ∧ R l (alone p w).2 ∧ post l (alone p w).1 := by
  have hone : ∀ l w o, ServiceOk cfg l o → (Coherent (solo l) w ∧ InSync l w ∧ R l w) →
      Coherent (solo (note l o (act o w).1)) (act o w).2 ∧
        InSync (note l o (act o w).1) (act o w).2 ∧ R (note l o (act o w).1) (act o w).2 := by
    rintro l w o hok ⟨hw, hsync, hR⟩
    have hcur := hsync.current hok.1
    have hnext := hw.step (by rw [solo_zero]; exact hok.1) hcur
    rw [solo_zero, update_solo] at hnext
    exact ⟨hnext, hsync.step o, hstep l w o hok hcur hw hR⟩
  have hall := eval_invariant hone hp ⟨hw, .blank, hR⟩
  exact ⟨_, hall.1.1, hall.1.2.2, hall.2⟩

theorem coherent_alone (hw : Coherent (solo .blank) w) : Coherent (solo .blank) (alone p w).2 := by
  obtain ⟨l, hl, -⟩ := alone_invariant (R := fun _ _ => True) hp (fun _ _ _ _ _ _ _ => trivial) hw
    trivial
  exact hl.restart solo_blank

end Alone

/-- **After every sequence of requests the sets and the records agree.** -/
theorem coherent_run (cfg : Settings) (rs : List Request) (h : Coherent (solo .blank) s.world) :
    Coherent (solo .blank) (s.run cfg rs).world := by
  induction rs generalizing s with
  | nil => exact h
  | cons r rs ih =>
    exact ih (serve_invariant (fun _ _ hp _ => coherent_alone hp)
      (fun _ _ _ hw => hw.database _) (fun _ d hw => hw.tick d) h r)

theorem coherent_initial (clock : Time) (users : Uuid → Option User) (admins : Uuid → Bool) :
    Coherent (solo .blank) (Site.initial clock users admins).world :=
  .initial solo_blank clock users admins

/-- **Sessions are found through their family**, whatever has been asked: each live one is in the
set of its family, which lives as long, and is the only live one of the family. -/
theorem sessions_indexed (cfg : Settings) (clock : Time) (users : Uuid → Option User)
    (admins : Uuid → Bool) (rs : List Request) :
    let w := ((Site.initial clock users admins).run cfg rs).world
    Indexed w.redis w.clock :=
  (coherent_run cfg rs (coherent_initial clock users admins)).indexed

end Smap.Auth
