import Smap.Auth.Rotation
import Smap.Auth.Serving

/-!
# Reuse of a consumed refresh token

The token module kills the family of a refresh token that is presented again: where the
record of the token is gone, `rotate_session` looks the family up in the index that
outlives rotations, and kills it (`rotateSession_kills_family`).

`AuthService.refresh` does not get there.  It reads the record first, to sign the new
access token, and refuses a token without a record before it calls `rotate_session`.  A
consumed token has no record any more, so its replay is refused with nothing changed, and
the family is dead afterwards exactly if it was dead before.
-/

namespace Smap.Auth

open Program Expiring AuthService

/-! ## Consumed tokens are gone -/

variable {cfg : Settings} {w : World}

section Spent

variable {q : ℕ}

theorem Nowhere.forget {N N' : ℕ → Notes} (h : Nowhere N w q) (hblank : ∀ i, N' i = .blank) :
    Nowhere N' w q := by
  refine ⟨h.1, ?_⟩
  rintro (_ | i) hx
  · exact h.2 none hx
  · simp only [At, hblank] at hx
    cases hx

/-- A token that is gone stays gone. -/
theorem nowhere_alone {α : Type} {p : Prog α} {post : Notes → α → Prop}
    (hp : Obeys rules (ServiceOk cfg) post p .blank) (hw : Coherent (solo .blank) w)
    (h : Nowhere (solo .blank) w q) : Nowhere (solo .blank) (alone p w).2 q := by
  obtain ⟨l, -, hl, -⟩ := alone_invariant (R := fun l w => Nowhere (solo l) w q)
    hp (fun l w o hok _ _ hl => by
      have hnext := nowhere_step (by rw [solo_zero]; exact hok.1) hl
      rwa [solo_zero, update_solo] at hnext) hw h
  exact hl.forget solo_blank

/-- A refresh that succeeds consumes the token it was given. -/
theorem nowhere_of_refresh (cfg : Settings) {t : RefreshToken} (hw : Coherent (solo .blank) w)
    (hok : (alone (refresh cfg t) w).1.isOk = true) :
    Nowhere (solo .blank) (alone (refresh cfg t) w).2 t.id := by
  obtain ⟨l, -, hl, hpost⟩ := alone_invariant
    (R := fun l w => l.rotated = some (hashRefresh t) → Nowhere (solo l) w t.id)
    (obeys_refresh cfg t)
    (fun l w o hok hcur hw hl => by
      intro hr
      obtain hsame | ⟨old, new, raw, ttl, rfl, hnew⟩ := rotated_note l o w
      · have hnext := nowhere_step (by rw [solo_zero]; exact hok.1) (hl (hsame.symm.trans hr))
        rwa [solo_zero, update_solo] at hnext
      · cases hnew.symm.trans hr
        obtain ⟨v, hv⟩ := Option.isSome_iff_exists.mp hcur
        obtain ⟨d, hd, -⟩ := get_eq_some.mp hv
        have hgone := Consumed.nowhere_of_rotation hw.sound (by rw [solo_zero]; exact hok.1) hd
        rwa [solo_zero, update_solo] at hgone) hw nofun
  exact (hl (hpost hok)).forget solo_blank

end Spent

/-- The refresh tokens that requests have consumed are gone. -/
structure Site.Consumed (s : Site) : Prop where
  coherent : Coherent (solo .blank) s.world
  gone : ∀ t ∈ s.consumed, Nowhere (solo .blank) s.world t.id

namespace Site.Consumed

variable {s : Site}

theorem serve (h : s.Consumed) (r : Request) : (s.serve cfg r).Consumed := by
  refine ⟨coherent_run cfg [r] h.coherent, fun t ht => ?_⟩
  -- consumed before, so gone and still gone
  have hold : t ∈ s.consumed → Nowhere (solo .blank) (s.serve cfg r).world t.id := by
    intro hmem
    exact (serve_invariant
      (P := fun w => Coherent (solo .blank) w ∧ Nowhere (solo .blank) w t.id)
      (fun p _ hp w hw => ⟨coherent_alone hp hw.1, nowhere_alone hp hw.1 hw.2⟩)
      (fun w users admins hw => ⟨hw.1.database _, hw.2⟩)
      (fun w d hw => ⟨hw.1.tick d, hw.2⟩) ⟨h.coherent, h.gone t hmem⟩ r).2
  cases r with
  | refresh token =>
    have hnew := nowhere_of_refresh cfg (t := token) h.coherent
    rcases hres : alone (refresh cfg token) s.world with ⟨result, w⟩
    rw [hres] at hnew
    simp only [Site.serve, hres] at ht hold ⊢
    cases result with
    | error => exact hold ht
    | ok =>
      obtain rfl | hmem := List.mem_cons.mp ht
      · exact hnew rfl
      · exact hold hmem
  | _ => exact hold ht

theorem run (h : s.Consumed) (rs : List Request) : (s.run cfg rs).Consumed := by
  induction rs generalizing s with
  | nil => exact h
  | cons r rs ih => exact ih (h.serve r)

theorem initial (clock : Time) (users : Uuid → Option User) (admins : Uuid → Bool) :
    (Site.initial clock users admins).Consumed :=
  ⟨coherent_initial clock users admins, nofun⟩

end Site.Consumed

/-! ## Replay -/

section Replay

variable {t : RefreshToken}

/-- `refresh` refuses a token that has no record, and changes nothing. -/
theorem refresh_of_no_record (cfg : Settings) (h : w.redis.session (hashRefresh t) = none) :
    alone (refresh cfg t) w =
      (.error (.tokenInvalid "refresh token not recognised"), w) := by
  have hget : get w.redis.session w.clock (hashRefresh t) = none := get_of_eq_none h
  simp [alone, refresh, getRecord, hget]

end Replay

/-- **The replay of a consumed refresh token does not kill its family.**  After any sequence
of requests, if a token that a successful refresh has consumed is presented to `refresh`
again while the index still knows its family, no session of the family is live afterwards
exactly if none was live before. -/
theorem replay_kills_family_iff (cfg : Settings) (clock : Time) (users : Uuid → Option User)
    (admins : Uuid → Bool) (rs : List Request) (t : RefreshToken)
    (ht : t ∈ ((Site.initial clock users admins).run cfg rs).consumed) :
    let s := (Site.initial clock users admins).run cfg rs
    ∀ f, get s.world.redis.hashFamily s.world.clock (hashRefresh t) = some f →
      (Dead f (s.serve cfg (.refresh t)).world ↔ Dead f s.world) := by
  intro s f _
  have hs : s.Consumed := Site.Consumed.run (.initial clock users admins) rs
  have hnone : s.world.redis.session (hashRefresh t) = none := by
    refine Option.eq_none_iff_forall_ne_some.mpr fun e he => ?_
    exact (hs.gone t ht).2 none ⟨e, he⟩
  simp only [Site.serve, refresh_of_no_record cfg hnone]

/-- An account that can sign in. -/
def member : User := ⟨7, none, true, .active⟩

/-- The one account of the tests. -/
def accounts (u : Uuid) : Option User := if u = 7 then some member else none

/-- A sign-in, and a refresh with the token it has handed out. -/
def refreshedOnce : Site :=
  (Site.initial 0 accounts fun _ => false).run .default [.signIn member, .refresh ⟨0⟩]

/-- The consumed token is presented again: what becomes of its family. -/
theorem replay_after_refresh :
    ⟨0⟩ ∈ refreshedOnce.consumed ∧
      get refreshedOnce.world.redis.hashFamily refreshedOnce.world.clock ⟨⟨0⟩⟩ = some 2 ∧
    (Dead 2 (refreshedOnce.serve .default (.refresh ⟨0⟩)).world ↔ Dead 2 refreshedOnce.world) := by
  have ht : ⟨0⟩ ∈ refreshedOnce.consumed := by decide +kernel
  have hindex : get refreshedOnce.world.redis.hashFamily refreshedOnce.world.clock ⟨⟨0⟩⟩ =
      some 2 := by decide +kernel
  exact ⟨ht, hindex, replay_kills_family_iff .default 0 accounts (fun _ => false)
    [.signIn member, .refresh ⟨0⟩] ⟨0⟩ ht 2 hindex⟩

/-- After the replay the session of the newer token is live. -/
theorem replay_leaves_family_alive :
    ⟨0⟩ ∈ refreshedOnce.consumed ∧
      get refreshedOnce.world.redis.hashFamily refreshedOnce.world.clock ⟨⟨0⟩⟩ = some 2 ∧
      LiveIn 2 ⟨⟨1⟩⟩ (refreshedOnce.serve .default (.refresh ⟨0⟩)).world := by
  decide +kernel

/-- **A refresh token that was used is refused for good**, whatever has been asked since. -/
theorem consumed_token_refused (cfg : Settings) (clock : Time) (users : Uuid → Option User)
    (admins : Uuid → Bool) (rs : List Request) :
    let s := (Site.initial clock users admins).run cfg rs
    ∀ t ∈ s.consumed, (alone (refresh cfg t) s.world).1 =
      .error (.tokenInvalid "refresh token not recognised") := by
  intro s t ht
  have hgone := (Site.Consumed.run (.initial clock users admins) rs).gone t ht
  rw [refresh_of_no_record]
  exact Option.eq_none_iff_forall_ne_some.mpr fun e he => hgone.2 none ⟨e, he⟩

theorem first_token_refused :
    (alone (refresh .default ⟨0⟩) refreshedOnce.world).1 =
      .error (.tokenInvalid "refresh token not recognised") :=
  consumed_token_refused .default 0 accounts (fun _ => false) _ ⟨0⟩ (by decide +kernel)

end Smap.Auth
