import Smap.Auth.Custody

/-!
# How often a refresh token is consumed

`rotate_session` reads the record of the token it is given and sends its block some
operations later.  The block deletes the record without looking whether it is still there,
so two calls that have both read it both go through.  Where each rotation of the token
still finds its record when its block is executed, the token is consumed at most once:
after the first rotation the token is nowhere any more, and stays so.
-/

namespace Smap.Auth

open Program Expiring Function

/-- A block that rotates the token finds its record. -/
def rotatesStored (t : RefreshToken) : Op → World → Bool
  | .exec (.rotateSession old _ _ _), w =>
    decide (old = hashRefresh t → (get w.redis.session w.clock old).isSome = true)
  | _, _ => true

/-- The call has returned a new refresh token. -/
def returnsToken (p : Calls) (i : ℕ) : Bool :=
  match replyOf p i with
  | some (.rotated _ _ _) => true
  | _ => false

variable {o : Op} {w : World}

section Notes

variable {l : Notes}

theorem rotated_note (l : Notes) (o : Op) (w : World) :
    (note l o (act o w).1).rotated = l.rotated ∨
      ∃ old new raw ttl, o = .exec (.rotateSession old new raw ttl) ∧
        (note l o (act o w).1).rotated = some old := by
  cases o with
  | exec p =>
    cases p with
    | rotateSession old new raw ttl => exact .inr ⟨old, new, raw, ttl, rfl, rfl⟩
    | _ => exact .inl rfl
  | _ => exact .inl rfl

theorem reply_note {r : Reply} (hr : (note l o (act o w).1).reply = some r) :
    l.reply = some r ∨ o = .reply r := by
  cases o with
  | exec p => cases p <;> exact .inl hr
  | reply => exact .inr (congrArg Op.reply (Option.some.inj hr))
  | _ => exact .inl hr

end Notes

/-- A call that has returned a new token has rotated the one it was given; a token that has
been rotated is gone, and has been rotated by one call only. -/
structure Consumed (t : RefreshToken) (calls : List Call) (N : ℕ → Notes) (w : World) :
    Prop where
  sound : Sound N w
  gone : ∀ i, (N i).rotated = some (hashRefresh t) → Nowhere N w t.id
  once : ∀ i j, (N i).rotated = some (hashRefresh t) → (N j).rotated = some (hashRefresh t) →
    i = j
  replied : ∀ i token record old, (N i).reply = some (.rotated token record old) →
    ∃ t' u, calls[i]? = some (.rotateSession t' u) ∧ (N i).rotated = some (hashRefresh t')

namespace Consumed

variable {t : RefreshToken} {calls : List Call} {N : ℕ → Notes} {i : ℕ} {c : Call}

/-- A rotation of the stored token takes it out of the world. -/
theorem nowhere_of_rotation (hs : Sound N w) {new : RefreshHash} {raw : RawRecord} {ttl : ℕ}
    (hok : Grounded (N i) (.exec (.rotateSession (hashRefresh t) new raw ttl)))
    {e : Entry RawRecord} (he : w.redis.session (hashRefresh t) = some e) :
    Nowhere (update N i (note (N i) (.exec (.rotateSession (hashRefresh t) new raw ttl)) ()))
      (act (.exec (.rotateSession (hashRefresh t) new raw ttl)) w).2 t.id := by
  obtain ⟨hdrawn, hfree⟩ := hs.stored he
  refine ⟨hdrawn, fun y hy => ?_⟩
  obtain ⟨x, hx, rfl⟩ | ⟨ho, -⟩ := at_step hok hy
  · -- it was in the store and nowhere else, and its key is now free
    obtain rfl := hs.ledger.unique t.id x none hx ⟨e, he⟩
    obtain ⟨e', he'⟩ := hy
    have hne : hashRefresh t ≠ new := by
      rintro rfl
      exact hfree i hok.1
    have hnone := session_rotated (t := w.clock) (s := w.redis) hne raw ttl
    exact nomatch hnone.symm.trans he'
  · cases ho

theorem step (hc : calls[i]? = some c) (hok : c.Ok (N i) o) (hcond : rotatesStored t o w = true)
    (h : Consumed t calls N w) :
    Consumed t calls (update N i (note (N i) o (act o w).1)) (act o w).2 := by
  -- a rotation of the token is either an earlier one or this operation
  have hcases : ∀ j, (update N i (note (N i) o (act o w).1) j).rotated =
      some (hashRefresh t) → (N j).rotated = some (hashRefresh t) ∨
        j = i ∧ ∃ new raw ttl, o = .exec (.rotateSession (hashRefresh t) new raw ttl) := by
    refine fun j => update_elim (fun hi => ?_) fun _ _ => .inl
    obtain hold | ⟨old, new, raw, ttl, ho, hnew⟩ := rotated_note (N i) o w
    · exact .inl (hold.symm.trans hi)
    · cases hnew.symm.trans hi
      exact .inr ⟨rfl, new, raw, ttl, ho⟩
  -- this operation finds the record, so nobody has rotated the token before
  have hfirst : ∀ new raw ttl, o = .exec (.rotateSession (hashRefresh t) new raw ttl) →
      (∃ e, w.redis.session (hashRefresh t) = some e) ∧
        ∀ j, (N j).rotated ≠ some (hashRefresh t) := by
    rintro new raw ttl rfl
    have hlive : (get w.redis.session w.clock (hashRefresh t)).isSome = true :=
      of_decide_eq_true hcond rfl
    obtain ⟨v, hv⟩ := Option.isSome_iff_exists.mp hlive
    obtain ⟨d, hd, -⟩ := get_eq_some.mp hv
    exact ⟨⟨_, hd⟩, fun j hj => (h.gone j hj).2 none ⟨_, hd⟩⟩
  refine ⟨h.sound.step hok.1, fun j hj => ?_, fun j k hj hk => ?_, fun j token record old hj => ?_⟩
  · obtain hold | ⟨-, new, raw, ttl, rfl⟩ := hcases j hj
    · exact nowhere_step hok.1 (h.gone j hold)
    · obtain ⟨⟨e, he⟩, -⟩ := hfirst new raw ttl rfl
      exact nowhere_of_rotation h.sound hok.1 he
  · obtain hj | ⟨rfl, new, raw, ttl, ho⟩ := hcases j hj
    · obtain hk | ⟨-, new, raw, ttl, ho⟩ := hcases k hk
      · exact h.once j k hj hk
      · exact absurd hj ((hfirst new raw ttl ho).2 j)
    · obtain hk | ⟨rfl, -⟩ := hcases k hk
      · exact absurd hk ((hfirst new raw ttl ho).2 k)
      · rfl
  · by_cases hji : j = i
    · subst hji
      rw [update_self] at hj ⊢
      obtain hold | rfl := reply_note hj
      · obtain ⟨t', u, hcall, hrot⟩ := h.replied j token record old hold
        refine ⟨t', u, hcall, ?_⟩
        obtain hsame | ⟨old', new, raw, ttl, rfl, hnew⟩ := rotated_note (N j) o w
        · exact hsame.trans hrot
        · obtain ⟨t'', u', rfl, rfl⟩ := hok.2
          rw [hc, Option.some.injEq, Call.rotateSession.injEq] at hcall
          rw [hnew, hcall.1]
      · obtain ⟨t', u, rfl, hrot⟩ := hok.2
        exact ⟨t', u, hc, hrot⟩
    · rw [update_of_ne hji] at hj ⊢
      exact h.replied j token record old hj

theorem of_blank (hblank : ∀ i, N i = .blank)
    (hbelow : ∀ h e, w.redis.session h = some e → h.token.id < w.tokens) :
    Consumed t calls N w := by
  refine ⟨.of_blank hblank hbelow, ?_, ?_, ?_⟩
  all_goals
    intros
    simp_all [Notes.blank]

end Consumed

/-- **A refresh token is consumed at most once**, if each block that rotates it still finds
its record: of all calls of `rotate_session` that present it, among any other calls and in
any interleaving, at most one returns a new token. -/
theorem token_consumed_at_most_once (cfg : Settings) (clock : Time)
    (users : Uuid → Option User) (admins : Uuid → Bool) (calls : List Call) (t : RefreshToken)
    {ms : List (Move Unit Time)} {p : Calls}
    (hall : AllSteps machine (atOps fun o w => rotatesStored t o w = true) ms
      (start cfg (.initial clock users admins) calls))
    (hrun : run machine ms (start cfg (.initial clock users admins) calls) = some p)
    {i j : ℕ} {u v : Uuid} (hi : calls[i]? = some (.rotateSession t u))
    (hj : calls[j]? = some (.rotateSession t v)) (hri : returnsToken p i = true)
    (hrj : returnsToken p j = true) : i = j := by
  have hinv : Consumed t calls (notesOf p) p.world := (total_invariant
    (fun N w i o hok hcond h => by
      obtain ⟨c, hc, hok⟩ := hok
      exact h.step hc hok hcond)
    (fun N w d h => ⟨h.sound.tick d, h.gone, h.once, h.replied⟩) hall
    (obeyed_start cfg _ calls) (Consumed.of_blank (notesOf_start cfg _ calls) nofun) hrun).2
  have hrotated : ∀ k u, calls[k]? = some (.rotateSession t u) → returnsToken p k = true →
      (notesOf p k).rotated = some (hashRefresh t) := by
    intro k u hk hret
    unfold returnsToken replyOf at hret
    split at hret
    · rename_i token record old hreply
      obtain ⟨t', u', hcall, hrot⟩ := hinv.replied k token record old hreply
      rw [hk, Option.some.injEq, Call.rotateSession.injEq] at hcall
      rw [hrot, hcall.1]
    · cases hret
  exact hinv.once i j (hrotated i u hi hri) (hrotated j v hj hrj)

/-- No account, at the beginning of time. -/
def nobody : World := .initial 0 (fun _ => none) (fun _ => false)

/-- A session is created, and its refresh token presented twice. -/
def presentedTwice : List Call :=
  [.createSession 1 2 none, .rotateSession ⟨0⟩ 10, .rotateSession ⟨0⟩ 11]

/-- The session is created; the one rotation follows the other. -/
def inTurn : List (Move Unit Time) :=
  .replicate 6 (.step 0 ()) ++ .replicate 8 (.step 1 ()) ++ .replicate 5 (.step 2 ())

/-- The token is rotated once, and the second call gets no new one. -/
theorem second_rotation_refused :
    ∃ p, run machine inTurn (start .default nobody presentedTwice) = some p ∧
      returnsToken p 1 = true ∧ returnsToken p 2 = false := by
  obtain ⟨p, hp, hfirst⟩ : ∃ p ∈ run machine inTurn (start .default nobody presentedTwice),
      returnsToken p 1 = true := by
    decide +kernel
  have hsteps : checkSteps machine (checkOps (rotatesStored ⟨0⟩)) inTurn
      (start .default nobody presentedTwice) = true := by decide +kernel
  refine ⟨p, hp, hfirst, Bool.eq_false_iff.mpr fun hsecond => ?_⟩
  have hone := token_consumed_at_most_once .default 0 (fun _ => none) (fun _ => false)
    presentedTwice ⟨0⟩ (allSteps_of_checkSteps (atOps_of_checkOps fun _ _ h => h) _ _ hsteps) hp
    rfl rfl hfirst hsecond
  cases hone

/-- Both calls read the record before either has sent its block: each returns a new
refresh token. -/
theorem token_consumed_twice :
    ∃ ms p, run machine ms (start .default nobody presentedTwice) = some p ∧
      returnsToken p 1 = true ∧ returnsToken p 2 = true := by
  refine ⟨.replicate 6 (.step 0 ()) ++ [.step 1 (), .step 2 ()] ++
    .replicate 7 (.step 1 ()) ++ .replicate 7 (.step 2 ()), ?_⟩
  decide +kernel

end Smap.Auth
