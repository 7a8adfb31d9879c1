import Smap.Lib.Tokens
import Smap.Auth.Tokens

/-!
# Where refresh tokens are

A random token is drawn by a call, stored once as the key of a session record, and at some
point deleted.  In every interleaving it is in at most one place: in the hands of the call
that has drawn it, or in the store.  From this follows what the calls rely on:

* a token that is nowhere any more stays nowhere (`nowhere_step`), so a session that has
  been rotated away or killed does not come back;
* a record that was read is still the one under its key, if there is one at all
  (`Sound.reads`).
-/

namespace Smap.Auth

open Program Expiring Function

/-! ## What an operation does to the session records -/

variable {t : Time} {s : SessionStore}

/-- A block adds at most the record it is named after. -/
theorem session_run {p : Pipeline} {h : RefreshHash} {e : Entry RawRecord}
    (he : (p.run t s).session h = some e) : s.session h = some e ∨
      (∃ raw ttl, p = .writeSession h raw ttl ∧ e = ⟨raw, some (t + ttl * second)⟩) ∨
      ∃ old raw ttl, p = .rotateSession old h raw ttl ∧ e = ⟨raw, some (t + ttl * second)⟩ := by
  cases p with
  | writeSession k raw ttl =>
    simp only [run_writeSession] at he
    by_cases hk : h = k
    · subst hk
      rw [put_self, Option.some.injEq] at he
      exact .inr (.inl ⟨raw, ttl, rfl, he.symm⟩)
    · exact .inl (by rwa [put_of_ne hk] at he)
  | rotateSession old new raw ttl =>
    simp only [run_rotateSession] at he
    by_cases hk : h = new
    · subst hk
      rw [put_self, Option.some.injEq] at he
      exact .inr (.inr ⟨old, raw, ttl, rfl, he.symm⟩)
    · rw [put_of_ne hk] at he
      exact .inl (eq_some_of_del he).2
  | revokeSession =>
    exact .inl (eq_some_of_del he).2
  | killFamily f hashes =>
    simp only [run_killFamily] at he
    by_cases hk : h ∈ hashes
    · simp [delAll_of_mem hk] at he
    · exact .inl (by rwa [delAll_of_not_mem hk] at he)
  | deleteSession =>
    exact .inl (eq_some_of_del he).2
  | denyJti => exact .inl he

/-- Only a block touches the session records. -/
theorem session_act {o : Op} (ho : ∀ p, o ≠ .exec p) (w : World) : (act o w).2.redis = w.redis := by
  cases o with
  | exec p => exact absurd rfl (ho p)
  | _ => rfl

/-- A rotation leaves nothing under the key it started from. -/
theorem session_rotated {old new : RefreshHash} (hne : old ≠ new) (raw : RawRecord) (ttl : ℕ) :
    ((Pipeline.rotateSession old new raw ttl).run t s).session old = none := by
  simp only [run_rotateSession]
  rw [put_of_ne hne, del_self]

/-! ## One place for each token -/

/-- Token `q` is in the hands of a call, or the key of a stored record. -/
def At (N : ℕ → Notes) (w : World) (q : ℕ) : Option ℕ → Prop
  | some i => (N i).token = some q
  | none => ∃ e, w.redis.session ⟨⟨q⟩⟩ = some e

/-- A call that stores a session hands its token over to the store. -/
def handsOver (i : ℕ) : Op → Option ℕ → Option ℕ
  | .exec (.writeSession _ _ _), x => if x = some i then none else x
  | .exec (.rotateSession _ _ _ _), x => if x = some i then none else x
  | _, x => x

variable {N : ℕ → Notes} {w : World} {i : ℕ} {o : Op}

section Step

variable {q : ℕ}

/-- What a call holds after an operation it held before, or has just drawn. -/
theorem token_note {l : Notes} (h : (note l o (act o w).1).token = some q) :
    (l.token = some q ∧ handsOver i o (some i) = some i) ∨ o = .tokenUrlsafe ∧ q = w.tokens := by
  cases o with
  | tokenUrlsafe => exact .inr ⟨rfl, (Option.some.inj h).symm⟩
  | exec p =>
    cases p with
    | writeSession | rotateSession => cases h
    | _ => exact .inl ⟨h, rfl⟩
  | _ => exact .inl ⟨h, rfl⟩

theorem handsOver_none : handsOver i o none = none := by
  unfold handsOver
  split <;> rfl

theorem handsOver_of_ne {j : ℕ} (h : j ≠ i) : handsOver i o (some j) = some j := by
  unfold handsOver
  split <;> simp [h]

variable (hok : Grounded (N i) o)

include hok

/-- **Where a token can be after an operation**: where it was, in the store if its call has
handed it over, or in the hands of the call that has just drawn it. -/
theorem at_step {y : Option ℕ} (h : At (update N i (note (N i) o (act o w).1)) (act o w).2 q y) :
    (∃ x, At N w q x ∧ handsOver i o x = y) ∨ o = .tokenUrlsafe ∧ q = w.tokens ∧ y = some i := by
  cases y with
  | some j =>
    by_cases hj : j = i
    · subst hj
      simp only [At, update_self] at h
      obtain ⟨hheld, hstays⟩ | ⟨ho, hq⟩ := token_note h
      · exact .inl ⟨some j, hheld, hstays⟩
      · exact .inr ⟨ho, hq, rfl⟩
    · simp only [At, update_of_ne hj] at h
      exact .inl ⟨some j, h, handsOver_of_ne hj⟩
  | none =>
    obtain ⟨e, he⟩ := h
    by_cases hexec : ∃ p, o = .exec p
    · obtain ⟨p, rfl⟩ := hexec
      obtain hwas | ⟨raw, ttl, rfl, -⟩ | ⟨old, raw, ttl, rfl, -⟩ := session_run he
      · exact .inl ⟨none, ⟨e, hwas⟩, handsOver_none⟩
      · exact .inl ⟨some i, hok.1, if_pos rfl⟩
      · exact .inl ⟨some i, hok.1, if_pos rfl⟩
    · rw [session_act (not_exists.mp hexec)] at he
      exact .inl ⟨none, ⟨e, he⟩, handsOver_none⟩

omit hok in
theorem tokens_le_act (o : Op) (w : World) : w.tokens ≤ (act o w).2.tokens := by
  cases o with
  | tokenUrlsafe => exact Nat.le_succ _
  | _ => exact Nat.le_refl _

/-- The token has been drawn and is nowhere any more. -/
def Nowhere (N : ℕ → Notes) (w : World) (q : ℕ) : Prop :=
  q < w.tokens ∧ ∀ x, ¬ At N w q x

/-- What is gone stays gone. -/
theorem nowhere_step (h : Nowhere N w q) :
    Nowhere (update N i (note (N i) o (act o w).1)) (act o w).2 q := by
  refine ⟨Nat.lt_of_lt_of_le h.1 (tokens_le_act o w), fun y hy => ?_⟩
  obtain ⟨x, hx, -⟩ | ⟨-, rfl, -⟩ := at_step hok hy
  · exact h.2 x hx
  · exact absurd h.1 (Nat.lt_irrefl _)

open Smap.Tokens in
/-- Each token is in at most one place. -/
theorem ledger_step (h : Ledger (At N w) w.tokens) :
    Ledger (At (update N i (note (N i) o (act o w).1)) (act o w).2) (act o w).2.tokens := by
  by_cases ho : o = .tokenUrlsafe
  · subst ho
    refine h.mint (some i) fun q y hy => ?_
    obtain ⟨x, hx, rfl⟩ | ⟨-, hq, hy⟩ := at_step hok hy
    · exact .inl hx
    · exact .inr ⟨hq, hy⟩
  · have htokens : (act o w).2.tokens = w.tokens := by
      cases o with
      | tokenUrlsafe => exact absurd rfl ho
      | _ => rfl
    rw [htokens]
    refine h.move (handsOver i o) fun q y hy => ?_
    obtain hx | ⟨hdraw, -⟩ := at_step hok hy
    · exact hx
    · exact absurd hdraw ho

end Step

/-! ## The invariant -/

/-- Each token is in one place, and a record that was read is still the one under its
key, if any is. -/
structure Sound (N : ℕ → Notes) (w : World) : Prop where
  ledger : Smap.Tokens.Ledger (At N w) w.tokens
  drawn : ∀ i h raw, (N i).read = some (h, raw) → h.token.id < w.tokens
  unheld : ∀ i j h raw, (N i).read = some (h, raw) → (N j).token ≠ some h.token.id
  reads : ∀ i h raw e, (N i).read = some (h, raw) → w.redis.session h = some e → e.value = raw

namespace Sound

variable {h : RefreshHash} {raw : RawRecord} {e : Entry RawRecord}

/-- A record that is noted as read was noted before, or is in the store. -/
theorem read_note {l : Notes} (hr : (note l o (act o w).1).read = some (h, raw)) :
    (l.read = some (h, raw) ∧ ∀ p, o ≠ .exec p) ∨
      o = .hgetall h ∧ get w.redis.session w.clock h = some raw := by
  cases o with
  | hgetall =>
    obtain ⟨raw', hget, ⟨⟩⟩ := Option.map_eq_some_iff.mp hr
    exact .inr ⟨rfl, hget⟩
  | exec p => cases p <;> cases hr
  | _ => exact .inl ⟨hr, fun _ => nofun⟩

/-- The key of a stored record has been drawn, and no call holds it. -/
theorem stored (hs : Sound N w) (he : w.redis.session h = some e) :
    h.token.id < w.tokens ∧ ∀ j, (N j).token ≠ some h.token.id := by
  have hat : At N w h.token.id none := ⟨e, he⟩
  exact ⟨hs.ledger.below _ _ hat, fun j hj => nomatch hs.ledger.unique _ none (some j) hat hj⟩

variable (hok : Grounded (N i) o)

include hok

/-- A key that is drawn and not held does not come into the hands of a call. -/
theorem unheld_step {q : ℕ} (hdrawn : q < w.tokens) (hfree : ∀ j, (N j).token ≠ some q) (k : ℕ) :
    (update N i (note (N i) o (act o w).1) k).token ≠ some q := by
  intro hk
  have hat : At (update N i (note (N i) o (act o w).1)) (act o w).2 q (some k) := hk
  obtain ⟨x, hx, hxk⟩ | ⟨-, rfl, -⟩ := at_step hok hat
  · cases x with
    | none =>
      simp [handsOver_none] at hxk
    | some j => exact hfree j hx
  · exact absurd hdrawn (Nat.lt_irrefl _)

/-- A key that no call holds gets no new record. -/
theorem session_of_unheld (hfree : (N i).token ≠ some h.token.id)
    (he : (act o w).2.redis.session h = some e) : w.redis.session h = some e := by
  by_cases hexec : ∃ p, o = .exec p
  · obtain ⟨p, rfl⟩ := hexec
    obtain hwas | ⟨raw, ttl, rfl, -⟩ | ⟨old, raw, ttl, rfl, -⟩ := session_run he
    · exact hwas
    · exact absurd hok.1 hfree
    · exact absurd hok.1 hfree
  · rwa [session_act (not_exists.mp hexec)] at he

omit hok in
/-- What is known of a record that was read, of any one call. -/
theorem read_step (hs : Sound N w) {j : ℕ}
    (hr : (update N i (note (N i) o (act o w).1) j).read = some (h, raw)) :
    h.token.id < w.tokens ∧ (∀ k, (N k).token ≠ some h.token.id) ∧
      ∀ e, w.redis.session h = some e → e.value = raw := by
  have hold : (N j).read = some (h, raw) ∨ get w.redis.session w.clock h = some raw := by
    revert hr
    refine update_elim (fun hr => ?_) fun _ _ => .inl
    obtain ⟨hr, -⟩ | ⟨-, hget⟩ := read_note hr
    · exact .inl hr
    · exact .inr hget
  obtain hold | hget := hold
  · exact ⟨hs.drawn j h raw hold, fun k => hs.unheld j k h raw hold,
      fun e he => hs.reads j h raw e hold he⟩
  · obtain ⟨d, hd, -⟩ := get_eq_some.mp hget
    obtain ⟨hdrawn, hfree⟩ := hs.stored hd
    refine ⟨hdrawn, hfree, fun e he => ?_⟩
    rw [hd, Option.some.injEq] at he
    rw [← he]

/-- **An operation of any call keeps the invariant.** -/
theorem step (hs : Sound N w) : Sound (update N i (note (N i) o (act o w).1)) (act o w).2 where
  ledger := ledger_step hok hs.ledger
  drawn j h raw hr :=
    Nat.lt_of_lt_of_le (read_step hs hr).1 (tokens_le_act o w)
  unheld j k h raw hr := by
    obtain ⟨hdrawn, hfree, -⟩ := read_step hs hr
    exact unheld_step hok hdrawn hfree k
  reads j h raw e hr he := by
    obtain ⟨-, hfree, hsame⟩ := read_step hs hr
    exact hsame e (session_of_unheld hok (hfree i) he)

omit hok in
theorem tick (hs : Sound N w) (d : Time) : Sound N (tick d w) :=
  ⟨hs.ledger, hs.drawn, hs.unheld, hs.reads⟩

omit hok in
/-- Calls that have noted nothing, on a store where each token is in one place. -/
theorem of_blank (hblank : ∀ i, N i = .blank)
    (hbelow : ∀ h e, w.redis.session h = some e → h.token.id < w.tokens) : Sound N w := by
  have hstore : ∀ q x, At N w q x → x = none ∧ q < w.tokens := by
    rintro q (_ | i) hx
    · obtain ⟨e, he⟩ := hx
      exact ⟨rfl, hbelow _ e he⟩
    · simp only [At, hblank] at hx
      cases hx
  have hread : ∀ i, (N i).read = none := fun i => by rw [hblank]; rfl
  refine ⟨⟨fun q x y hx hy => ?_, fun q x hx => (hstore q x hx).2⟩, ?_, ?_, ?_⟩
  · rw [(hstore q x hx).1, (hstore q y hy).1]
  all_goals
    intros
    simp_all

end Sound

end Smap.Auth
