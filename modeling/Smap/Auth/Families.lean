import Smap.Auth.Custody

/-!
# Families of sessions

The set `session_family:` is how `kill_family` finds the sessions it deletes.  It is an
index beside the records, and it is right only as long as every block acts on readings
that still hold: a rotation on a record that is still there, a kill on a set that has not
grown since (`current`).  Under this condition every live session is in the set of its
family, the set lives at least as long as the session, and there is one live session in a
family (`Coherent`); a family that has been killed is dead from then on.

Without it a rotation that comes between the reading and the block of `kill_family`, or
that has read its record before and sends its block after, leaves a live session behind.
-/

namespace Smap.Auth

open Program Expiring Function Option

/-- The readings a block was computed from still hold: the record that is rotated is
stored, and a family that is killed has no member the block does not name. -/
def current : Op → World → Bool
  | .exec (.rotateSession old _ _ _), w => (get w.redis.session w.clock old).isSome
  | .exec (.killFamily f hashes), w =>
    (members w.redis.family w.clock f).all fun h => decide (h ∈ hashes)
  | _, _ => true

/-- The session under a key is live and in the family. -/
def LiveIn (f : Uuid) (h : RefreshHash) (w : World) : Prop :=
  ∃ raw, get w.redis.session w.clock h = some raw ∧ raw.familyId = f

instance (f : Uuid) (h : RefreshHash) (w : World) : Decidable (LiveIn f h w) :=
  decidable_of_iff ((get w.redis.session w.clock h).any fun raw => decide (raw.familyId = f)) <| by
    simp [LiveIn, any_eq_true]

/-- No session of the family is live. -/
def Dead (f : Uuid) (w : World) : Prop := ∀ h, ¬ LiveIn f h w

/-! ## One place for each family -/

/-- Identifier `f` is in the hands of a call, or the family of a stored record. -/
def FamilyAt (N : ℕ → Notes) (w : World) (f : Uuid) : Option ℕ → Prop
  | some i => (N i).uuid = some f
  | none => ∃ h e, w.redis.session h = some e ∧ e.value.familyId = f

/-- A call that opens a session hands its identifier over to the store. -/
def opensFamily (i : ℕ) : Op → Option ℕ → Option ℕ
  | .exec (.writeSession _ _ _), x => if x = some i then none else x
  | _, x => x

variable {N : ℕ → Notes} {w : World} {i : ℕ} {o : Op}

section Step

theorem uuid_note {l : Notes} {q : Uuid} (h : (note l o (act o w).1).uuid = some q) :
    (l.uuid = some q ∧ opensFamily i o (some i) = some i) ∨ o = .uuid4 ∧ q = w.uuids := by
  cases o with
  | uuid4 => exact .inr ⟨rfl, (some.inj h).symm⟩
  | exec p =>
    cases p with
    | writeSession => cases h
    | _ => exact .inl ⟨h, rfl⟩
  | _ => exact .inl ⟨h, rfl⟩

theorem opensFamily_none : opensFamily i o none = none := by
  unfold opensFamily
  split <;> rfl

theorem opensFamily_of_ne {j : ℕ} (h : j ≠ i) : opensFamily i o (some j) = some j := by
  unfold opensFamily
  split <;> simp [h]

variable (hs : Sound N w)

include hs

/-- The record a current rotation starts from, as its call has read it. -/
theorem stored_of_current {old new : RefreshHash} {raw : RawRecord} {ttl : ℕ}
    (hok : Grounded (N i) (.exec (.rotateSession old new raw ttl)))
    (hcur : current (.exec (.rotateSession old new raw ttl)) w = true) :
    ∃ r, get w.redis.session w.clock old = some r ∧ r.familyId = raw.familyId := by
  obtain ⟨-, r, hread, hfamily⟩ := hok
  obtain ⟨v, hv⟩ := isSome_iff_exists.mp hcur
  obtain ⟨d, hd, -⟩ := get_eq_some.mp hv
  have hval : v = r := hs.reads i old r _ hread hd
  exact ⟨v, hv, by rw [hval, hfamily]⟩

/-- Where an identifier can be after an operation. -/
theorem familyAt_step (hok : Grounded (N i) o) (hcur : current o w = true) {f : Uuid} {y : Option ℕ}
    (h : FamilyAt (update N i (note (N i) o (act o w).1)) (act o w).2 f y) :
    (∃ x, FamilyAt N w f x ∧ opensFamily i o x = y) ∨ o = .uuid4 ∧ f = w.uuids ∧ y = some i := by
  cases y with
  | some j =>
    by_cases hj : j = i
    · subst hj
      simp only [FamilyAt, update_self] at h
      obtain ⟨hheld, hstays⟩ | ⟨ho, hf⟩ := uuid_note h
      · exact .inl ⟨some j, hheld, hstays⟩
      · exact .inr ⟨ho, hf, rfl⟩
    · simp only [FamilyAt, update_of_ne hj] at h
      exact .inl ⟨some j, h, opensFamily_of_ne hj⟩
  | none =>
    obtain ⟨k, e, he, hfam⟩ := h
    by_cases hexec : ∃ p, o = .exec p
    · obtain ⟨p, rfl⟩ := hexec
      obtain hwas | ⟨raw, ttl, rfl, rfl⟩ | ⟨old, raw, ttl, rfl, rfl⟩ := session_run he
      · exact .inl ⟨none, ⟨k, e, hwas, hfam⟩, opensFamily_none⟩
      · subst hfam
        exact .inl ⟨some i, hok.2, if_pos rfl⟩
      · -- the record the rotation starts from is in the same family
        obtain ⟨r, hr, hrf⟩ := stored_of_current hs hok hcur
        obtain ⟨d, hd, -⟩ := get_eq_some.mp hr
        exact .inl ⟨none, ⟨old, _, hd, hrf.trans hfam⟩, rfl⟩
    · rw [session_act (not_exists.mp hexec)] at he
      exact .inl ⟨none, ⟨k, e, he, hfam⟩, opensFamily_none⟩

open Smap.Tokens in
theorem families_step (hok : Grounded (N i) o) (hcur : current o w = true)
    (h : Ledger (FamilyAt N w) w.uuids) :
    Ledger (FamilyAt (update N i (note (N i) o (act o w).1)) (act o w).2) (act o w).2.uuids := by
  by_cases ho : o = .uuid4
  · subst ho
    refine h.mint (some i) fun f y hy => ?_
    obtain ⟨x, hx, rfl⟩ | ⟨-, hf, hy⟩ := familyAt_step hs hok hcur hy
    · exact .inl hx
    · exact .inr ⟨hf, hy⟩
  · have huuids : (act o w).2.uuids = w.uuids := by
      cases o with
      | uuid4 => exact absurd rfl ho
      | _ => rfl
    rw [huuids]
    refine h.move (opensFamily i o) fun f y hy => ?_
    obtain hx | ⟨hdraw, -⟩ := familyAt_step hs hok hcur hy
    · exact hx
    · exact absurd hdraw ho

end Step

/-! ## The sets and the records -/

/-- Every live session is in the set of its family, which lives at least as long, and is
the only one of its family. -/
structure Indexed (s : SessionStore) (t : Time) : Prop where
  listed : ∀ h e, live s.session t h = some e → ∃ m, s.family e.value.familyId = some m ∧
    h ∈ m.value ∧ ∀ t', e.liveAt t' = true → m.liveAt t' = true
  single : ∀ h h' e e', live s.session t h = some e → live s.session t h' = some e' →
    e.value.familyId = e'.value.familyId → h = h'

namespace Indexed

variable {s : SessionStore} {t : Time}

variable (hx : Indexed s t)

include hx

/-- `SMEMBERS` on the family of a live session names it. -/
theorem mem_members {h : RefreshHash} {e : Entry RawRecord} (he : live s.session t h = some e) :
    h ∈ members s.family t e.value.familyId := by
  obtain ⟨m, hm, hmem, hlives⟩ := hx.listed h e he
  have hlive : live s.family t e.value.familyId = some m :=
    live_eq_some.mpr ⟨hm, hlives t (live_eq_some.mp he).2⟩
  rwa [members_of_live hlive]

/-- As time goes by, fewer sessions have to be listed. -/
theorem later {t' : Time} (htt : t ≤ t') : Indexed s t' := by
  have hsub : ∀ h e, live s.session t' h = some e → live s.session t h = some e := by
    intro h e he
    obtain ⟨hmem, hl⟩ := live_eq_some.mp he
    exact live_eq_some.mpr ⟨hmem, Entry.liveAt_mono htt hl⟩
  exact ⟨fun h e he => hx.listed h e (hsub h e he),
    fun h h' e e' he he' => hx.single h h' e e' (hsub h e he) (hsub h' e' he')⟩

variable {s' : SessionStore} {new : RefreshHash} {raw : RawRecord}

/-- Sessions are deleted, and those that are left stay in their sets. -/
theorem shrink (hsub : ∀ h e, s'.session h = some e → s.session h = some e)
    (hsets : ∀ h e m, live s'.session t h = some e → s.family e.value.familyId = some m →
      m.liveAt t = true → h ∈ m.value →
      ∃ m', s'.family e.value.familyId = some m' ∧ h ∈ m'.value ∧ m'.deadline = m.deadline) :
    Indexed s' t := by
  have hlive : ∀ h e, live s'.session t h = some e → live s.session t h = some e := by
    intro h e he
    obtain ⟨hmem, hl⟩ := live_eq_some.mp he
    exact live_eq_some.mpr ⟨hsub h e hmem, hl⟩
  refine ⟨fun h e he => ?_, fun h h' e e' he he' =>
    hx.single h h' e e' (hlive h e he) (hlive h' e' he')⟩
  obtain ⟨m, hm, hmem, hlives⟩ := hx.listed h e (hlive h e he)
  obtain ⟨m', hm', hmem', hdead⟩ := hsets h e m he hm (hlives t (live_eq_some.mp he).2) hmem
  refine ⟨m', hm', hmem', fun t' ht' => ?_⟩
  simpa only [Entry.liveAt, hdead] using hlives t' ht'

/-- A session is stored in a family that has no other. -/
theorem store (kept : Keyspace RefreshHash RawRecord) {ms : List RefreshHash} {d : Time}
    (hsub : ∀ h e, kept h = some e → s.session h = some e)
    (hnone : ∀ h e, live kept t h = some e → e.value.familyId ≠ raw.familyId) (hmem : new ∈ ms)
    (hsession : s'.session = put kept new ⟨raw, some d⟩)
    (hfamily : s'.family = put s.family raw.familyId ⟨ms, some d⟩) : Indexed s' t := by
  -- a live session is the new one, or an old one of another family
  have hcases : ∀ h e, live s'.session t h = some e →
      (h = new ∧ e = ⟨raw, some d⟩) ∨
        live s.session t h = some e ∧ e.value.familyId ≠ raw.familyId := by
    intro h e he
    obtain ⟨hput, hl⟩ := live_eq_some.mp he
    rw [hsession] at hput
    by_cases hh : h = new
    · subst hh
      rw [put_self, some.injEq] at hput
      exact .inl ⟨rfl, hput.symm⟩
    · rw [put_of_ne hh] at hput
      exact .inr ⟨live_eq_some.mpr ⟨hsub h e hput, hl⟩, hnone h e (live_eq_some.mpr ⟨hput, hl⟩)⟩
  constructor
  · intro h e he
    obtain ⟨rfl, rfl⟩ | ⟨hold, hne⟩ := hcases h e he
    · exact ⟨⟨ms, some d⟩, by rw [hfamily, put_self], hmem, fun _ ht => ht⟩
    · obtain ⟨m, hm, hrest⟩ := hx.listed h e hold
      exact ⟨m, by rw [hfamily, put_of_ne hne, hm], hrest⟩
  · intro h h' e e' he he' hfam
    obtain ⟨rfl, rfl⟩ | ⟨hold, hne⟩ := hcases h e he
    · obtain ⟨rfl, -⟩ | ⟨-, hne'⟩ := hcases h' e' he'
      · rfl
      · exact absurd hfam.symm hne'
    · obtain ⟨rfl, rfl⟩ | ⟨hold', -⟩ := hcases h' e' he'
      · exact absurd hfam hne
      · exact hx.single h h' e e' hold hold' hfam

theorem write (h : RefreshHash) (raw : RawRecord) (ttl : ℕ)
    (hfresh : ∀ k e, s.session k = some e → e.value.familyId ≠ raw.familyId) :
    Indexed ((Pipeline.writeSession h raw ttl).run t s) t := by
  rw [run_writeSession]
  refine hx.store s.session (fun _ _ he => he)
    (fun k e he => hfresh k e (live_eq_some.mp he).1) ?_ rfl rfl
  exact List.mem_insert_self

theorem rotate {old : RefreshHash} {r : RawRecord} (ttl : ℕ) (hold : get s.session t old = some r)
    (hfamily : r.familyId = raw.familyId) :
    Indexed ((Pipeline.rotateSession old new raw ttl).run t s) t := by
  rw [run_rotateSession]
  obtain ⟨d, hd⟩ := get_eq_some.mp hold
  refine hx.store (del s.session old) (fun _ _ he => (eq_some_of_del he).2)
    (fun k e he hk => ?_) ?_ rfl rfl
  · -- the session that is rotated was the only one of its family
    obtain ⟨hdel, hl⟩ := live_eq_some.mp he
    obtain ⟨hne, hstored⟩ := eq_some_of_del hdel
    exact hne (hx.single k old e _ (live_eq_some.mpr ⟨hstored, hl⟩) (live_eq_some.mpr hd)
      (hk.trans hfamily.symm))
  · exact List.mem_insert_self

theorem revoke (h : RefreshHash) (f : Uuid) : Indexed ((Pipeline.revokeSession h f).run t s) t := by
  rw [run_revokeSession]
  refine hx.shrink (fun _ _ he => (eq_some_of_del he).2) fun k e m he hm hl hmem => ?_
  have hne : k ≠ h := (eq_some_of_del (live_eq_some.mp he).1).1
  by_cases hf : e.value.familyId = f
  · subst hf
    have hleft : k ∈ m.value.filter (· ≠ h) := List.mem_filter.mpr ⟨hmem, by simpa using hne⟩
    refine ⟨{ m with value := m.value.filter (· ≠ h) }, ?_, hleft, rfl⟩
    simp only [srem, if_true, live_eq_some.mpr ⟨hm, hl⟩, bind_some, without]
    exact if_neg (List.ne_nil_of_mem hleft)
  · exact ⟨m, (srem_of_ne hf h).trans hm, hmem, rfl⟩

theorem kill (f : Uuid) {hashes : List RefreshHash}
    (hall : ∀ h ∈ members s.family t f, h ∈ hashes) :
    Indexed ((Pipeline.killFamily f hashes).run t s) t := by
  rw [run_killFamily]
  have hkept : ∀ k e, delAll s.session hashes k = some e → k ∉ hashes ∧ s.session k = some e := by
    intro k e he
    by_cases hk : k ∈ hashes
    · simp [delAll_of_mem hk] at he
    · rw [delAll_of_not_mem hk] at he
      exact ⟨hk, he⟩
  refine hx.shrink (fun k e he => (hkept k e he).2) fun k e m he hm hl hmem => ?_
  obtain ⟨hdel, hlive⟩ := live_eq_some.mp he
  obtain ⟨hk, hstored⟩ := hkept k e hdel
  have hne : e.value.familyId ≠ f := by
    rintro rfl
    exact hk (hall k (hx.mem_members (live_eq_some.mpr ⟨hstored, hlive⟩)))
  exact ⟨m, (del_of_ne hne s.family).trans hm, hmem, rfl⟩

theorem delete (h : RefreshHash) : Indexed ((Pipeline.deleteSession h).run t s) t :=
  hx.shrink (fun _ _ he => (eq_some_of_del he).2) fun _ _ m _ hm _ hmem => ⟨m, hm, hmem, rfl⟩

end Indexed

/-- The invariant of runs in which every block is current. -/
structure Coherent (N : ℕ → Notes) (w : World) : Prop where
  sound : Sound N w
  families : Smap.Tokens.Ledger (FamilyAt N w) w.uuids
  indexed : Indexed w.redis w.clock

namespace Coherent

theorem clock_act (o : Op) (w : World) : (act o w).2.clock = w.clock := by
  cases o <;> rfl

theorem initial (hblank : ∀ i, N i = .blank) (clock : Time) (users : Uuid → Option User)
    (admins : Uuid → Bool) : Coherent N (.initial clock users admins) := by
  have hnone : ∀ f x, ¬ FamilyAt N (.initial clock users admins) f x := by
    rintro f (_ | i) hx
    · obtain ⟨h, e, he, -⟩ := hx
      cases he
    · simp only [FamilyAt, hblank] at hx
      cases hx
  exact ⟨.of_blank hblank nofun,
    ⟨fun f x y hx _ => absurd hx (hnone f x), fun f x hx => absurd hx (hnone f x)⟩,
    ⟨nofun, nofun⟩⟩

variable (h : Coherent N w)

include h

theorem indexed_run {p : Pipeline} (hok : Grounded (N i) (.exec p))
    (hcur : current (.exec p) w = true) : Indexed (p.run w.clock w.redis) w.clock := by
  cases p with
  | writeSession k raw ttl =>
    -- the family has just been drawn, so it is the family of no record
    refine h.indexed.write k raw ttl fun k' e he hf => ?_
    exact nomatch h.families.unique raw.familyId none (some i) ⟨k', e, he, hf⟩ hok.2
  | rotateSession old new raw ttl =>
    obtain ⟨r, hr, hf⟩ := stored_of_current h.sound hok hcur
    exact h.indexed.rotate ttl hr hf
  | revokeSession k f => exact h.indexed.revoke k f
  | killFamily f => exact h.indexed.kill f (by simpa [current] using hcur)
  | deleteSession k => exact h.indexed.delete k
  | denyJti => exact ⟨h.indexed.listed, h.indexed.single⟩

/-- **An operation of any call keeps the invariant**, if its block is current. -/
theorem step (hok : Grounded (N i) o) (hcur : current o w = true) :
    Coherent (update N i (note (N i) o (act o w).1)) (act o w).2 := by
  refine ⟨h.sound.step hok, families_step h.sound hok hcur h.families, ?_⟩
  rw [clock_act]
  by_cases hexec : ∃ p, o = .exec p
  · obtain ⟨p, rfl⟩ := hexec
    exact h.indexed_run hok hcur
  · rw [session_act (not_exists.mp hexec)]
    exact h.indexed

theorem tick (d : Time) : Coherent N (tick d w) :=
  ⟨h.sound.tick d, h.families, h.indexed.later (Nat.le_add_right _ _)⟩

/-- What the tables hold does not matter. -/
theorem database (db : Database) : Coherent N { w with db := db } :=
  ⟨⟨h.sound.ledger, h.sound.drawn, h.sound.unheld, h.sound.reads⟩, h.families, h.indexed⟩

/-- The calls of a pool give way to new ones. -/
theorem restart {N' : ℕ → Notes} (hblank : ∀ i, N' i = .blank) : Coherent N' w := by
  refine ⟨.of_blank hblank fun k e he => (h.sound.stored he).1, h.families.stay fun f x hx => ?_,
    h.indexed⟩
  cases x with
  | none => exact hx
  | some =>
    simp only [FamilyAt, hblank] at hx
    cases hx

omit h in
/-- **In every run whose blocks are current the sets and the records agree.** -/
theorem of_run {cfg : Settings} {calls : List Call} (h : Coherent (notesOf (start cfg w calls)) w)
    {ms : List (Move Unit Time)} {p : Calls}
    (hall : AllSteps machine (atOps fun o w => current o w = true) ms (start cfg w calls))
    (hrun : run machine ms (start cfg w calls) = some p) : Coherent (notesOf p) p.world :=
  (total_invariant (fun N w i o hok hcur h => by
      obtain ⟨c, -, hok⟩ := hok
      exact h.step hok.1 hcur)
    (fun N w d h => h.tick d) hall (obeyed_start cfg w calls) h hrun).2

end Coherent

/-! ## Killed families -/

section Dead

variable {f : Uuid}

theorem closed_note {l : Notes} (h : (note l o (act o w).1).closed = some f) :
    l.closed = some f ∨ (o = .smembers f ∧ members w.redis.family w.clock f = []) ∨
      ∃ hashes, o = .exec (.killFamily f hashes) := by
  cases o with
  | smembers f' =>
    change (if members w.redis.family w.clock f' = [] then some f' else l.closed) = _ at h
    split at h
    · rename_i hempty
      cases h
      exact .inr (.inl ⟨rfl, hempty⟩)
    · exact .inl h
  | exec p =>
    cases p with
    | killFamily f' hashes =>
      cases h
      exact .inr (.inr ⟨hashes, rfl⟩)
    | _ => exact .inl h
  | _ => exact .inl h

theorem live_of_get {h : RefreshHash} {raw : RawRecord}
    (hg : get w.redis.session w.clock h = some raw) :
    ∃ e, live w.redis.session w.clock h = some e ∧ e.value = raw :=
  map_eq_some_iff.mp hg

/-- A family whose set is empty has no live session. -/
theorem dead_of_members_nil (hw : Indexed w.redis w.clock)
    (hempty : members w.redis.family w.clock f = []) : Dead f w := by
  rintro h ⟨raw, hg, rfl⟩
  obtain ⟨e, he, rfl⟩ := live_of_get hg
  have hmem := hw.mem_members he
  simp [hempty] at hmem

/-- The block of `kill_family`, if it is current, leaves no live session of the family. -/
theorem dead_of_kill (hw : Indexed w.redis w.clock) {hashes : List RefreshHash}
    (hcur : current (.exec (.killFamily f hashes)) w = true) :
    Dead f (act (.exec (.killFamily f hashes)) w).2 := by
  rintro h ⟨raw, hg, hf⟩
  obtain ⟨d, hd, hl⟩ := get_eq_some.mp hg
  simp only [act, run_killFamily] at hd hl
  by_cases hh : h ∈ hashes
  · simp [delAll_of_mem hh] at hd
  · rw [delAll_of_not_mem hh] at hd
    subst hf
    have hmem := hw.mem_members (live_eq_some.mpr ⟨hd, hl⟩)
    simp only [current, List.all_eq_true, decide_eq_true_eq] at hcur
    exact hh (hcur h hmem)

/-- **A dead family stays dead**, as long as no session is opened and every block is
current: a rotation would have to start from a live session. -/
theorem dead_step (hs : Sound N w) (hok : Grounded (N i) o) (hcur : current o w = true)
    (hopen : ∀ h raw ttl, o ≠ .exec (.writeSession h raw ttl)) (hdead : Dead f w) :
    Dead f (act o w).2 := by
  rintro h ⟨raw, hg, hf⟩
  rw [Coherent.clock_act] at hg
  by_cases hexec : ∃ p, o = .exec p
  · obtain ⟨p, rfl⟩ := hexec
    obtain ⟨d, hd, hl⟩ := get_eq_some.mp hg
    obtain hwas | ⟨raw', ttl, rfl, -⟩ | ⟨old, raw', ttl, rfl, he⟩ := session_run hd
    · exact hdead h ⟨raw, get_eq_some.mpr ⟨d, hwas, hl⟩, hf⟩
    · exact hopen h raw' ttl rfl
    · obtain ⟨r, hr, hrf⟩ := stored_of_current hs hok hcur
      obtain ⟨rfl, -⟩ := Entry.mk.inj he
      exact hdead old ⟨r, hr, hrf.trans hf⟩
  · rw [session_act (not_exists.mp hexec)] at hg
    exact hdead h ⟨raw, hg, hf⟩

/-- A family that some call has closed is dead. -/
structure Closing (f : Uuid) (N : ℕ → Notes) (w : World) : Prop where
  coherent : Coherent N w
  dead : ∀ i, (N i).closed = some f → Dead f w

theorem Closing.step (h : Closing f N w) (hok : Grounded (N i) o) (hcur : current o w = true)
    (hopen : ∀ h raw ttl, o ≠ .exec (.writeSession h raw ttl)) :
    Closing f (update N i (note (N i) o (act o w).1)) (act o w).2 := by
  refine ⟨h.coherent.step hok hcur, fun j hj => ?_⟩
  by_cases hold : (N j).closed = some f
  · exact dead_step h.coherent.sound hok hcur hopen (h.dead j hold)
  by_cases hji : j = i
  · subst hji
    rw [update_self] at hj
    obtain hsame | ⟨rfl, hempty⟩ | ⟨hashes, rfl⟩ := closed_note hj
    · exact absurd hsame hold
    · exact dead_of_members_nil h.coherent.indexed hempty
    · exact dead_of_kill h.coherent.indexed hcur
  · rw [update_of_ne hji] at hj
    exact absurd hj hold

end Dead

/-- `kill_family` beside any rotations. -/
def killAndRotate (f : Uuid) (rotations : List (RefreshToken × Uuid)) : List Call :=
  .killFamily f :: rotations.map fun x => .rotateSession x.1 x.2

theorem not_opens_of_mem {f : Uuid} {rotations : List (RefreshToken × Uuid)} {c : Call}
    (hc : c ∈ killAndRotate f rotations) {l : Notes} (hdoes : c.Does l o) :
    ∀ h raw ttl, o ≠ .exec (.writeSession h raw ttl) := by
  rintro h raw ttl rfl
  obtain ⟨u, s, j, rfl⟩ := hdoes
  simp [killAndRotate] at hc

/-- **A killed family stays dead**, if every block acts on readings that still hold: from any
store that calls have led to, in any interleaving of `kill_family` with any rotations, no
session of the family is live once `kill_family` has returned. -/
theorem killed_family_is_dead (cfg : Settings) (clock : Time) (users : Uuid → Option User)
    (admins : Uuid → Bool) (before : List Call) {ms₀ : List (Move Unit Time)} {p : Calls}
    (hall₀ : AllSteps machine (atOps fun o w => current o w = true) ms₀
      (start cfg (.initial clock users admins) before))
    (hrun₀ : run machine ms₀ (start cfg (.initial clock users admins) before) = some p)
    (f : Uuid) (rotations : List (RefreshToken × Uuid)) {ms : List (Move Unit Time)} {q : Calls}
    (hall : AllSteps machine (atOps fun o w => current o w = true) ms
      (start cfg p.world (killAndRotate f rotations)))
    (hrun : run machine ms (start cfg p.world (killAndRotate f rotations)) = some q)
    (hdone : q.tasks[0]?.any Task.finished = true) : Dead f q.world := by
  have hblank := notesOf_start cfg p.world (killAndRotate f rotations)
  have hbefore : Coherent (notesOf p) p.world :=
    .of_run (.initial (notesOf_start cfg _ before) clock users admins) hall₀ hrun₀
  have hstart : Closing f (notesOf (start cfg p.world (killAndRotate f rotations))) p.world := by
    refine ⟨hbefore.restart hblank, fun i hi => ?_⟩
    rw [hblank] at hi
    cases hi
  obtain ⟨hobeyed, hinv⟩ := total_invariant (R := Closing f) (fun N w i o hok hcur h => by
      obtain ⟨c, hc, hok⟩ := hok
      exact h.step hok.1 hcur (not_opens_of_mem (List.mem_of_getElem? hc) hok.2))
    (fun N w d h => ⟨h.coherent.tick d, fun i hi k hk => by
      obtain ⟨raw, hg, hf⟩ := hk
      exact h.dead i hi k ⟨raw, get_mono (Nat.le_add_right _ _) hg, hf⟩⟩)
    hall (obeyed_start cfg p.world _) hstart hrun
  simp only [any_eq_true] at hdone
  obtain ⟨t, ht, hfin⟩ := hdone
  obtain ⟨c, hc, hclosed⟩ := hobeyed.post ht hfin
  obtain rfl : Call.killFamily f = c := some.inj hc
  have hnotes : q.locOf .blank 0 = t.loc := Pool.locOf_of_getElem? ht
  exact hinv.dead 0 (hnotes ▸ hclosed f rfl)

/-- A session is created; its family is the first identifier drawn. -/
def oneSession : List Call := [.createSession 1 2 none]

def opened : List (Move Unit Time) := .replicate 6 (.step 0 ())

/-- The family is killed, and the rotation comes after. -/
theorem killed_before_rotation :
    ∃ p q, run machine opened (start .default (.initial 0 (fun _ => none) fun _ => false)
        oneSession) = some p ∧
      LiveIn 0 ⟨⟨0⟩⟩ p.world ∧
      run machine (.replicate 3 (.step 0 ()) ++ .replicate 3 (.step 1 ()))
        (start .default p.world (killAndRotate 0 [(⟨0⟩, 10)])) = some q ∧
      Dead 0 q.world := by
  obtain ⟨p, hp, hlive, ⟨q, hq, hdone⟩, hsteps⟩ :
      ∃ p ∈ run machine opened (start .default (.initial 0 (fun _ => none) fun _ => false)
          oneSession),
        LiveIn 0 ⟨⟨0⟩⟩ p.world ∧
        (∃ q ∈ run machine (.replicate 3 (.step 0 ()) ++ .replicate 3 (.step 1 ()))
          (start .default p.world (killAndRotate 0 [(⟨0⟩, 10)])),
          q.tasks[0]?.any Task.finished = true) ∧
        checkSteps machine (checkOps current)
          (.replicate 3 (.step 0 ()) ++ .replicate 3 (.step 1 ()))
          (start .default p.world (killAndRotate 0 [(⟨0⟩, 10)])) = true := by
    decide +kernel
  have hsteps₀ : checkSteps machine (checkOps current) opened
      (start .default (.initial 0 (fun _ => none) fun _ => false) oneSession) = true := by
    decide +kernel
  have hcheck : ∀ (m : Move Unit Time) (p : Calls), checkOps current m p = true →
      atOps (fun o w => current o w = true) m p := atOps_of_checkOps fun _ _ h => h
  exact ⟨p, q, hp, hlive, hq, killed_family_is_dead .default 0 (fun _ => none) (fun _ => false)
    oneSession (allSteps_of_checkSteps hcheck _ _ hsteps₀) hp 0 [(⟨0⟩, 10)]
    (allSteps_of_checkSteps hcheck _ _ hsteps) hq hdone⟩

/-- The rotation comes between the reading and the block of `kill_family`: both calls have
returned, and the session the rotation has stored is live. -/
theorem family_outlives_kill :
    ∃ p q, run machine opened (start .default (.initial 0 (fun _ => none) fun _ => false)
        oneSession) = some p ∧
      LiveIn 0 ⟨⟨0⟩⟩ p.world ∧
      run machine (.step 0 () :: .replicate 8 (.step 1 ()) ++ .replicate 2 (.step 0 ()))
        (start .default p.world (killAndRotate 0 [(⟨0⟩, 10)])) = some q ∧
      q.tasks.all Task.finished = true ∧ LiveIn 0 ⟨⟨1⟩⟩ q.world := by
  simp only [exists_and_left]
  decide +kernel

end Smap.Auth
