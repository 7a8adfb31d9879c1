import Smap.Lib.Tokens
import Smap.Workflow.Parking

/-!
# Claims of parked waits

A `wait_for_event` node that parks leaves a claim under `wf:wait:{run}:{node}`.  Whoever
takes it with `GETDEL` owns the resume, and puts it back when the run was not waiting.
Each park writes a claim with a number of its own, which the code does not have: the key
and the jobs name only the run and the node.

Three things are shown about every run.  No park is resumed twice, whatever happens
(`single_resume`, first half).  A claim is not lost while its run is live, if no job takes
a claim before the run's first commit (second half).  A timeout job never takes the claim
of a later park, if no node parks again while a timeout of it is outstanding
(`timeout_ends_its_own_park`).
-/

namespace Smap.Workflow

open Program RowVersions Tokens Pool List Function RedisOp Local

variable {env : Services}

/-! ## Operations that touch claims -/

/-- The operations that write, take, drop, put back or use up a claim. -/
def Op.movesClaim : Op → Bool
  | .redis (.setClaim ..) | .redis (.getdelClaim _) | .redis (.deleteClaim _)
  | .redis (.restoreClaim ..) | .audit (.resumed ..) => true
  | _ => false

/-- What the other operations leave alone. -/
structure ClaimsKept (l : Local) (w : World) (l' : Local) (w' : World) : Prop where
  claims : w'.claims = w.claims
  parks : w'.parks = w.parks
  resumedParks : w'.resumedParks = w.resumedParks
  lastClaim : w'.lastClaim = w.lastClaim
  held : l'.held = l.held
  lastPark : l'.lastPark = l.lastPark

variable {i : ℕ} {o : Op} {input : Input} {l : Local} {w w' : World} {r : o.Res} {p : RunPool}
  {t : Task Op Op.Res Local} {k : o.Res → Engine Unit} {v : Option RunRow} {n : String}
  {e : Outside} {new : List (Local × Engine Unit)} {p' : RunPool} {x : ClaimKey × Claim}
  {m : RunMove}

theorem claimsKept_of_act {runId : String} (h : o.act runId i input l w = some (r, w'))
    (ho : o.movesClaim = false) (v : Option RunRow) : ClaimsKept l w (o.record l v r) w' := by
  cases effect_of_act h with
  | ctx o | run o | step o | queue o => cases o <;> exact ⟨rfl, rfl, rfl, rfl, rfl, rfl⟩
  | redis o =>
    cases o with
    | getClaim | incrRetry => exact ⟨rfl, rfl, rfl, rfl, rfl, rfl⟩
    | joinArrive =>
      simp only [act]
      split <;> exact ⟨rfl, rfl, rfl, rfl, rfl, rfl⟩
    | _ => cases ho
  | audit e =>
    cases e with
    | resumed => cases ho
    | _ => exact ⟨rfl, rfl, rfl, rfl, rfl, rfl⟩
  | service | commit => exact ⟨rfl, rfl, rfl, rfl, rfl, rfl⟩

/-- No move from outside touches a claim. -/
theorem claims_of_env (h : e.act env w = some (w', new)) :
    w'.claims = w.claims ∧ w'.parks = w.parks ∧ w'.resumedParks = w.resumedParks ∧
      w'.lastClaim = w.lastClaim := by
  obtain ⟨d, deleted, queue, rfl⟩ := Outside.act_frame h
  exact ⟨rfl, rfl, rfl, rfl⟩

/-- What is started from outside holds no claim and has parked nothing. -/
theorem started_holds_nothing (h : e.act env w = some (w', new)) {t : Local × Engine Unit}
    (ht : t ∈ new) : t.1.held = none ∧ t.1.lastPark = none ∧ t.1.pending = [] := by
  obtain ⟨job, rfl, -⟩ | rfl | ⟨reason, rfl⟩ | rfl := Outside.act_starts h ht
  all_goals exact ⟨rfl, rfl, rfl⟩

/-- A move from outside leaves every hand as it is. -/
theorem held_of_env (h : e.act env p.world = some (w, new)) :
    ((⟨w, p.tasks ++ new.map fun t => ⟨t.1, t.2⟩⟩ : RunPool).locOf blank i).held =
      (p.locOf blank i).held := by
  obtain hsame | ⟨hblank, u, hu, hloc⟩ := locOf_append Local.blank p.world p.tasks
    (new.map fun t => (⟨t.1, t.2⟩ : Task Op Op.Res Local)) i
  · rw [hsame]
  · obtain ⟨s, hs, rfl⟩ := mem_map.mp hu
    rw [hloc, (started_holds_nothing h hs).1, show p.locOf blank i = _ from hblank]
    rfl

/-- A claim that `GETDEL` puts into an empty hand was under the key. -/
theorem held_of_getdelClaim {key : ClaimKey} {found : Option Claim} (hnone : l.held = none)
    (h : (record l (.getdelClaim key) found).held = some x) :
    x.1 = key ∧ found = some x.2 := by
  cases found with
  | none => simp [record, hnone] at h
  | some =>
    cases h
    exact ⟨rfl, rfl⟩

/-- A claim under a key after a write is the one written, or was there. -/
theorem claims_of_update {claims : ClaimKey → Option Claim} {key k : ClaimKey}
    {claim : Option Claim} {c : Claim} (h : Function.update claims key claim k = some c) :
    k = key ∧ claim = some c ∨ k ≠ key ∧ claims k = some c := by
  by_cases hk : k = key
  · subst hk
    exact .inl ⟨rfl, by simpa using h⟩
  · exact .inr ⟨hk, by simpa [hk] using h⟩

/-! ## Every park is resumed at most once -/

/-- Where the claim of a park can be: under its key, in the hand of a job, or used up. -/
inductive Place where
  | key (k : ClaimKey)
  | hand (i : ℕ)
  | used

/-- The claim of park `q` is at the place. -/
def At (p : RunPool) (q : ℕ) : Place → Prop
  | .key k => ∃ c, p.world.claims k = some c ∧ c.park = q
  | .hand i => ∃ k c, (p.locOf blank i).held = some (k, c) ∧ c.park = q
  | .used => q ∈ p.world.resumedParks

/-- The claims of the parks so far are in one place each, and no resume is counted twice. -/
structure ClaimsLinear (p : RunPool) : Prop where
  ledger : Ledger (At p) p.world.parks
  nodup : p.world.resumedParks.Nodup

variable {l' : Local} {rest : Engine Unit} {key : ClaimKey}

section Step

variable (ht : p.tasks[i]? = some t)

include ht

/-- The places after an operation of continuation `i`. -/
theorem at_set {q : ℕ} {x : Place} (h : At ⟨w, p.tasks.set i ⟨l', rest⟩⟩ q x) :
    (∃ k c, x = .key k ∧ w.claims k = some c ∧ c.park = q) ∨
      (∃ k c, x = .hand i ∧ l'.held = some (k, c) ∧ c.park = q) ∨
      (∃ j, j ≠ i ∧ x = .hand j ∧ At p q x) ∨ (x = .used ∧ q ∈ w.resumedParks) := by
  cases x with
  | key k =>
    obtain ⟨c, hc, hq⟩ := h
    exact .inl ⟨k, c, rfl, hc, hq⟩
  | hand j =>
    obtain ⟨k, c, hheld, hq⟩ := h
    by_cases hij : i = j
    · subst hij
      rw [locOf_set_self ht] at hheld
      exact .inr (.inl ⟨k, c, rfl, hheld, hq⟩)
    · rw [locOf_set_of_ne p.world hij] at hheld
      exact .inr (.inr (.inl ⟨j, Ne.symm hij, rfl, k, c, hheld, hq⟩))
  | used => exact .inr (.inr (.inr ⟨rfl, h⟩))

theorem at_hand {k : ClaimKey} {c : Claim} (hheld : t.loc.held = some (k, c)) :
    At p c.park (.hand i) :=
  ⟨k, c, by rw [locOf_of_getElem? ht]; exact hheld, rfl⟩

variable (h : ClaimsLinear p)

include h

theorem claimsLinear_of_kept (hkept : ClaimsKept t.loc p.world l' w) :
    ClaimsLinear ⟨w, p.tasks.set i ⟨l', rest⟩⟩ := by
  refine ⟨?_, by simpa [hkept.resumedParks] using h.nodup⟩
  rw [show w.parks = p.world.parks from hkept.parks]
  refine h.ledger.stay fun q x hx => ?_
  obtain ⟨k, c, rfl, hc, hq⟩ | ⟨k, c, rfl, hheld, rfl⟩ | ⟨j, -, -, hj⟩ | ⟨rfl, hused⟩ :=
    at_set ht hx
  · exact ⟨c, hkept.claims ▸ hc, hq⟩
  · exact at_hand ht (hkept.held ▸ hheld)
  · exact hj
  · rw [hkept.resumedParks] at hused
    exact hused

variable {nodeId : String} {claim : Claim}

/-- A park writes the claim with the next number. -/
theorem claimsLinear_setClaim {runId : String} (hheld : l'.held = t.loc.held)
    (hw : w = (act runId p.world (.setClaim key nodeId)).2) :
    ClaimsLinear ⟨w, p.tasks.set i ⟨l', rest⟩⟩ := by
  subst hw
  refine ⟨h.ledger.mint (.key key) fun q x hx => ?_, h.nodup⟩
  obtain ⟨k, c, rfl, hc, hq⟩ | ⟨k, c, rfl, hheld', rfl⟩ | ⟨j, -, -, hj⟩ | ⟨rfl, hused⟩ :=
    at_set ht hx
  · obtain ⟨rfl, hnew⟩ | ⟨-, hc⟩ := claims_of_update hc
    · cases hnew
      exact .inr ⟨hq.symm, rfl⟩
    · exact .inl ⟨c, hc, hq⟩
  · exact .inl (at_hand ht (hheld ▸ hheld'))
  · exact .inl hj
  · exact .inl hused

/-- `GETDEL` moves a claim from its key into the hand of the job. -/
theorem claimsLinear_getdelClaim (hnone : t.loc.held = none)
    (hl' : l' = record t.loc (.getdelClaim key) (p.world.claims key)) :
    ClaimsLinear ⟨p.world.putClaim key none, p.tasks.set i ⟨l', rest⟩⟩ := by
  subst hl'
  let take : Place → Place
    | .key k => if k = key then .hand i else .key k
    | x => x
  refine ⟨h.ledger.move take fun q x hx => ?_, h.nodup⟩
  obtain ⟨k, c, rfl, hc, hq⟩ | ⟨k, c, rfl, hheld, hq⟩ | ⟨j, -, rfl, hj⟩ | ⟨rfl, hused⟩ :=
    at_set ht hx
  · obtain ⟨-, hnone⟩ | ⟨hk, hc⟩ := claims_of_update hc
    · cases hnone
    · exact ⟨.key k, ⟨c, hc, hq⟩, if_neg hk⟩
  · obtain ⟨rfl, hclaim⟩ := held_of_getdelClaim hnone hheld
    exact ⟨.key k, ⟨c, hclaim, hq⟩, if_pos rfl⟩
  · exact ⟨.hand j, hj, rfl⟩
  · exact ⟨.used, hused, rfl⟩

theorem claimsLinear_deleteClaim (hheld : l'.held = t.loc.held) :
    ClaimsLinear ⟨p.world.putClaim key none, p.tasks.set i ⟨l', rest⟩⟩ := by
  refine ⟨h.ledger.stay fun q x hx => ?_, h.nodup⟩
  obtain ⟨k, c, rfl, hc, hq⟩ | ⟨k, c, rfl, hheld', rfl⟩ | ⟨j, -, rfl, hj⟩ | ⟨rfl, hused⟩ :=
    at_set ht hx
  · obtain ⟨-, hnone⟩ | ⟨-, hc⟩ := claims_of_update hc
    · cases hnone
    · exact ⟨c, hc, hq⟩
  · exact at_hand ht (hheld ▸ hheld')
  · exact hj
  · exact hused

variable (hheld : t.loc.held = some (key, claim))

include hheld

/-- A restore moves the claim back from the hand of the job to its key. -/
theorem claimsLinear_restoreClaim (hnone : l'.held = none) :
    ClaimsLinear ⟨p.world.putClaim key (some claim), p.tasks.set i ⟨l', rest⟩⟩ := by
  let put : Place → Place
    | .hand j => if j = i then .key key else .hand j
    | x => x
  refine ⟨h.ledger.move put fun q x hx => ?_, h.nodup⟩
  obtain ⟨k, c, rfl, hc, hq⟩ | ⟨k, c, rfl, hheld', -⟩ | ⟨j, hji, rfl, hj⟩ | ⟨rfl, hused⟩ :=
    at_set ht hx
  · obtain ⟨rfl, hback⟩ | ⟨-, hc⟩ := claims_of_update hc
    · cases hback
      exact ⟨.hand i, hq ▸ at_hand ht hheld, if_pos rfl⟩
    · exact ⟨.key k, ⟨c, hc, hq⟩, rfl⟩
  · simp [hnone] at hheld'
  · exact ⟨.hand j, hj, if_neg hji⟩
  · exact ⟨.used, hused, rfl⟩

/-- The audit row of a resume uses the claim up. -/
theorem claimsLinear_resumed {reason : String} (hnone : l'.held = none) :
    ClaimsLinear ⟨auditAct t.loc p.world (.resumed nodeId reason), p.tasks.set i ⟨l', rest⟩⟩ := by
  have hunused : claim.park ∉ p.world.resumedParks := by
    intro hused
    have hplaces := h.ledger.unique claim.park (.hand i) .used (at_hand ht hheld) hused
    cases hplaces
  let spend : Place → Place
    | .hand j => if j = i then .used else .hand j
    | x => x
  simp only [auditAct, hheld]
  refine ⟨h.ledger.move spend fun q x hx => ?_, nodup_cons.mpr ⟨hunused, h.nodup⟩⟩
  obtain ⟨k, c, rfl, hc, hq⟩ | ⟨k, c, rfl, hheld', -⟩ | ⟨j, hji, rfl, hj⟩ | ⟨rfl, hused⟩ :=
    at_set ht hx
  · exact ⟨.key k, ⟨c, hc, hq⟩, rfl⟩
  · simp [hnone] at hheld'
  · exact ⟨.hand j, hj, if_neg hji⟩
  · obtain rfl | hused := mem_cons.mp hused
    · exact ⟨.hand i, at_hand ht hheld, if_pos rfl⟩
    · exact ⟨.used, hused, rfl⟩

end Step

/-- **A step keeps every claim in one place.** -/
theorem claimsLinear_step (hsound : Sound env p) (h : ClaimsLinear p)
    (hstep : step (machine env) m p = some p') : ClaimsLinear p' := by
  obtain ⟨i, input, t, o, k, r, w, ht, hprog, hact⟩ | ⟨e, w, new, henv⟩ := isStep_of_step hstep
  · have hok := hsound.ok_of_prog ht hprog
    cases ho : o.movesClaim with
    | false => exact claimsLinear_of_kept ht h (claimsKept_of_act hact ho _)
    | true =>
      cases effect_of_act hact with
      | redis o =>
        cases o with
        | setClaim => exact claimsLinear_setClaim ht h rfl rfl
        | getdelClaim => exact claimsLinear_getdelClaim ht h hok.1 rfl
        | deleteClaim => exact claimsLinear_deleteClaim ht h rfl
        | restoreClaim => exact claimsLinear_restoreClaim ht h hok rfl
        | _ => cases ho
      | audit e =>
        cases e with
        | resumed =>
          obtain ⟨⟨key, claim⟩, hheld⟩ := Option.isSome_iff_exists.mp hok
          exact claimsLinear_resumed ht h hheld rfl
        | _ => cases ho
      | _ => cases ho
  · obtain ⟨hclaims, hparks, hresumed, -⟩ := claims_of_env henv
    refine ⟨?_, by simpa [hresumed] using h.nodup⟩
    rw [show w.parks = p.world.parks from hparks]
    refine h.ledger.stay fun q x hx => ?_
    cases x <;> simpa only [At, hclaims, hresumed, held_of_env henv] using hx

theorem claimsLinear_initialPool (start : Start) : ClaimsLinear (initialPool env start) := by
  have hnowhere : ∀ q x, ¬ At (initialPool env start) q x := by
    intro q x hx
    cases x with
    | key =>
      obtain ⟨c, hc, -⟩ := hx
      cases hc
    | hand i =>
      obtain ⟨k, c, hheld, -⟩ := hx
      cases i <;> cases hheld
    | used => cases hx
  exact ⟨⟨fun q x _ hx => absurd hx (hnowhere q x), fun q x hx => absurd hx (hnowhere q x)⟩,
    nodup_nil⟩

/-! ## No claim is lost while the run is live -/

/-- A job takes the claim of a wait only when the run's row is committed. -/
def claimsCommittedRun (m : RunMove) (p : RunPool) : Bool :=
  match nextOp m p with
  | some (.redis (.getdelClaim (.wait _))) => p.world.run.committed.isSome
  | _ => true

/-- A job with the claim of a wait in hand has the run's row committed beneath it, and
takes the run for dead only if it is over. -/
def HoldsLive (l : Local) (w : World) : Prop :=
  ∀ n c, l.held = some (.wait n, c) → ∃ row, w.run.committed = some row ∧
    (l.sawDead = true → row.state.isTerminal = true)

namespace HoldsLive

theorem of_held_eq_none (h : l.held = none) : HoldsLive l w := by
  intro n c hheld
  simp [h] at hheld

/-- Whatever moves the row forward keeps it so, if a new look at the row that found it
dead found it over. -/
theorem of_evolves (h : HoldsLive l w) (he : Evolves w.run w'.run)
    (hheld : ∀ x, l'.held = some x → l.held = some x)
    (hdead : l'.sawDead = true → l.sawDead = true ∨
      ∀ row, w.run.committed = some row → row.state.isTerminal = true) :
    HoldsLive l' w' := by
  intro n c hc
  obtain ⟨row, hrow, hover⟩ := h n c (hheld _ hc)
  obtain ⟨row', hrow', hsame⟩ := he row hrow
  refine ⟨row', hrow', fun hsaw => ?_⟩
  have hterminal : row.state.isTerminal = true := by
    obtain hold | hnew := hdead hsaw
    · exact hover hold
    · exact hnew row hrow
  rw [hsame hterminal]
  exact hterminal

end HoldsLive

/-- A continuation takes the run for dead only by a look at the row. -/
theorem sawDead_of_record (hcoherent : o.Coherent l v r) (h : (o.record l v r).sawDead = true) :
    l.sawDead = true ∨ l.findsDead v = true := by
  cases o with
  | run o =>
    cases o with
    | insert => cases h
    | get =>
      obtain rfl : r = v := hcoherent
      exact .inr h
    | updateState => exact .inl h
    | updateVariables =>
      cases r with
      | true => exact .inl h
      | false => exact .inr h
  | ctx o | step o | redis o | queue o | audit o => cases o <;> exact .inl h
  | service | commit | diverge => exact .inl h

/-- Only `GETDEL` puts a claim into the hand of a job. -/
theorem held_of_record (ho : ∀ key, o ≠ .redis (.getdelClaim key))
    (h : (o.record l v r).held = some x) : l.held = some x := by
  cases o with
  | redis o =>
    cases o with
    | getdelClaim key => exact absurd rfl (ho key)
    | restoreClaim => cases h
    | _ => exact h
  | audit e =>
    cases e with
    | resumed => cases h
    | _ => exact h
  | ctx o | run o | step o | queue o => cases o <;> exact h
  | service | commit | diverge => exact h

theorem holdsLive_own (hlink : Link i l w) (h : HoldsLive l w) (hok : Allowed l o)
    (hcond : ∀ n, o = .redis (.getdelClaim (.wait n)) → w.run.committed.isSome = true)
    (hact : o.act env.runId i input l w = some (r, w')) :
    HoldsLive (o.record l (w.run.seenBy i) r) w' := by
  have hevolves := (Link.act_run hact).1
  by_cases ho : ∃ key, o = .redis (.getdelClaim key)
  · obtain ⟨key, rfl⟩ := ho
    obtain ⟨-, rfl⟩ := Prod.mk.inj (Option.some.inj hact)
    obtain ⟨hnone, hunseen, -⟩ := hok
    intro n c hheld
    obtain ⟨rfl, -⟩ := held_of_getdelClaim hnone hheld
    obtain ⟨row, hrow⟩ := Option.isSome_iff_exists.mp (hcond n rfl)
    refine ⟨row, hrow, fun hsaw => ?_⟩
    have hsaw' : l.sawDead = true := hsaw
    simp [hunseen] at hsaw'
  · refine h.of_evolves hevolves ?_ ?_
    · exact fun x hx => held_of_record (fun key hkey => ho ⟨key, hkey⟩) hx
    intro hsaw
    obtain hold | hfinds := sawDead_of_record (Link.coherent hact) hsaw
    · exact .inl hold
    refine .inr fun row hrow => ?_
    have hsome : (w.run.seenBy i).isSome = true := by
      cases hdraft : w.run.draftOf i with
      | none => rw [Versioned.seenBy_of_draftOf_eq_none hdraft, hrow]; rfl
      | some => rw [Versioned.seenBy_of_draftOf hdraft]; rfl
    obtain ⟨row', hrow', hterminal⟩ := hlink.dead_of_findsDead hfinds hsome
    cases hrow.symm.trans hrow'
    exact hterminal

/-- Every job that holds a claim holds it over a committed run. -/
abbrev AllHoldLive (p : RunPool) : Prop := ∀ i, HoldsLive (p.locOf blank i) p.world

theorem allHoldLive_step (hsound : Sound env p) (h : AllHoldLive p)
    (hcond : claimsCommittedRun m p = true) (hstep : step (machine env) m p = some p') :
    AllHoldLive p' := by
  refine locals_step (R := fun _ l w => HoldsLive l w) hstep ?_ ?_ ?_ ?_ h
  · intro i t o k input r w hm ht hprog hlive hact
    refine holdsLive_own (hsound.link_of_getElem? ht) hlive (hsound.ok_of_prog ht hprog) ?_ hact
    intro n ho
    subst hm ho
    simpa [claimsCommittedRun, nextOp_of_prog ht hprog] using hcond
  · intro i j t o k input r w hji ht hprog hlive hact
    exact hlive.of_evolves (Link.act_run hact).1 (fun _ hx => hx) .inl
  · intro i e w new hlive henv
    refine hlive.of_evolves ?_ (fun _ hx => hx) .inl
    rw [(Outside.act_rows henv).1]
    exact Evolves.refl _
  · intro i e w new _ henv t ht
    exact HoldsLive.of_held_eq_none (started_holds_nothing henv ht).1

/-- The claim of the park is under the wait key of the node, in the hand of somebody, or
used up. -/
def Accounted (p : RunPool) (n : String) (q : ℕ) : Prop :=
  q ∈ p.world.resumedParks ∨ (∃ c, p.world.claims (.wait n) = some c ∧ c.park = q) ∨
    ∃ i c, (p.locOf blank i).held = some (.wait n, c) ∧ c.park = q

/-- No claim written last under its key is lost. -/
def LastAccounted (p : RunPool) : Prop :=
  ∀ n q, p.world.lastClaim n = some q → Accounted p n q

section Accounted

variable {q : ℕ}

variable (ht : p.tasks[i]? = some t)

include ht

/-- An operation that leaves the key and the uses alone, and lets go of the claim only by
using it up. -/
theorem accounted_set (h : Accounted p n q)
    (hresumed : ∀ q, q ∈ p.world.resumedParks → q ∈ w.resumedParks)
    (hclaims : w.claims (.wait n) = p.world.claims (.wait n))
    (hheld : ∀ c, t.loc.held = some (.wait n, c) →
      l'.held = some (.wait n, c) ∨ c.park ∈ w.resumedParks) :
    Accounted ⟨w, p.tasks.set i ⟨l', rest⟩⟩ n q := by
  obtain hused | ⟨c, hc, hq⟩ | ⟨j, c, hj, hq⟩ := h
  · exact .inl (hresumed q hused)
  · exact .inr (.inl ⟨c, hclaims.trans hc, hq⟩)
  by_cases hij : i = j
  · subst hij
    rw [locOf_of_getElem? ht] at hj
    obtain hkept | hused := hheld c hj
    · refine .inr (.inr ⟨i, c, ?_, hq⟩)
      rw [locOf_set_self ht]
      exact hkept
    · rw [hq] at hused
      exact .inl hused
  · refine .inr (.inr ⟨j, c, ?_, hq⟩)
    rw [locOf_set_of_ne p.world hij]
    exact hj

variable (h : LastAccounted p)

include h

/-- A claim written under a key is there; the other keys are left alone. -/
theorem lastAccounted_put (claim : Claim) {parks : ℕ}
    (hheld : l'.held = t.loc.held ∨ ∃ c, t.loc.held = some (key, c)) :
    LastAccounted ⟨{ p.world.putClaim key (some claim) with parks := parks },
      p.tasks.set i ⟨l', rest⟩⟩ := by
  intro n q hq
  by_cases hkey : key = .wait n
  · subst hkey
    have hpark : claim.park = q := by simpa [World.putClaim] using hq
    exact .inr (.inl ⟨claim, by simp [World.putClaim], hpark⟩)
  · have hq' : p.world.lastClaim n = some q := by
      cases key with
      | wait n' =>
        have hne : n ≠ n' := fun hn => hkey (by rw [hn])
        simpa [World.putClaim, update_of_ne hne] using hq
      | approval | instruct => exact hq
    refine accounted_set ht (h n q hq') (fun _ h => h) ?_ fun c hc => ?_
    · simp [World.putClaim, update_of_ne (Ne.symm hkey)]
    · obtain hsame | ⟨c', hc'⟩ := hheld
      · exact .inl (hsame.trans hc)
      · rw [hc'] at hc
        exact absurd (Prod.mk.inj (Option.some.inj hc)).1 hkey

theorem lastAccounted_getdelClaim (hnone : t.loc.held = none)
    (hl' : l' = record t.loc (.getdelClaim key) (p.world.claims key)) :
    LastAccounted ⟨p.world.putClaim key none, p.tasks.set i ⟨l', rest⟩⟩ := by
  subst hl'
  intro n q hq
  have hq' : p.world.lastClaim n = some q := by
    cases key <;> exact hq
  obtain hused | ⟨c, hc, hpark⟩ | hhand := h n q hq'
  · exact .inl hused
  · by_cases hkey : key = .wait n
    · -- it was under the key that is read
      subst hkey
      refine .inr (.inr ⟨i, c, ?_, hpark⟩)
      rw [locOf_set_self ht]
      simp [record, hc]
    · refine .inr (.inl ⟨c, ?_, hpark⟩)
      simpa [World.putClaim, update_of_ne (Ne.symm hkey)] using hc
  · obtain ⟨j, c, hj, hpark⟩ := hhand
    refine .inr (.inr ⟨j, c, ?_, hpark⟩)
    by_cases hij : i = j
    · subst hij
      simp [locOf_of_getElem? ht, hnone] at hj
    · rw [locOf_set_of_ne p.world hij]
      exact hj

theorem lastAccounted_resumed {claim : Claim} {nodeId reason : String}
    (hheld : t.loc.held = some (key, claim)) :
    LastAccounted ⟨auditAct t.loc p.world (.resumed nodeId reason), p.tasks.set i ⟨l', rest⟩⟩ := by
  intro n q hq
  simp only [auditAct, hheld] at hq ⊢
  refine accounted_set ht (h n q hq) (fun _ h => mem_cons_of_mem _ h) rfl fun c hc => ?_
  rw [hheld] at hc
  cases hc
  exact .inr mem_cons_self

end Accounted

theorem lastAccounted_step (hsound : Sound env p) (h : LastAccounted p)
    (hstep : step (machine env) m p = some p') : LastAccounted p' := by
  obtain ⟨i, input, t, o, k, r, w, ht, hprog, hact⟩ | ⟨e, w, new, henv⟩ := isStep_of_step hstep
  · have hok := hsound.ok_of_prog ht hprog
    cases ho : o.movesClaim with
    | false =>
      have hkept := claimsKept_of_act hact ho (p.world.run.seenBy i)
      intro n q hq
      have hq' : p.world.lastClaim n = some q := by
        rw [← hkept.lastClaim]
        exact hq
      refine accounted_set ht (h n q hq') ?_ (by rw [hkept.claims]) fun c hc => ?_
      · rw [hkept.resumedParks]
        exact fun _ h => h
      · exact .inl (hkept.held.trans hc)
    | true =>
      cases effect_of_act hact with
      | redis o =>
        cases o with
        | setClaim => exact lastAccounted_put ht h _ (.inl rfl)
        | getdelClaim => exact lastAccounted_getdelClaim ht h hok.1 rfl
        | deleteClaim key =>
          intro n q hq
          have hkey : key ≠ .wait n := by
            rintro rfl
            exact hok
          have hq' : p.world.lastClaim n = some q := by
            cases key <;> exact hq
          refine accounted_set ht (h n q hq') (fun _ h => h) ?_ fun c hc => .inl hc
          simp [act, World.putClaim, update_of_ne (Ne.symm hkey)]
        | restoreClaim key claim =>
          exact lastAccounted_put ht h claim (.inr ⟨claim, hok⟩)
        | _ => cases ho
      | audit e =>
        cases e with
        | resumed =>
          obtain ⟨⟨key, claim⟩, hheld⟩ := Option.isSome_iff_exists.mp hok
          exact lastAccounted_resumed ht h hheld
        | _ => cases ho
      | _ => cases ho
  · obtain ⟨hclaims, -, hresumed, hlast⟩ := claims_of_env henv
    intro n q hq
    have hq' : w.lastClaim n = some q := hq
    rw [hlast] at hq'
    simpa only [Accounted, hclaims, hresumed, held_of_env henv] using h n q hq'

/-- **Single resume per park, and no lost claim.**  In every run of every workflow, under
every schedule: no park is resumed twice.  And if no job takes the claim of a wait before
the run's row is committed, then while the run is not over, the claim written last for a
wait is under its key whenever its park has not been resumed and no job is between taking
it and putting it back. -/
theorem single_resume (env : Services) (start : Start) (ms : List RunMove) (p : RunPool)
    (hrun : run (machine env) ms (initialPool env start) = some p) :
    p.world.resumedParks.Nodup ∧
      (AllSteps (machine env) (fun m p => claimsCommittedRun m p = true) ms
          (initialPool env start) →
        ∀ nodeId park, p.world.lastClaim nodeId = some park → park ∉ p.world.resumedParks →
          (∀ row, p.world.run.committed = some row → row.state.isTerminal = false) →
          (∀ t ∈ p.tasks, t.finished = false → ∀ claim,
            t.loc.held = some (.wait nodeId, claim) → claim.park ≠ park) →
          ∃ claim, p.world.claims (.wait nodeId) = some claim ∧ claim.park = park) := by
  obtain ⟨hsound, hlinear, haccounted⟩ := run_invariant_of_sound
    (fun p => ClaimsLinear p ∧ LastAccounted p)
    (fun m p p' hsound h _ hstep =>
      ⟨claimsLinear_step hsound h.1 hstep, lastAccounted_step hsound h.2 hstep⟩)
    ⟨claimsLinear_initialPool start, fun _ _ h => by cases h⟩ (allSteps_true _ ms _) hrun
  refine ⟨hlinear.nodup, fun hall nodeId park hlast hunused hlive hfree => ?_⟩
  have hholds := (run_invariant_of_sound AllHoldLive
    (fun m p p' hsound h hcond hstep => allHoldLive_step hsound h hcond hstep)
    (fun i => HoldsLive.of_held_eq_none (by cases i <;> rfl)) hall hrun).2
  obtain hused | hkey | ⟨i, claim, hheld, hpark⟩ := haccounted nodeId park hlast
  · exact absurd hused hunused
  · exact hkey
  -- whoever holds the claim is done, so it took the run for dead, and it was not
  obtain ⟨row, hrow, hover⟩ := hholds i nodeId claim hheld
  cases ht : p.tasks[i]? with
  | none => simp [Pool.locOf, ht, blank] at hheld
  | some t =>
    rw [locOf_of_getElem? ht] at hheld hover
    cases hdone : t.finished with
    | false => exact absurd hpark (hfree t (mem_of_getElem? ht) hdone claim hheld)
    | true =>
      have hdead := (hsound.post_of_finished ht hdone).2 (by rw [hheld]; rfl)
      have hterminal := hover hdead
      simp [hlive row hrow] at hterminal

/-! ## A timeout ends the park that armed it -/

/-- The job is a timeout of a wait of the node. -/
def Job.isTimeoutOf (n : String) : Job → Bool
  | .workflowEventTimeout nodeId _ _ => nodeId == n
  | _ => false

/-- The continuation has collected a timeout of the node, carries one out, or has parked
the node and is not done. -/
def armsTimeout (n : String) (t : Task Op Op.Res Local) : Bool :=
  (t.loc.pending.any fun e => e.job.isTimeoutOf n) ||
    (!t.finished && ((t.loc.job.any fun job => job.isTimeoutOf n) ||
      t.loc.lastPark.any fun parked => parked.1 == n))

/-- A timeout of the node can still fire. -/
def timeoutOutstanding (n : String) (p : RunPool) : Bool :=
  p.world.queue.any (Job.isTimeoutOf n) || p.tasks.any (armsTimeout n)

/-- A node parks only while no timeout of it is outstanding. -/
def parksAlone (m : RunMove) (p : RunPool) : Bool :=
  match nextOp m p with
  | some (.redis (.setClaim (.wait n) _)) => !timeoutOutstanding n p
  | _ => true

/-- The continuation can bring forth, or is, a timeout that the park armed. -/
inductive Arms (t : Task Op Op.Res Local) (n : String) (park : ℕ) : Prop
  | collected (e : Pending) (he : e ∈ t.loc.pending) (attempt : ℕ)
      (hjob : e.job = .workflowEventTimeout n attempt park)
  | job (hlive : t.finished = false) (attempt : ℕ)
      (hjob : t.loc.job = some (.workflowEventTimeout n attempt park))
  | parked (hlive : t.finished = false) (hpark : t.loc.lastPark = some (n, park))

/-- A timeout that the park armed is queued, or a continuation can bring it forth. -/
def Armed (p : RunPool) (n : String) (park : ℕ) : Prop :=
  (∃ attempt, .workflowEventTimeout n attempt park ∈ p.world.queue) ∨
    ∃ t ∈ p.tasks, Arms t n park

theorem timeoutOutstanding_of_armed {park : ℕ} (h : Armed p n park) :
    timeoutOutstanding n p = true := by
  simp only [timeoutOutstanding, Bool.or_eq_true, any_eq_true]
  obtain ⟨attempt, hqueued⟩ | ⟨t, ht, harms⟩ := h
  · exact .inl ⟨_, hqueued, by simp [Job.isTimeoutOf]⟩
  refine .inr ⟨t, ht, ?_⟩
  cases harms with
  | collected e he attempt hjob =>
    simp only [armsTimeout, Bool.or_eq_true, any_eq_true]
    exact .inl ⟨e, he, by simp [hjob, Job.isTimeoutOf]⟩
  | job hlive attempt hjob => simp [armsTimeout, hlive, hjob, Job.isTimeoutOf]
  | parked hlive hpark => simp [armsTimeout, hlive, hpark]

/-- A claim of the node is under its key or in somebody's hand. -/
def Claimable (p : RunPool) (n : String) (c : Claim) : Prop :=
  p.world.claims (.wait n) = some c ∨ ∃ i, (p.locOf blank i).held = some (.wait n, c)

/-- No timeout is older than a claim it could take; and none holds a younger one. -/
structure TimeoutsCurrent (p : RunPool) : Prop where
  armed : ∀ n park c, Armed p n park → Claimable p n c → c.park ≤ park
  held : ∀ t ∈ p.tasks, ∀ n attempt park key c,
    t.loc.job = some (.workflowEventTimeout n attempt park) → t.loc.held = some (key, c) →
    c.park ≤ park

section Arming

variable {park : ℕ} {c : Claim}

variable (ht : p.tasks[i]? = some t) (hprog : t.prog = .op o k) (hok : Allowed t.loc o)
  (hact : o.act env.runId i input t.loc p.world = some (r, w))

include ht in
theorem claimable_set
    (h : Claimable ⟨w, p.tasks.set i ⟨l', rest⟩⟩ n c) :
    w.claims (.wait n) = some c ∨ l'.held = some (.wait n, c) ∨ Claimable p n c := by
  obtain hkey | ⟨j, hj⟩ := h
  · exact .inl hkey
  by_cases hij : i = j
  · subst hij
    rw [locOf_set_self ht] at hj
    exact .inr (.inl hj)
  · rw [locOf_set_of_ne p.world hij] at hj
    exact .inr (.inr (.inr ⟨j, hj⟩))

include hprog hok

/-- Where a timeout comes from, after an operation: from before, or from the park that has
just been registered. -/
theorem arms_of_act (h : Arms ⟨o.record t.loc v r, k r⟩ n park) :
    Arms t n park ∨ ∃ nodeId, o = .redis (.setClaim (.wait n) nodeId) ∧
      (o.record t.loc v r).lastPark = some (n, park) := by
  have hlive : t.finished = false := by simp [Task.finished, hprog]
  cases h with
  | job _ attempt hjob =>
    rw [record_job] at hjob
    exact .inl (.job hlive attempt hjob)
  | parked _ hpark =>
    by_cases hset : ∃ key nodeId, o = .redis (.setClaim key nodeId)
    · obtain ⟨key, nodeId, rfl⟩ := hset
      cases key with
      | wait n' =>
        have hpair : (n', r) = (n, park) := Option.some.inj hpark
        cases hpair
        exact .inr ⟨nodeId, rfl, rfl⟩
      | approval | instruct => exact .inl (.parked hlive hpark)
    · refine .inl (.parked hlive ?_)
      cases o with
      | ctx o | run o | step o | queue o | audit o => cases o <;> exact hpark
      | redis o =>
        cases o with
        | setClaim key nodeId => exact absurd ⟨key, nodeId, rfl⟩ hset
        | _ => exact hpark
      | service | commit | diverge => exact hpark
  | collected e he attempt hjob =>
    refine .inl ?_
    cases o with
    | ctx o =>
      cases o with
      | pend task =>
        obtain hold | hnew := mem_append.mp he
        · exact .collected e hold attempt hjob
        -- collected just now, by the wait that was registered last
        obtain rfl := mem_singleton.mp hnew
        cases task with
        | workflowEventTimeout =>
          obtain ⟨last, hlast⟩ := hok
          simp only [Pending.job, hlast, Job.workflowEventTimeout.injEq] at hjob
          obtain ⟨rfl, -, rfl⟩ := hjob
          exact .parked hlive hlast
        | _ => cases hjob
      | _ => exact .collected e he attempt hjob
    | queue o =>
      cases o with
      | enqueueJob => exact .collected e he attempt hjob
      | dispatchNext => exact .collected e (mem_of_mem_drop he) attempt hjob
    | run o | step o | redis o | audit o => cases o <;> exact .collected e he attempt hjob
    | service | commit | diverge => exact .collected e he attempt hjob

include hact

/-- A timeout in the queue after an operation was there, or the continuation had it. -/
theorem queued_of_act {attempt : ℕ} (h : .workflowEventTimeout n attempt park ∈ w.queue) :
    .workflowEventTimeout n attempt park ∈ p.world.queue ∨ Arms t n park := by
  have hlive : t.finished = false := by simp [Task.finished, hprog]
  cases effect_of_act hact with
  | queue o =>
    cases o with
    | enqueueJob =>
      obtain hold | hnew := mem_append.mp h
      · exact .inl hold
      · obtain rfl := mem_singleton.mp hnew
        obtain ⟨attempt', hjob⟩ := hok
        exact .inr (.job hlive attempt' hjob)
    | dispatchNext =>
      obtain hold | hnew := mem_append.mp h
      · exact .inl hold
      · obtain ⟨e, he, hjob⟩ := mem_map.mp hnew
        exact .inr (.collected e (mem_of_mem_take he) attempt hjob)
  | redis | audit => exact .inl (by simpa using h)
  | ctx | run | step | service | commit => exact .inl h

include ht

/-- Where a timeout comes from, after an operation, in the whole pool. -/
theorem armed_of_act (h : Armed ⟨w, p.tasks.set i ⟨o.record t.loc v r, k r⟩⟩ n park) :
    Armed p n park ∨ ∃ nodeId, o = .redis (.setClaim (.wait n) nodeId) ∧
      (o.record t.loc v r).lastPark = some (n, park) := by
  obtain ⟨attempt, hqueued⟩ | ⟨u, hu, harms⟩ := h
  · obtain hold | harms := queued_of_act hprog hok hact hqueued
    · exact .inl (.inl ⟨attempt, hold⟩)
    · exact .inl (.inr ⟨t, mem_of_getElem? ht, harms⟩)
  · obtain hold | rfl := mem_or_eq_of_mem_set hu
    · exact .inl (.inr ⟨u, hold, harms⟩)
    · obtain hold | hnew := arms_of_act hprog hok harms
      · exact .inl (.inr ⟨t, mem_of_getElem? ht, hold⟩)
      · exact .inr hnew

omit hprog in
/-- Where a claim comes from, after an operation. -/
theorem claimable_of_act (h : Claimable ⟨w, p.tasks.set i ⟨o.record t.loc v r, k r⟩⟩ n c) :
    Claimable p n c ∨ ∃ nodeId, o = .redis (.setClaim (.wait n) nodeId) ∧
      c.park = p.world.parks := by
  have hhand : t.loc.held = some (.wait n, c) → Claimable p n c := by
    intro hheld
    exact .inr ⟨i, by rw [locOf_of_getElem? ht]; exact hheld⟩
  obtain hkey | hheld | hold := claimable_set ht h
  · -- under the key
    cases ho : o.movesClaim with
    | false => exact .inl (.inl ((claimsKept_of_act hact ho v).claims ▸ hkey))
    | true =>
      cases effect_of_act hact with
      | redis o =>
        cases o with
        | setClaim key nodeId =>
          obtain ⟨rfl, hnew⟩ | ⟨-, hc⟩ := claims_of_update hkey
          · cases hnew
            exact .inr ⟨nodeId, rfl, rfl⟩
          · exact .inl (.inl hc)
        | getdelClaim key | deleteClaim key =>
          obtain ⟨-, hnone⟩ | ⟨-, hc⟩ := claims_of_update hkey
          · cases hnone
          · exact .inl (.inl hc)
        | restoreClaim key =>
          obtain ⟨rfl, hback⟩ | ⟨-, hc⟩ := claims_of_update hkey
          · cases hback
            exact .inl (hhand hok)
          · exact .inl (.inl hc)
        | _ => cases ho
      | audit e =>
        refine .inl (.inl ?_)
        have hsame : (auditAct t.loc p.world e).claims = p.world.claims := by
          unfold auditAct
          split <;> rfl
        rwa [hsame] at hkey
      | _ => cases ho
  · -- in the hand of the continuation
    by_cases ho : ∃ key, o = .redis (.getdelClaim key)
    · obtain ⟨key, rfl⟩ := ho
      cases hact
      obtain ⟨rfl, hclaim⟩ := held_of_getdelClaim hok.1 hheld
      exact .inl (.inl hclaim)
    · exact .inl (hhand (held_of_record (fun key hkey => ho ⟨key, hkey⟩) hheld))
  · exact .inl hold

end Arming

/-- The claims there are belong to parks that have happened. -/
theorem ClaimsLinear.park_lt (h : ClaimsLinear p) {c : Claim} (hc : Claimable p n c) :
    c.park < p.world.parks := by
  obtain hkey | ⟨i, hi⟩ := hc
  · exact h.ledger.below c.park (.key (.wait n)) ⟨c, hkey, rfl⟩
  · exact h.ledger.below c.park (.hand i) ⟨.wait n, c, hi, rfl⟩

/-- **An operation keeps the timeouts current**, if a node parks alone. -/
theorem timeoutsCurrent_act (hlinear : ClaimsLinear p) (h : TimeoutsCurrent p)
    (ht : p.tasks[i]? = some t) (hprog : t.prog = .op o k) (hok : Allowed t.loc o)
    (hcond : parksAlone (.step i input) p = true)
    (hact : o.act env.runId i input t.loc p.world = some (r, w)) :
    TimeoutsCurrent ⟨w, p.tasks.set i ⟨o.record t.loc (p.world.run.seenBy i) r, k r⟩⟩ := by
  have hmem := mem_of_getElem? ht
  refine ⟨fun n park c harmed hclaim => ?_, fun u hu n attempt park key c hjob hheld => ?_⟩
  · obtain hbefore | ⟨nodeId, rfl, hlast⟩ := armed_of_act ht hprog hok hact harmed
    · obtain hthere | ⟨nodeId, rfl, -⟩ := claimable_of_act ht hok hact hclaim
      · exact h.armed n park c hbefore hthere
      · -- a park beside an outstanding timeout
        simp [parksAlone, nextOp_of_prog ht hprog, timeoutOutstanding_of_armed hbefore] at hcond
    · -- the timeout of this very park
      obtain ⟨rfl, -⟩ := Prod.mk.inj (Option.some.inj hact)
      obtain rfl : p.world.parks = park := (Prod.mk.inj (Option.some.inj hlast)).2
      obtain hthere | ⟨-, -, hpark⟩ := claimable_of_act ht hok hact hclaim
      · exact Nat.le_of_lt (hlinear.park_lt hthere)
      · exact Nat.le_of_eq hpark
  · obtain hold | rfl := mem_or_eq_of_mem_set hu
    · exact h.held u hold n attempt park key c hjob hheld
    rw [record_job] at hjob
    by_cases ho : ∃ key, o = .redis (.getdelClaim key)
    · obtain ⟨key', rfl⟩ := ho
      cases hact
      obtain ⟨hnone, -, hown⟩ := hok
      obtain rfl := hown n attempt park hjob
      have harms : Arms t n park := .job (by simp [Task.finished, hprog]) attempt hjob
      exact h.armed n park c (.inr ⟨t, hmem, harms⟩) (.inl (held_of_getdelClaim hnone hheld).2)
    · exact h.held t hmem n attempt park key c hjob
        (held_of_record (fun key hkey => ho ⟨key, hkey⟩) hheld)

/-- Moves from outside bring forth no timeout: a job that is taken was queued. -/
theorem timeoutsCurrent_env (h : TimeoutsCurrent p) (henv : e.act env p.world = some (w, new)) :
    TimeoutsCurrent ⟨w, p.tasks ++ new.map fun t => ⟨t.1, t.2⟩⟩ := by
  have hqueue : ∀ n attempt park, .workflowEventTimeout n attempt park ∈ w.queue →
      .workflowEventTimeout n attempt park ∈ p.world.queue := by
    intro n attempt park hjob
    cases e with
    | deliver =>
      simp only [Outside.act] at henv
      split at henv
      · cases henv
      · cases henv
        split at hjob
        · exact hjob
        · exact mem_of_mem_eraseIdx hjob
    | _ =>
      cases henv
      simpa using hjob
  have hstarted : ∀ u ∈ new.map (fun t => (⟨t.1, t.2⟩ : Task Op Op.Res Local)),
      u.loc.held = none ∧ ∀ n park, Arms u n park → Armed p n park := by
    intro u hu
    obtain ⟨s, hs, rfl⟩ := mem_map.mp hu
    obtain ⟨hheld, hpark, hpending⟩ := started_holds_nothing henv hs
    refine ⟨hheld, fun n park harms => ?_⟩
    cases harms with
    | collected e he =>
      simp [hpending] at he
    | parked hlive hlast =>
      simp [hpark] at hlast
    | job hlive attempt hjob =>
      obtain ⟨job, rfl, hqueued⟩ | rfl | ⟨reason, rfl⟩ | rfl := Outside.act_starts henv hs
      · obtain rfl : job = _ := Option.some.inj hjob
        exact .inl ⟨attempt, hqueued⟩
      · cases hjob
      · cases hjob
      · cases hjob
  refine ⟨fun n park c harmed hclaim => h.armed n park c ?_ ?_,
    fun u hu n attempt park key c hjob hheld => ?_⟩
  · obtain ⟨attempt, hqueued⟩ | ⟨u, hu, harms⟩ := harmed
    · exact .inl ⟨attempt, hqueue n attempt park hqueued⟩
    · obtain hold | hnew := mem_append.mp hu
      · exact .inr ⟨u, hold, harms⟩
      · exact (hstarted u hnew).2 n park harms
  · obtain hkey | ⟨i, hi⟩ := hclaim
    · exact .inl ((claims_of_env henv).1 ▸ hkey)
    · exact .inr ⟨i, (held_of_env henv).symm.trans hi⟩
  · obtain hold | hnew := mem_append.mp hu
    · exact h.held u hold n attempt park key c hjob hheld
    · simp [(hstarted u hnew).1] at hheld

theorem timeoutsCurrent_step (hsound : Sound env p) (hlinear : ClaimsLinear p)
    (h : TimeoutsCurrent p) (hcond : parksAlone m p = true)
    (hstep : step (machine env) m p = some p') : TimeoutsCurrent p' := by
  obtain ⟨i, input, t, o, k, r, w, ht, hprog, hact⟩ | ⟨e, w, new, henv⟩ := isStep_of_step hstep
  · exact timeoutsCurrent_act hlinear h ht hprog (hsound.ok_of_prog ht hprog) hcond hact
  · exact timeoutsCurrent_env h henv

theorem timeoutsCurrent_initialPool (start : Start) : TimeoutsCurrent (initialPool env start) := by
  refine ⟨fun n park c _ hclaim => ?_, fun t ht n attempt park key c _ hheld => ?_⟩
  · obtain hkey | ⟨i, hi⟩ := hclaim
    · cases hkey
    · cases i <;> cases hi
  · obtain rfl := mem_singleton.mp ht
    cases hheld

/-- **A wait's timeout job only ends the wait that armed it.**  In every run of every
workflow, under every schedule in which no node parks while a timeout of an earlier park
of it is outstanding, a timeout job that a park armed never takes the claim of a later
park. -/
theorem timeout_ends_its_own_park (env : Services) (start : Start) (ms : List RunMove)
    (hall : AllSteps (machine env) (fun m p => parksAlone m p = true) ms (initialPool env start))
    (p : RunPool) (hrun : run (machine env) ms (initialPool env start) = some p)
    (t : Task Op Op.Res Local) (ht : t ∈ p.tasks) (nodeId : String) (attempt park : ℕ)
    (hjob : t.loc.job = some (.workflowEventTimeout nodeId attempt park)) (key : ClaimKey)
    (claim : Claim) (hheld : t.loc.held = some (key, claim)) : claim.park ≤ park := by
  obtain ⟨-, -, hcurrent⟩ := run_invariant_of_sound
    (fun p => ClaimsLinear p ∧ TimeoutsCurrent p)
    (fun m p p' hsound h hcond hstep =>
      ⟨claimsLinear_step hsound h.1 hstep, timeoutsCurrent_step hsound h.1 h.2 hcond hstep⟩)
    ⟨claimsLinear_initialPool start, timeoutsCurrent_initialPool start⟩ hall hrun
  exact hcurrent.held t ht nodeId attempt park key claim hjob hheld

/-- A wait for a message in a room. -/
def messageNode (id : String) : NodeDef :=
  ⟨id, .waitForEvent, [("event_type", .str "message_in_room"), ("timeout_seconds", .int 60),
    ("chatroom_id", .str "6f1c2d4e-0000-4000-8000-000000000002")]⟩

/-- A message has come in that the wait of the node matches. -/
def message (nodeId : String) : List RunMove := [.env (.event nodeId)]

/-- A wait for a message, with a way out on timeout. -/
def oneMessage : Definition where
  entryNodeId := "t"
  nodes := [triggerNode, messageNode "w", endNode "e", endNode "f"]
  edges := [⟨"e1", "t", "w", none, none⟩, ⟨"e2", "w", "e", none, none⟩,
    ⟨"e3", "w", "f", some "timeout", none⟩]

/-- The wait is registered; a message comes in and its job is done before the transaction
that starts the run commits. -/
def messageBeforeCommit : List RunMove :=
  turns 0 21 ++ message "w" ++ deliver 0 ++ turns 1 4 ++ turns 0 9

/-- The claim is lost: the run is `WAITING`, everybody is done, nobody has resumed the
wait, and there is no claim under its key. -/
theorem claim_lost_before_commit :
    ∃ p row, runManually oneMessage messageBeforeCommit = some p ∧
      p.world.run.committed = some row ∧ row.state = .waiting ∧
      (∀ t ∈ p.tasks, t.finished = true) ∧ p.world.lastClaim "w" = some 0 ∧
      0 ∉ p.world.resumedParks ∧ p.world.claims (.wait "w") = none := by
  simp only [exists_and_left]
  decide +kernel

/-- A wait for a message beside a timer with a fan-out behind it. -/
def messageBesideFanOut : Definition where
  entryNodeId := "t"
  nodes := [triggerNode, ⟨"p", .parallel, []⟩, messageNode "w", timerNode "v",
    ⟨"q", .parallel, []⟩, timerNode "x", timerNode "y", allJoin "j", endNode "e"]
  edges := [⟨"e1", "t", "p", none, none⟩, ⟨"e2", "p", "w", none, none⟩,
    ⟨"e3", "p", "v", none, none⟩, ⟨"e4", "v", "q", none, none⟩, ⟨"e5", "q", "x", none, none⟩,
    ⟨"e6", "q", "y", none, none⟩, ⟨"e7", "w", "j", none, none⟩, ⟨"e8", "x", "j", none, none⟩,
    ⟨"e9", "y", "j", none, none⟩, ⟨"e10", "j", "e", none, none⟩]

/-- Both waits park; the timer elapses and its branch fans out, with the run `RUNNING`.  Then
the message comes in, and its job takes the claim. -/
def claimTaken : List RunMove :=
  turns 0 32 ++ deliver 0 ++ turns 1 19 ++ deliver 0 ++ turns 2 19 ++ deliver 1 ++ turns 3 26 ++
    message "w" ++ deliver 3 ++ turns 4 1

/-- It finds the run `RUNNING`, and gives the claim back. -/
def claimGivenBack : List RunMove := turns 4 5

/-- The claim that was taken is under its key again, and the job is to be tried once more. -/
theorem claim_kept_after_commit :
    ∃ p₁ t p₂, runManually messageBesideFanOut claimTaken = some p₁ ∧ p₁.tasks[4]? = some t ∧
      t.loc.held = some (.wait "w", ⟨"w", 0⟩) ∧ p₁.world.claims (.wait "w") = none ∧
      run (machine plainServices) claimGivenBack p₁ = some p₂ ∧
      .workflowEventResume "w" 1 ∈ p₂.world.queue ∧ p₂.world.resumedParks.Nodup ∧
      ∃ claim, p₂.world.claims (.wait "w") = some claim ∧ claim.park = 0 := by
  obtain ⟨p₁, hp₁, ⟨t, ht, hheld⟩, htaken, p₂, hp₂, hagain, hlive, hdone, hlast, hunused⟩ :
      ∃ p₁ ∈ runManually messageBesideFanOut claimTaken,
        (∃ t ∈ p₁.tasks[4]?, t.loc.held = some (.wait "w", ⟨"w", 0⟩)) ∧
        p₁.world.claims (.wait "w") = none ∧
        ∃ p₂ ∈ run (machine plainServices) claimGivenBack p₁,
          .workflowEventResume "w" 1 ∈ p₂.world.queue ∧
          (∀ row ∈ p₂.world.run.committed, row.state.isTerminal = false) ∧
          (∀ t ∈ p₂.tasks, t.finished = true) ∧ p₂.world.lastClaim "w" = some 0 ∧
          0 ∉ p₂.world.resumedParks := by
    decide +kernel
  obtain ⟨hnodup, hkept⟩ := single_resume plainServices ⟨messageBesideFanOut, "manual", [], false⟩
    (claimTaken ++ claimGivenBack) p₂ (run_append hp₁ hp₂)
  refine ⟨p₁, t, p₂, hp₁, ht, hheld, htaken, hp₂, hagain, hnodup,
    hkept (by decide +kernel) "w" 0 hlast hunused hlive ?_⟩
  intro t ht hunfinished
  simp [hdone t ht] at hunfinished

/-- A wait for a message in a loop with an agent. -/
def messageLoop : Definition where
  entryNodeId := "t"
  nodes := [triggerNode, messageNode "w", agentNode "a" [], endNode "f"]
  edges := [⟨"e1", "t", "w", none, none⟩, ⟨"e2", "w", "a", none, none⟩,
    ⟨"e3", "a", "w", some "success", none⟩, ⟨"e4", "w", "f", some "timeout", none⟩,
    ⟨"e5", "a", "f", some "failure", none⟩]

/-- A message resumes the first park, the agent answers, the wait parks again; then the
timeout of the first park fires. -/
def timeoutOfFirstPark : List RunMove :=
  turns 0 30 ++ message "w" ++ deliver 1 ++ turns 1 15 ++ answeredCall 1 ++ turns 1 21 ++
    deliver 0 ++ turns 2 1

/-- The timeout job that park 0 armed takes the claim of park 1, and resumes it. -/
theorem stale_timeout_ends_second_park :
    Accepted plainEnv messageLoop ∧
    ∃ p t claim p', runManually messageLoop timeoutOfFirstPark = some p ∧
      p.tasks[2]? = some t ∧ t.loc.job = some (.workflowEventTimeout "w" 0 0) ∧
      t.loc.held = some (.wait "w", claim) ∧ claim.park = 1 ∧
      run (machine plainServices) (turns 2 23) p = some p' ∧
      p'.world.resumedParks = [1, 0] := by
  refine ⟨⟨by decide +kernel, by decide +kernel⟩, ?_⟩
  obtain ⟨p, hp, ⟨t, ht, hjob, ⟨key, claim⟩, hheld, hkey, hpark⟩, p', hp', hresumed⟩ :
      ∃ p ∈ runManually messageLoop timeoutOfFirstPark,
        (∃ t ∈ p.tasks[2]?, t.loc.job = some (.workflowEventTimeout "w" 0 0) ∧
          ∃ held ∈ t.loc.held, held.1 = .wait "w" ∧ held.2.park = 1) ∧
        ∃ p' ∈ run (machine plainServices) (turns 2 23) p, p'.world.resumedParks = [1, 0] := by
    decide +kernel
  obtain rfl : key = .wait "w" := hkey
  exact ⟨p, t, claim, p', hp, ht, hjob, hheld, hpark, hp', hresumed⟩

/-- A message resumes the first park, and the timeout of that park fires before the agent
answers; the wait parks again, and the timeout of the second park fires. -/
def timeoutOfSecondPark : List RunMove :=
  turns 0 30 ++ message "w" ++ deliver 1 ++ turns 1 15 ++ deliver 0 ++ turns 2 1 ++
    answeredCall 1 ++ turns 1 21 ++ deliver 0 ++ turns 3 1

/-- The timeout of the first park has taken nothing, that of the second takes the claim of the
second. -/
theorem second_timeout_ends_its_park :
    ∃ p t u claim, runManually messageLoop timeoutOfSecondPark = some p ∧
      p.tasks[2]? = some u ∧ u.loc.job = some (.workflowEventTimeout "w" 0 0) ∧
      u.loc.held = none ∧ p.world.resumedParks = [0] ∧ p.tasks[3]? = some t ∧
      t.loc.held = some (.wait "w", claim) ∧ claim.park ≤ 1 := by
  obtain ⟨p, hp, ⟨u, hu, hjobu, hnone⟩, hresumed, t, ht, hjob, ⟨key, claim⟩, hheld, hkey⟩ :
      ∃ p ∈ runManually messageLoop timeoutOfSecondPark,
        (∃ u ∈ p.tasks[2]?, u.loc.job = some (.workflowEventTimeout "w" 0 0) ∧
          u.loc.held = none) ∧
        p.world.resumedParks = [0] ∧
        ∃ t ∈ p.tasks[3]?, t.loc.job = some (.workflowEventTimeout "w" 0 1) ∧
          ∃ held ∈ t.loc.held, held.1 = .wait "w" := by
    decide +kernel
  obtain rfl : key = .wait "w" := hkey
  exact ⟨p, t, u, claim, hp, hu, hjobu, hnone, hresumed, ht, hheld,
    timeout_ends_its_own_park plainServices ⟨messageLoop, "manual", [], false⟩ timeoutOfSecondPark
      (by decide +kernel) p hp t (mem_of_getElem? ht) "w" 0 1 hjob (.wait "w") claim hheld⟩

end Smap.Workflow
