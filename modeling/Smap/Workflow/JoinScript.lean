import Smap.Lib.EpochLatch
import Smap.Lib.Redis

/-!
# The join's arrival script

`_JOIN_ARRIVE_LUA` of `executors/join.py`, run atomically by Redis, over string keys
that fold in the run, the node and the track.  The script refines the epoch latch: the
three keys of a track hold the state of one latch (`Holds`), one call makes one step of
it (`joinArrive_spec`), and the keys of the other track are not touched.
-/

namespace Smap.Workflow

open Redis EpochLatch List Function

inductive Track where
  | fan
  | pass
  deriving DecidableEq, Repr

def Track.value : Track → String
  | .fan => "fan"
  | .pass => "pass"

/-- `_JOIN_ARRIVE_LUA`: the number of arrivals in the epoch, and whether this one is
the finalizer.  `none` is an error reply.  The `EXPIRE` calls are left out. -/
def joinArrive (runId nodeId : String) (track : Track) (branchId : String)
    (fireThreshold totalBranches : ℤ) (r : Store String) :
    Option ((ℕ × Bool) × Store String) := do
  let epochKey := "wf:join:" ++ runId ++ ":" ++ nodeId ++ ":" ++ track.value ++ ":epoch"
  let epoch := (← Redis.get r epochKey).getD "0"
  let setKey := "wf:join:" ++ runId ++ ":" ++ nodeId ++ ":" ++ track.value ++ ":" ++ epoch
  let firedKey := setKey ++ ":fired"
  let r ← sadd r setKey branchId
  let arrivals ← scard r setKey
  let (r, isFinalizer) :=
    if fireThreshold ≤ arrivals then setNX r firedKey (.str "1") else (r, false)
  let r ← if totalBranches ≤ arrivals then incr (del (del r setKey) firedKey) epochKey
    else some r
  return ((arrivals, isFinalizer), r)

/-! ## Key names -/

/-- The three kinds of key of one track. -/
inductive JoinKey where
  | epoch
  | set (e : ℕ)
  | fired (e : ℕ)
  deriving DecidableEq

def JoinKey.text : JoinKey → String
  | .epoch => "epoch"
  | .set e => toString e
  | .fired e => toString e ++ ":fired"

def key (runId nodeId : String) (track : Track) (k : JoinKey) : String :=
  "wf:join:" ++ runId ++ ":" ++ nodeId ++ ":" ++ (track.value ++ ":" ++ k.text)

variable {n : ℕ} {c : Char} {k k' : JoinKey}

theorem isDigit_of_mem_toString (h : c ∈ (toString n).toList) : c.isDigit = true := by
  rw [Nat.toString_eq_repr, Nat.toList_repr] at h
  exact Nat.isDigit_of_mem_toDigits (Nat.succ_pos 9) (le_refl 10) h

/-- A number is not a text with a character that is no digit. -/
theorem toString_ne_of_mem {s : String} (hc : c ∈ s.toList) (hdigit : c.isDigit = false) :
    toString n ≠ s := by
  intro h
  rw [← h] at hc
  simp [isDigit_of_mem_toString hc] at hdigit

theorem JoinKey.text_injective (h : k.text = k'.text) : k = k' := by
  have hcolon : ∀ n : ℕ, ':' ∈ (toString n ++ ":fired").toList := by
    intro n
    rw [String.toList_append]
    exact mem_append_right _ (by decide)
  have hepoch : ':' ∉ "epoch".toList := by decide
  cases k with
  | epoch =>
    cases k' with
    | epoch => rfl
    | set => exact absurd h.symm (toString_ne_of_mem (c := 'p') (by decide) (by decide))
    | fired e =>
      simp only [text] at h
      rw [h] at hepoch
      exact absurd (hcolon e) hepoch
  | set =>
    cases k' with
    | epoch => exact absurd h (toString_ne_of_mem (c := 'p') (by decide) (by decide))
    | set => rw [toString_injective h]
    | fired e' => exact absurd h (toString_ne_of_mem (hcolon e') (by decide))
  | fired e =>
    cases k' with
    | epoch =>
      simp only [text] at h
      rw [← h] at hepoch
      exact absurd (hcolon e) hepoch
    | set => exact absurd h.symm (toString_ne_of_mem (hcolon e) (by decide))
    | fired e' =>
      have hnum : toString e = toString e' := (String.append_left_inj _).mp h
      rw [toString_injective hnum]

/-- Keys of one join are equal only for the same track and the same kind. -/
theorem key_inj {runId nodeId : String} {t t' : Track} :
    key runId nodeId t k = key runId nodeId t' k' ↔ t = t' ∧ k = k' := by
  constructor
  · intro h
    have htail := (String.append_right_inj _).mp h
    have hchars := congrArg (fun s : String => s.toList.head?) htail
    have ht : t = t' := by
      cases t <;> cases t' <;> simp [Track.value] at hchars ⊢
    subst ht
    exact ⟨rfl, JoinKey.text_injective ((String.append_right_inj _).mp htail)⟩
  · rintro ⟨rfl, rfl⟩
    rfl

/-! ## The script refines the latch -/

section Refinement

variable (runId nodeId : String)

/-- The keys of one track represent a latch state.  Later epochs have left no key. -/
structure Holds (track : Track) (r : Store String) (s : State String) : Prop where
  epoch : r (key runId nodeId track .epoch) = some (.int s.epoch) ∨
    r (key runId nodeId track .epoch) = none ∧ s.epoch = 0
  arrived : r (key runId nodeId track (.set s.epoch)) =
    if s.arrived = ∅ then none else some (.set s.arrived)
  fired : r (key runId nodeId track (.fired s.epoch)) =
    if s.fired then some (.str "1") else none
  later : ∀ e, s.epoch < e → r (key runId nodeId track (.set e)) = none ∧
    r (key runId nodeId track (.fired e)) = none

variable {runId nodeId}

variable {track : Track} {r : Store String} {s : State String}

/-- A track reads only its own keys. -/
theorem Holds.congr {r' : Store String} (h : Holds runId nodeId track r s)
    (hsame : ∀ k, r' (key runId nodeId track k) = r (key runId nodeId track k)) :
    Holds runId nodeId track r' s where
  epoch := by
    rw [hsame]
    exact h.epoch
  arrived := by
    rw [hsame]
    exact h.arrived
  fired := by
    rw [hsame]
    exact h.fired
  later := by
    intro e he
    rw [hsame, hsame]
    exact h.later e he

/-- The epoch text the script splices into the other key names. -/
theorem Holds.get_epoch (h : Holds runId nodeId track r s) :
    ∃ text, Redis.get r (key runId nodeId track .epoch) = some text ∧
      text.getD "0" = toString s.epoch := by
  rcases h.epoch with hr | ⟨hr, he⟩
  · exact ⟨some (toString s.epoch), by simp only [Redis.get, hr], rfl⟩
  · exact ⟨none, by simp only [Redis.get, hr], by rw [he]; rfl⟩

/-- `INCR` moves a track whose set and latch are gone to its next epoch. -/
theorem Holds.incr_epoch {r₀ : Store String} (h : Holds runId nodeId track r₀ s)
    (hsame : ∀ k, k ≠ .set s.epoch → k ≠ .fired s.epoch →
      r (key runId nodeId track k) = r₀ (key runId nodeId track k)) :
    ∃ r', incr r (key runId nodeId track .epoch) = some r' ∧
      Holds runId nodeId track r' { epoch := s.epoch + 1 } ∧
      ∀ k, k ≠ key runId nodeId track .epoch → r' k = r k := by
  have hepoch : r (key runId nodeId track .epoch) = r₀ (key runId nodeId track .epoch) :=
    hsame .epoch (by simp) (by simp)
  have hincr : incr r (key runId nodeId track .epoch) =
      some (put r (key runId nodeId track .epoch) (.int (s.epoch + 1))) := by
    rcases h.epoch with hr | ⟨hr, he⟩
    · simp only [incr, hepoch, hr]
    · simp only [incr, hepoch, hr, he, Nat.zero_add]
  refine ⟨_, hincr, ⟨?_, ?_, ?_, ?_⟩, ?_⟩
  · left
    simp
  · obtain ⟨hset, -⟩ := h.later (s.epoch + 1) (Nat.lt_succ_self _)
    simp [key_inj, hsame, hset]
  · obtain ⟨-, hlatch⟩ := h.later (s.epoch + 1) (Nat.lt_succ_self _)
    simp [key_inj, hsame, hlatch]
  · intro e he
    have hlt : s.epoch < e := lt_trans (Nat.lt_succ_self _) he
    have hne : e ≠ s.epoch := by omega
    obtain ⟨hset, hlatch⟩ := h.later e hlt
    simp [key_inj, hsame, hset, hlatch, hne]
  · intro k hk
    simp [hk]

theorem epochKey_eq (track : Track) :
    "wf:join:" ++ runId ++ ":" ++ nodeId ++ ":" ++ track.value ++ ":epoch" =
      key runId nodeId track .epoch := by
  have hlit : (":epoch" : String) = ":" ++ "epoch" := rfl
  simp only [key, JoinKey.text, hlit, String.append_assoc]

theorem setKey_eq (track : Track) (e : ℕ) :
    "wf:join:" ++ runId ++ ":" ++ nodeId ++ ":" ++ track.value ++ ":" ++ toString e =
      key runId nodeId track (.set e) := by
  simp only [key, JoinKey.text, String.append_assoc]

theorem firedKey_eq (track : Track) (e : ℕ) :
    key runId nodeId track (.set e) ++ ":fired" = key runId nodeId track (.fired e) := by
  simp only [key, JoinKey.text, String.append_assoc]

/-- **One call is one step of the latch.**  It raises no error, reports the size of the
epoch's set and the latch's decision, leaves the track holding the next state, and
writes no key of anything else. -/
theorem joinArrive_spec (h : Holds runId nodeId track r s) (branchId : String) (fire total : ℤ) :
    ∃ r', joinArrive runId nodeId track branchId fire total r =
        some (((insert branchId s.arrived).card,
          (arrive fire.toNat total.toNat s branchId).1), r') ∧
      Holds runId nodeId track r' (arrive fire.toNat total.toNat s branchId).2 ∧
      ∀ k, (∀ x, k ≠ key runId nodeId track x) → r' k = r k := by
  obtain ⟨text, hget, htext⟩ := h.get_epoch
  have hscard : scard (put r (key runId nodeId track (.set s.epoch))
      (.set (insert branchId s.arrived))) (key runId nodeId track (.set s.epoch)) =
        some (insert branchId s.arrived).card := by
    simp [scard]
  have hlatch : put r (key runId nodeId track (.set s.epoch)) (.set (insert branchId s.arrived))
      (key runId nodeId track (.fired s.epoch)) = if s.fired then some (.str "1") else none := by
    simpa [key_inj] using h.fired
  obtain ⟨r₂, hset, hfired, hframe⟩ :=
    setNX_latch hlatch (fire ≤ ((insert branchId s.arrived).card : ℤ))
  have hfire : decide (fire ≤ ((insert branchId s.arrived).card : ℤ)) =
      decide (fire.toNat ≤ (insert branchId s.arrived).card) := by
    rw [decide_eq_decide]
    exact Int.toNat_le.symm
  have hother : ∀ k, k ≠ .set s.epoch → k ≠ .fired s.epoch →
      r₂ (key runId nodeId track k) = r (key runId nodeId track k) := by
    intro k hk hk'
    rw [hframe _ (by simp [key_inj, hk'])]
    simp [key_inj, hk]
  simp only [joinArrive, epochKey_eq, hget, Option.bind_eq_bind, Option.bind_some, htext,
    setKey_eq, firedKey_eq, sadd_of_members h.arrived, hscard, hset]
  by_cases hclose : total ≤ ((insert branchId s.arrived).card : ℤ)
  · have hclose' : total.toNat ≤ (insert branchId s.arrived).card := Int.toNat_le.mpr hclose
    obtain ⟨r₃, hincr, hholds, hframe'⟩ := h.incr_epoch
      (r := del (del r₂ (key runId nodeId track (.set s.epoch)))
        (key runId nodeId track (.fired s.epoch)))
      (fun k hk hk' => by simpa [key_inj, hk, hk'] using hother k hk hk')
    rw [arrive_of_total_le _ hclose']
    refine ⟨r₃, ?_, hholds, ?_⟩
    · rw [if_pos hclose, hincr]
      simp [arrive, hfire]
    · intro k hk
      rw [hframe' k (hk _), del_apply, if_neg (hk _), del_apply, if_neg (hk _), hframe k (hk _)]
      simp [hk]
  · have hopen : (insert branchId s.arrived).card < total.toNat := by omega
    rw [arrive_of_lt_total _ hopen]
    refine ⟨r₂, ?_, ⟨?_, ?_, ?_, ?_⟩, ?_⟩
    · rw [if_neg hclose]
      simp [arrive, hfire]
    · rw [hother .epoch (by simp) (by simp)]
      exact h.epoch
    · rw [hframe _ (by simp [key_inj])]
      simp
    · rw [hfired, hfire]
    · intro e he
      obtain ⟨h1, h2⟩ := h.later e he
      have hne : e ≠ s.epoch := by
        intro heq
        rw [heq] at he
        exact lt_irrefl _ he
      rw [hother _ (by simp [hne]) (by simp), hother _ (by simp) (by simp [hne])]
      exact ⟨h1, h2⟩
    · intro k hk
      rw [hframe k (hk _)]
      simp [hk]

end Refinement

/-! ## Runs of arrivals on both tracks -/

/-- A call of the script: the track it is counted on and the branch it registers. -/
structure Arrival where
  track : Track
  branchId : String
  deriving DecidableEq, Repr

/-- The thresholds of a track: a join's own on the fan track, one and one for passes. -/
def thresholds (fire total : ℤ) : Track → ℤ × ℤ
  | .fan => (fire, total)
  | .pass => (1, 1)

/-- A sequence of calls for one join: the finalizer decisions, in order. -/
def arrivals (runId nodeId : String) (fire total : ℤ) :
    Store String → List Arrival → Option (List Bool × Store String)
  | r, [] => some ([], r)
  | r, a :: rest => do
    let ((_, isFinalizer), r') ← joinArrive runId nodeId a.track a.branchId
      (thresholds fire total a.track).1 (thresholds fire total a.track).2 r
    let (decisions, r'') ← arrivals runId nodeId fire total r' rest
    return (isFinalizer :: decisions, r'')

/-- The branches that arrived on a track, in order. -/
def branchIds (track : Track) (as : List Arrival) : List String :=
  (as.filter fun a => a.track = track).map Arrival.branchId

/-- The decisions made on a track, in order. -/
def onTrack (track : Track) (as : List Arrival) (ds : List Bool) : List Bool :=
  ((as.zip ds).filter fun p => p.1.track = track).map Prod.snd

/-- No key of the join is set, on either track. -/
def NoJoinKeys (runId nodeId : String) (r : Store String) : Prop :=
  ∀ track k, r (key runId nodeId track k) = none

section Runs

variable {runId nodeId : String}

theorem NoJoinKeys.holds {r : Store String} (h : NoJoinKeys runId nodeId r) (track : Track) :
    Holds runId nodeId track r {} where
  epoch := Or.inr ⟨h track .epoch, rfl⟩
  arrived := h track (.set 0)
  fired := h track (.fired 0)
  later := fun e _ => ⟨h track (.set e), h track (.fired e)⟩

/-- The latch a track's thresholds make. -/
def trackRun (fire total : ℤ) (track : Track) : State String → List String →
    List Bool × State String :=
  EpochLatch.run (thresholds fire total track).1.toNat (thresholds fire total track).2.toNat

/-- **Each track runs its own latch**, whatever arrives on the other. -/
theorem arrivals_spec (fire total : ℤ) (as : List Arrival) :
    ∀ (r : Store String) (s : Track → State String),
      (∀ track, Holds runId nodeId track r (s track)) →
      ∃ ds r', arrivals runId nodeId fire total r as = some (ds, r') ∧
        ds.length = as.length ∧
        ∀ track, Holds runId nodeId track r'
            (trackRun fire total track (s track) (branchIds track as)).2 ∧
          onTrack track as ds = (trackRun fire total track (s track) (branchIds track as)).1 := by
  induction as with
  | nil =>
    intro r s h
    exact ⟨[], r, rfl, rfl, fun track => ⟨h track, rfl⟩⟩
  | cons a rest ih =>
    intro r s h
    obtain ⟨r₁, hcall, hholds, hframe⟩ := joinArrive_spec (h a.track) a.branchId
      (thresholds fire total a.track).1 (thresholds fire total a.track).2
    obtain ⟨ds, r₂, hrest, hlen, htracks⟩ := ih r₁
      (Function.update s a.track (arrive (thresholds fire total a.track).1.toNat
        (thresholds fire total a.track).2.toNat (s a.track) a.branchId).2) (by
          intro track
          by_cases ht : track = a.track
          · subst ht
            rw [update_self]
            exact hholds
          · rw [update_of_ne ht]
            refine (h track).congr fun k => hframe _ fun x hx => ?_
            exact ht (key_inj.mp hx).1)
    refine ⟨(arrive (thresholds fire total a.track).1.toNat
      (thresholds fire total a.track).2.toNat (s a.track) a.branchId).1 :: ds, r₂, ?_, ?_, ?_⟩
    · simp only [arrivals, hcall, hrest, Option.bind_eq_bind, Option.bind_some]
      rfl
    · rw [length_cons, length_cons, hlen]
    · intro track
      obtain ⟨hstate, hdecs⟩ := htracks track
      by_cases ht : a.track = track
      · subst ht
        rw [update_self] at hstate hdecs
        simp only [branchIds, onTrack, zip_cons_cons, filter_cons, decide_true, if_true, map_cons]
        exact ⟨hstate, congrArg _ hdecs⟩
      · rw [update_of_ne (Ne.symm ht)] at hstate hdecs
        simp only [branchIds, onTrack, zip_cons_cons, filter_cons, ht, decide_false,
          Bool.false_eq_true, if_false]
        exact ⟨hstate, hdecs⟩

theorem branchIds_filter_self (track : Track) (as : List Arrival) :
    branchIds track (as.filter fun a => a.track = track) = branchIds track as := by
  simp [branchIds]

theorem onTrack_filter_self (track : Track) {as : List Arrival} {ds : List Bool}
    (hlen : ds.length = as.length) (hall : ∀ a ∈ as, a.track = track) :
    onTrack track as ds = ds := by
  unfold onTrack
  rw [filter_eq_self.mpr]
  · rw [map_snd_zip (le_of_eq hlen)]
  · intro p hp
    rw [decide_eq_true_eq]
    exact hall p.1 (of_mem_zip hp).1

/-- **Track independence and one-shot firing.**  From a store without keys of the join,
every sequence of arrivals on the two tracks runs without error, and

* the decisions on the fan track are those of its own arrivals alone;
* they are made epoch by epoch: inside an epoch the finalizer is the arrival at which
  the number of distinct branches crosses the threshold, and there is at most one;
* an epoch closes exactly when its distinct branches are complete, and the keys then
  hold the next epoch, with no arrivals and no latch until something arrives in it;
* every arrival on the pass track is a finalizer. -/
theorem join_tracks_one_shot (runId nodeId : String) (fire total : ℤ) (hfire : 1 ≤ fire)
    (htotal : 1 ≤ total) (r : Store String) (hr : NoJoinKeys runId nodeId r) (as : List Arrival) :
    ∃ ds r', arrivals runId nodeId fire total r as = some (ds, r') ∧ ds.length = as.length ∧
      (∃ r'', arrivals runId nodeId fire total r (as.filter fun a => a.track = .fan) =
        some (onTrack .fan as ds, r'')) ∧
      onTrack .fan as ds =
        (epochs total.toNat [] (branchIds .fan as)).1.flatMap (flags fire.toNat ∅) ++
          flags fire.toNat ∅ (epochs total.toNat [] (branchIds .fan as)).2 ∧
      (∀ ep ∈ (epochs total.toNat [] (branchIds .fan as)).1 ++
          [(epochs total.toNat [] (branchIds .fan as)).2],
        (flags fire.toNat ∅ ep).count true ≤ 1) ∧
      (∀ ep ∈ (epochs total.toNat [] (branchIds .fan as)).1, ∃ before last,
        ep = before ++ [last] ∧ (before.toFinset.card : ℤ) < total ∧
          (ep.toFinset.card : ℤ) = total) ∧
      ((epochs total.toNat [] (branchIds .fan as)).2.toFinset.card : ℤ) < total ∧
      Holds runId nodeId .fan r'
        { epoch := (epochs total.toNat [] (branchIds .fan as)).1.length
          arrived := (epochs total.toNat [] (branchIds .fan as)).2.toFinset
          fired := decide
            (fire ≤ ((epochs total.toNat [] (branchIds .fan as)).2.toFinset.card : ℤ)) } ∧
      ∀ d ∈ onTrack .pass as ds, d = true := by
  have hfire' : 1 ≤ fire.toNat := by omega
  have htotal' : 1 ≤ total.toNat := by omega
  have hempty : ([] : List String).toFinset.card < total.toNat := by
    rw [toFinset_nil, Finset.card_empty]
    omega
  have hfresh : ({} : State String).Fresh := ⟨rfl, rfl⟩
  obtain ⟨ds, r', hrun, hlen, htracks⟩ := arrivals_spec fire total as r (fun _ => {}) hr.holds
  obtain ⟨hfan, hfanDs⟩ := htracks .fan
  have hpassDs := (htracks .pass).2
  rw [trackRun] at hfan hfanDs hpassDs
  simp only [thresholds, Int.toNat_one] at hfan hfanDs hpassDs
  refine ⟨ds, r', hrun, hlen, ?_, ?_, ?_, ?_, ?_, ?_, ?_⟩
  · -- the fan arrivals alone run the same latch from the same state
    obtain ⟨ds', r'', hrun', hlen', htracks'⟩ :=
      arrivals_spec fire total (as.filter fun a => a.track = .fan) r (fun _ => {}) hr.holds
    refine ⟨r'', ?_⟩
    have hsame := (htracks' .fan).2
    rw [branchIds_filter_self, onTrack_filter_self .fan hlen' (by simp)] at hsame
    rw [hrun', hsame, hfanDs]
    rfl
  · rw [hfanDs, run_decisions hfire' htotal' hfresh]
    rfl
  · intro ep _
    rw [count_flags_empty hfire']
    split <;> omega
  · intro ep hep
    obtain ⟨before, last, hsplit, hlt, heq⟩ := closed_spec htotal' [] _ hempty ep hep
    exact ⟨before, last, hsplit, by omega, by omega⟩
  · have hopen := card_open_lt htotal' [] (branchIds .fan as) hempty
    omega
  · rw [run_state hfire' htotal' hfresh] at hfan
    simpa using hfan
  · intro d hd
    rw [hpassDs, (run_one_one hfresh _).1] at hd
    exact eq_of_mem_replicate hd

end Runs

/-- Two fan branches with a pass between them, on an empty store. -/
theorem join_tracks_one_shot_example :
    ∃ ds r', arrivals "r" "j" 2 2 empty
        [⟨.fan, "a"⟩, ⟨.pass, "l"⟩, ⟨.fan, "b"⟩] = some (ds, r') ∧ ds = [false, true, true] := by
  obtain ⟨ds, r', hrun, hlen, -, hfan, -, -, -, -, hpass⟩ :=
    join_tracks_one_shot "r" "j" 2 2 (by decide) (by decide) empty (fun _ _ => rfl)
      [⟨.fan, "a"⟩, ⟨.pass, "l"⟩, ⟨.fan, "b"⟩]
  refine ⟨ds, r', hrun, ?_⟩
  match ds, hlen with
  | [d₁, d₂, d₃], _ =>
    have h13 : [d₁, d₃] = [false, true] := hfan.trans (by decide)
    have h2 : d₂ = true := hpass d₂ (by simp [onTrack])
    simp only [List.cons.injEq, and_true] at h13
    rw [h13.1, h2, h13.2]

end Smap.Workflow
