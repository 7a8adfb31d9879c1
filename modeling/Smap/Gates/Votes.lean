import Mathlib.Data.Finset.Card
import Mathlib.Tactic.Linarith

/-!
# Votes on an approval gate

The records of an approval gate (`contexts/orchestration/domain/models.py`) and the
resolution rule `ApprovalService._evaluate_votes`.

The rule walks over the ballots in the order they were cast.  With one ballot for each
approver the order does not matter, and the rule is a function of who has voted what:
`verdict`, stated by counting approvers.  A verdict does not change when more approvers
vote, and there is one as soon as all of them have.
-/

namespace Smap.Gates

open List

abbrev Uuid := ℕ

abbrev Time := ℕ

inductive ApprovalMode where
  | single
  | majority
  | consensus
  deriving DecidableEq

inductive ApprovalState where
  | pending
  | approved
  | rejected
  | timeoutLeader
  deriving DecidableEq

def ApprovalState.value : ApprovalState → String
  | .pending => "pending"
  | .approved => "approved"
  | .rejected => "rejected"
  | .timeoutLeader => "timeout_leader"

structure Approval where
  id : Uuid
  workflowRunId : Uuid
  mode : ApprovalMode
  leaderAgentId : Uuid
  approverAgentIds : List Uuid
  timeoutSeconds : ℕ
  state : ApprovalState
  startedAt : Time
  endedAt : Option Time
  chatroomId : Option Uuid
  deriving DecidableEq

structure ApprovalVote where
  approvalId : Uuid
  voterAgentId : Uuid
  vote : Bool
  rationale : Option String
  castAt : Time
  deriving DecidableEq

open ApprovalVote

/-- The configuration of a gate, with what its constructor checks. -/
structure ApprovalGateConfig where
  mode : ApprovalMode
  approvers : List Uuid
  leaderAgentId : Uuid
  timeoutSeconds : ℕ
  question : Option String
  timeout_range : 1 ≤ timeoutSeconds ∧ timeoutSeconds ≤ 86400
  leader_mem : leaderAgentId ∈ approvers

/-- The row `create_gate` inserts. -/
def ApprovalGateConfig.gate (config : ApprovalGateConfig) (id workflowRunId : Uuid)
    (chatroomId : Option Uuid) (now : Time) : Approval where
  id := id
  workflowRunId := workflowRunId
  mode := config.mode
  leaderAgentId := config.leaderAgentId
  approverAgentIds := config.approvers
  timeoutSeconds := config.timeoutSeconds
  state := .pending
  startedAt := now
  endedAt := none
  chatroomId := chatroomId

/-! ## The rule -/

/-- A dictionary in the order its keys were first set. -/
def setItem (d : List (Uuid × Bool)) (k : Uuid) (b : Bool) : List (Uuid × Bool) :=
  if k ∈ d.map Prod.fst then d.map fun x => if x.1 = k then (k, b) else x else d ++ [(k, b)]

/-- The latest ballot of each voter. -/
def latest (votes : List ApprovalVote) : List (Uuid × Bool) :=
  votes.foldl (fun d v => setItem d v.voterAgentId v.vote) []

def Approval.approverSet (a : Approval) : Finset Uuid := a.approverAgentIds.toFinset

/-- The ballots that count. -/
def Approval.approverVotes (a : Approval) (votes : List ApprovalVote) : List ApprovalVote :=
  votes.filter (·.voterAgentId ∈ a.approverSet)

/-- The state the last ballot of the leader stands for. -/
def Approval.leaderState (a : Approval) (votes : List ApprovalVote) : Option ApprovalState :=
  ((a.approverVotes votes).filter (·.voterAgentId = a.leaderAgentId)).getLast?.map fun v =>
    if v.vote then .approved else .rejected

/-- `_evaluate_votes`. -/
def evaluateVotes (a : Approval) (votes : List ApprovalVote) : Option ApprovalState :=
  let approverVotes := a.approverVotes votes
  match a.mode with
  | .single => a.leaderState votes
  | .majority =>
    let latest := latest approverVotes
    let n := a.approverSet.card
    let approves := (latest.filter Prod.snd).length
    let rejects := latest.length - approves
    if n < approves * 2 then some .approved
    else if n < rejects * 2 then some .rejected
    else if latest.length < n then none
    else a.leaderState votes
  | .consensus =>
    if approverVotes.length < a.approverSet.card then none
    else if approverVotes.all (·.vote) then some .approved
    else if approverVotes.all (!·.vote) then some .rejected
    else some .timeoutLeader

variable {a : Approval} {votes : List ApprovalVote}

theorem leaderState_ne_pending : a.leaderState votes ≠ some .pending := by
  intro h
  obtain ⟨v, -, hv⟩ := Option.map_eq_some_iff.mp h
  cases hvote : v.vote <;> simp [hvote] at hv

/-- The rule never decides that a gate stays as it is. -/
theorem evaluateVotes_ne_pending : evaluateVotes a votes ≠ some .pending := by
  unfold evaluateVotes
  cases a.mode with
  | single => exact leaderState_ne_pending
  | majority =>
    dsimp only
    split
    · simp
    · split
      · simp
      · split
        · simp
        · exact leaderState_ne_pending
  | consensus =>
    dsimp only
    split
    · simp
    · split
      · simp
      · split
        · simp
        · simp

/-! ## The verdict -/

/-- Who has voted, and what. -/
abbrev Ballots := Uuid → Option Bool

namespace Approval

variable (a : Approval) (b : Ballots)

/-- How many approvers have voted so. -/
def count (x : Bool) : ℕ := (a.approverSet.filter fun v => b v = some x).card

/-- The leader's vote, if the leader is an approver. -/
def leaderVote : Option Bool := if a.leaderAgentId ∈ a.approverSet then b a.leaderAgentId else none

/-- What a vote of the leader decides. -/
def ruling : Option ApprovalState :=
  (a.leaderVote b).map fun x => if x then .approved else .rejected

/-- The resolution rule, by counting approvers. -/
def verdict : Option ApprovalState :=
  let n := a.approverSet.card
  let approves := a.count b true
  let rejects := a.count b false
  match a.mode with
  | .single => a.ruling b
  | .majority =>
    if n < approves * 2 then some .approved
    else if n < rejects * 2 then some .rejected
    else if approves + rejects < n then none
    else a.ruling b
  | .consensus =>
    if approves + rejects < n then none
    else if rejects = 0 then some .approved
    else if approves = 0 then some .rejected
    else some .timeoutLeader

end Approval

/-- A list with one ballot for each voter records who has voted what. -/
structure Records (votes : List ApprovalVote) (b : Ballots) : Prop where
  nodup : (votes.map voterAgentId).Nodup
  mem : ∀ v x, (∃ t ∈ votes, t.voterAgentId = v ∧ t.vote = x) ↔ b v = some x

/-! ## The rule computes the verdict -/

theorem foldl_setItem (votes : List ApprovalVote) (d : List (Uuid × Bool))
    (h : (d.map Prod.fst ++ votes.map voterAgentId).Nodup) :
    votes.foldl (fun d v => setItem d v.voterAgentId v.vote) d =
      d ++ votes.map fun v => (v.voterAgentId, v.vote) := by
  induction votes generalizing d with
  | nil => simp
  | cons v votes ih =>
    have hv : v.voterAgentId ∉ d.map Prod.fst := by
      intro hmem
      exact (nodup_append.mp h).2.2 _ hmem _ (by simp) rfl
    rw [foldl_cons, setItem, if_neg hv, ih]
    · simp
    · simpa [append_assoc] using h

/-- With one ballot each, nothing is overwritten. -/
theorem latest_eq (h : (votes.map voterAgentId).Nodup) :
    latest votes = votes.map fun v => (v.voterAgentId, v.vote) := by
  have hfold := foldl_setItem votes [] (by simpa using h)
  rwa [nil_append] at hfold

open Approval

variable {b : Ballots}

namespace Records

variable (h : Records votes b)

include h

theorem nodup_approverVotes : ((a.approverVotes votes).map voterAgentId).Nodup :=
  h.nodup.sublist (List.filter_sublist.map _)

/-- Ballots of approvers are counted once each. -/
theorem length_filter (x : Bool) :
    ((a.approverVotes votes).filter (·.vote = x)).length = a.count b x := by
  have hnodup : (((a.approverVotes votes).filter (·.vote = x)).map voterAgentId).Nodup :=
    h.nodup_approverVotes.sublist (List.filter_sublist.map _)
  rw [Approval.count, ← length_map voterAgentId, ← toFinset_card_of_nodup hnodup]
  congr 1
  ext v
  simp only [mem_toFinset, mem_map, mem_filter, approverVotes, decide_eq_true_eq, Finset.mem_filter]
  constructor
  · rintro ⟨t, ⟨⟨ht, hset⟩, hx⟩, rfl⟩
    exact ⟨hset, (h.mem _ _).mp ⟨t, ht, rfl, hx⟩⟩
  · rintro ⟨hset, hb⟩
    obtain ⟨t, ht, rfl, hx⟩ := (h.mem _ _).mpr hb
    exact ⟨t, ⟨⟨ht, hset⟩, hx⟩, rfl⟩

theorem length_approverVotes :
    (a.approverVotes votes).length = a.count b true + a.count b false := by
  rw [← h.length_filter true, ← h.length_filter false,
    length_eq_length_filter_add (fun v => decide (v.vote = true))]
  simp

theorem leaderState_eq : a.leaderState votes = a.ruling b := by
  rw [leaderState, ruling]
  cases hlast : ((a.approverVotes votes).filter (·.voterAgentId = a.leaderAgentId)).getLast? with
  | some t =>
    have ht := mem_of_getLast? hlast
    simp only [approverVotes, mem_filter, decide_eq_true_eq] at ht
    obtain ⟨⟨hmem, hset⟩, hleader⟩ := ht
    have hb := (h.mem _ _).mp ⟨t, hmem, hleader, rfl⟩
    rw [leaderVote, if_pos (hleader ▸ hset), hb]
    rfl
  | none =>
    have hnone : a.leaderVote b = none := by
      rw [leaderVote]
      split
      · rename_i hset
        refine Option.eq_none_iff_forall_ne_some.mpr fun x hx => ?_
        obtain ⟨t, ht, hleader, -⟩ := (h.mem _ _).mpr hx
        rw [getLast?_eq_none_iff, filter_eq_nil_iff] at hlast
        refine hlast t (mem_filter.mpr ⟨ht, ?_⟩) ?_
        · simpa [hleader] using hset
        · simpa using hleader
      · rfl
    rw [hnone]
    rfl

/-- **The rule computes the verdict**, whatever the order of the ballots. -/
theorem evaluateVotes_eq : evaluateVotes a votes = a.verdict b := by
  have hlen := h.length_approverVotes (a := a)
  cases hmode : a.mode with
  | single => simp only [evaluateVotes, verdict, hmode, h.leaderState_eq]
  | majority =>
    have hlatest := latest_eq (h.nodup_approverVotes (a := a))
    have happroves : ((latest (a.approverVotes votes)).filter Prod.snd).length =
        a.count b true := by
      rw [hlatest, filter_map, length_map, ← h.length_filter true]
      congr 1
      refine filter_congr fun v _ => ?_
      simp
    have htotal : (latest (a.approverVotes votes)).length =
        a.count b true + a.count b false := by rw [hlatest, length_map, hlen]
    simp only [evaluateVotes, verdict, hmode, happroves, htotal, h.leaderState_eq,
      Nat.add_sub_cancel_left]
  | consensus =>
    have hall : ∀ x, (a.approverVotes votes).all (·.vote = !x) = true ↔ a.count b x = 0 := by
      intro x
      rw [← h.length_filter x, length_eq_zero_iff, filter_eq_nil_iff, all_eq_true]
      refine forall₂_congr fun v _ => ?_
      cases v.vote <;> cases x <;> simp
    have happrove : (a.approverVotes votes).all (·.vote) = true ↔ a.count b false = 0 := by
      simpa using hall false
    have hreject : (a.approverVotes votes).all (!·.vote) = true ↔ a.count b true = 0 := by
      simpa using hall true
    simp only [evaluateVotes, verdict, hmode, hlen, happrove, hreject]

end Records

/-! ## More ballots -/

/-- Every ballot of the one is a ballot of the other. -/
def Ballots.Le (b b' : Ballots) : Prop := ∀ v x, b v = some x → b' v = some x

namespace Approval

variable {b' : Ballots}

theorem count_mono (h : b.Le b') (x : Bool) : a.count b x ≤ a.count b' x :=
  Finset.card_le_card (Finset.monotone_filter_right _ fun v _ => h v x)

/-- Each approver has one ballot at most. -/
theorem count_add_count_le (a : Approval) (b : Ballots) :
    a.count b true + a.count b false ≤ a.approverSet.card := by
  rw [count, count, ← Finset.card_union_of_disjoint]
  · exact Finset.card_le_card (Finset.union_subset (Finset.filter_subset _ _)
      (Finset.filter_subset _ _))
  · refine Finset.disjoint_filter.mpr fun v _ htrue hfalse => ?_
    simp [htrue] at hfalse

variable {s : ApprovalState}

theorem ruling_mono (h : b.Le b') (hs : a.ruling b = some s) : a.ruling b' = some s := by
  unfold ruling leaderVote at hs ⊢
  split at hs
  · rename_i hset
    obtain ⟨x, hx, rfl⟩ := Option.map_eq_some_iff.mp hs
    rw [if_pos hset, h _ _ hx]
    rfl
  · cases hs

/-- **A verdict is final**: more ballots do not change it. -/
theorem verdict_mono (h : b.Le b') (hs : a.verdict b = some s) : a.verdict b' = some s := by
  have happroves := count_mono (a := a) h true
  have hrejects := count_mono (a := a) h false
  have hle := count_add_count_le a b'
  unfold verdict at hs ⊢
  cases hmode : a.mode with
  | single =>
    simp only [hmode] at hs ⊢
    exact ruling_mono h hs
  | majority =>
    simp only [hmode] at hs ⊢
    split at hs
    · rwa [if_pos (by omega)]
    split at hs
    · rwa [if_neg (by omega), if_pos (by omega)]
    · split at hs
      · cases hs
      · -- all have voted: nothing can be added
        rw [if_neg (by omega), if_neg (by omega), if_neg (by omega)]
        exact ruling_mono h hs
  | consensus =>
    simp only [hmode] at hs ⊢
    split at hs
    · cases hs
    · have hsame : a.count b' true = a.count b true ∧ a.count b' false = a.count b false := by
        omega
      rw [hsame.1, hsame.2, if_neg (by omega)]
      exact hs

/-- All approvers have voted. -/
def Complete (a : Approval) (b : Ballots) : Prop := ∀ v ∈ a.approverAgentIds, (b v).isSome

theorem count_add_count_of_complete (h : a.Complete b) :
    a.count b true + a.count b false = a.approverSet.card := by
  refine Nat.le_antisymm (count_add_count_le a b) ?_
  refine Nat.le_trans (Finset.card_le_card fun v hv => ?_) (Finset.card_union_le _ _)
  obtain ⟨x, hx⟩ := Option.isSome_iff_exists.mp (h v (mem_toFinset.mp hv))
  cases x <;> simp [hv, hx]

variable (hleader : a.leaderAgentId ∈ a.approverAgentIds)

include hleader

/-- **There is a verdict as soon as all approvers have voted.** -/
theorem verdict_of_complete (h : a.Complete b) : ∃ s, a.verdict b = some s := by
  have htotal := count_add_count_of_complete h
  obtain ⟨x, hx⟩ := Option.isSome_iff_exists.mp (h _ hleader)
  have hruling : a.ruling b = some (if x then .approved else .rejected) := by
    simp [ruling, leaderVote, approverSet, hleader, hx]
  unfold verdict
  cases hmode : a.mode with
  | single => exact ⟨_, hruling⟩
  | majority =>
    dsimp only
    split
    · exact ⟨_, rfl⟩
    · split
      · exact ⟨_, rfl⟩
      · rw [if_neg (by omega)]
        exact ⟨_, hruling⟩
  | consensus =>
    dsimp only
    rw [if_neg (by omega)]
    split
    · exact ⟨_, rfl⟩
    · split
      · exact ⟨_, rfl⟩
      · exact ⟨_, rfl⟩

/-- Without ballots there is no verdict. -/
theorem verdict_of_no_ballots (h : ∀ v, b v = none) : a.verdict b = none := by
  have hcount : ∀ x, a.count b x = 0 := by
    intro x
    simp [count, h]
  have hpos : 0 < a.approverSet.card :=
    Finset.card_pos.mpr ⟨_, mem_toFinset.mpr hleader⟩
  have hruling : a.ruling b = none := by simp [ruling, leaderVote, h]
  cases hmode : a.mode with
  | single => simp only [verdict, hmode, hruling]
  | majority | consensus => simp [verdict, hmode, hcount, hpos]

end Approval

/-! ## Ballots of a majority vote, in any order -/

section Majority

variable {votes' : List ApprovalVote}

/-- Only the ballots of approvers matter. -/
theorem evaluateVotes_approverVotes (a : Approval) (votes : List ApprovalVote) :
    evaluateVotes a (a.approverVotes votes) = evaluateVotes a votes := by
  have hidem : a.approverVotes (a.approverVotes votes) = a.approverVotes votes := by
    simp [approverVotes]
  simp only [evaluateVotes, leaderState, hidem]

theorem records_find? (h : (votes.map voterAgentId).Nodup) :
    Records votes fun v => (votes.find? (·.voterAgentId = v)).map vote := by
  refine ⟨h, fun v x => ?_⟩
  rw [Option.map_eq_some_iff]
  constructor
  · rintro ⟨t, ht, rfl, rfl⟩
    obtain ⟨t', ht'⟩ : ∃ t', votes.find? (·.voterAgentId = t.voterAgentId) = some t' := by
      rw [← Option.isSome_iff_exists, find?_isSome]
      exact ⟨t, ht, by simp⟩
    have hvoter : t'.voterAgentId = t.voterAgentId := by simpa using find?_some ht'
    have hsame := inj_on_of_nodup_map h (mem_of_find?_eq_some ht') ht hvoter
    exact ⟨t', ht', by rw [hsame]⟩
  · rintro ⟨t, ht, rfl⟩
    exact ⟨t, mem_of_find?_eq_some ht, by simpa using find?_some ht, rfl⟩

/-- Whoever has voted in the one list has voted so in the other. -/
theorem Records.le {b' : Ballots} (h : Records votes b) (h' : Records votes' b')
    (hsub : votes ⊆ votes') : b.Le b' := by
  intro v x hx
  obtain ⟨t, ht, hv⟩ := (h.mem v x).mpr hx
  exact (h'.mem v x).mp ⟨t, hsub ht, hv⟩

/-- **A majority decision is final, and fair when all have voted.**  The ballots counted later
are those counted so far and others, in any order. -/
theorem majority_final_and_fair (a : Approval) (hmode : a.mode = .majority)
    (hleader : a.leaderAgentId ∈ a.approverAgentIds) (votes more votes' : List ApprovalVote)
    (hperm : votes'.Perm (votes ++ more))
    (honce : ((a.approverVotes votes').map voterAgentId).Nodup) :
    (∀ s, evaluateVotes a votes = some s → evaluateVotes a votes' = some s) ∧
      ((∀ v ∈ a.approverAgentIds, ∃ t ∈ votes', t.voterAgentId = v) →
        let approvals := ((a.approverVotes votes').filter (·.vote)).length
        let n := a.approverSet.card
        evaluateVotes a votes' =
          some (if n < approvals * 2 ∨ approvals * 2 = n ∧
              ∃ t ∈ votes', t.voterAgentId = a.leaderAgentId ∧ t.vote = true
            then .approved else .rejected)) := by
  have hsub : a.approverVotes votes ⊆ a.approverVotes votes' := by
    intro t ht
    rw [approverVotes, mem_filter] at ht ⊢
    exact ⟨hperm.mem_iff.mpr (mem_append_left more ht.1), ht.2⟩
  have hfirst : ((a.approverVotes votes).map voterAgentId).Nodup := by
    have hall := ((hperm.filter _).map voterAgentId).nodup_iff.mp honce
    rw [filter_append, map_append] at hall
    exact hall.of_append_left
  have hrec' := records_find? honce
  rw [← evaluateVotes_approverVotes a votes, ← evaluateVotes_approverVotes a votes',
    (records_find? hfirst).evaluateVotes_eq, hrec'.evaluateVotes_eq]
  refine ⟨fun s hs => verdict_mono ((records_find? hfirst).le hrec' hsub) hs, ?_⟩
  intro hall approvals n
  set b' : Ballots := fun v =>
    ((a.approverVotes votes').find? (·.voterAgentId = v)).map vote
  have hvoted {t : ApprovalVote} (ht : t ∈ votes') (hv : t.voterAgentId ∈ a.approverAgentIds) :
      b' t.voterAgentId = some t.vote := by
    refine (hrec'.mem _ _).mp ⟨t, ?_, rfl, rfl⟩
    simpa [approverVotes, approverSet, ht] using hv
  have hcomplete : a.Complete b' := by
    intro v hv
    obtain ⟨t, ht, rfl⟩ := hall v hv
    rw [hvoted ht hv]
    rfl
  have htotal := count_add_count_of_complete hcomplete
  have happrovals : approvals = a.count b' true := by
    rw [← hrec'.length_filter true]
    simp [approvals, approverVotes]
  obtain ⟨t, ht, hvoter⟩ := hall _ hleader
  have hb := hvoter ▸ hvoted ht (hvoter ▸ hleader)
  have hruling : a.ruling b' = some (if t.vote then .approved else .rejected) := by
    simp [ruling, leaderVote, approverSet, hleader, hb]
  have hlead : (∃ t ∈ votes', t.voterAgentId = a.leaderAgentId ∧ t.vote = true) ↔
      t.vote = true := by
    constructor
    · rintro ⟨t', ht', hvoter', hvote⟩
      have hb' := hvoted ht' (hvoter' ▸ hleader)
      rw [hvoter', hb] at hb'
      rw [Option.some.inj hb', hvote]
    · exact fun hvote => ⟨t, ht, hvoter, hvote⟩
  simp only [verdict, hmode, hlead, happrovals, hruling]
  by_cases happroved : n < a.count b' true * 2
  · rw [if_pos happroved, if_pos (.inl happroved)]
  by_cases hrejected : n < a.count b' false * 2
  · rw [if_neg happroved, if_pos hrejected, if_neg (by omega)]
  -- neither side has a majority, so the two are equal and the leader decides
  rw [if_neg happroved, if_neg hrejected, if_neg (by omega)]
  have htie : a.count b' true * 2 = n := by omega
  simp [htie]

/-- Two approvers, the first of whom leads. -/
def pairGate : Approval :=
  ⟨0, 0, .majority, 1, [1, 2], 300, .pending, 0, none, none⟩

def ballot (voter : Uuid) (vote : Bool) : ApprovalVote := ⟨0, voter, vote, none, 0⟩

theorem majority_tie_decided :
    evaluateVotes pairGate [ballot 2 true] = none ∧
      evaluateVotes pairGate [ballot 1 false, ballot 2 true] = some .rejected := by
  have hfair := (majority_final_and_fair pairGate rfl (by decide) [ballot 2 true]
    [ballot 1 false] [ballot 1 false, ballot 2 true] (.swap _ _ _) (by decide)).2 (by decide)
  exact ⟨by decide, hfair.trans (by decide)⟩

end Majority

end Smap.Gates
