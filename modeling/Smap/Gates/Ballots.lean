import Smap.Gates.Sessions

/-!
# Which ballots are counted

An approver casts a ballot and evaluates the votes in one transaction, which sees the
ballots committed so far and its own.  Nobody comes back to the gate after that: if the
last two approvers cast theirs side by side, neither transaction sees all ballots, and the
gate stays pending although everyone has voted.

Where every transaction finds the ballots of the others committed when it reads them, the
gate is resolved as soon as the ballots allow it, and to the state that all of them give.
An approver who votes again with another ballot must find the gate still pending, and no
vote under way.
-/

namespace Smap.Gates

open Program RowVersions Versioned Function Option Approval

/-- The ballots as they will be once every session has committed. -/
def World.ballots (w : World) : Ballots := fun v => (w.votes.newest v).map ApprovalVote.vote

/-- No other session has a ballot that is not committed. -/
def World.othersCommitted (w : World) (i : ℕ) : Bool :=
  w.votes.keys.all fun v => (w.votes.row v).freeFor i

/-- Votes are read when the ballots of the others are committed.  A ballot that replaces a
different one is cast when nobody else is voting and the gate is pending. -/
def counted (i : ℕ) (_ : Notes) (o : Op) (w : World) : Bool :=
  match o with
  | .listForApproval => w.othersCommitted i
  | .cast v =>
    (w.ballots v.voterAgentId).all (fun x => x == v.vote) ||
      (w.othersCommitted i && w.approval.committed.all fun a => a.state == .pending)
  | _ => true

variable {gate : Approval} {calls : List Call} {N : ℕ → Notes} {w : World} {i : ℕ}

theorem draft_of_othersCommitted (h : w.othersCommitted i = true) (v : Uuid) :
    (w.votes.row v).draft = none ∨ ∃ b, (w.votes.row v).draft = some (i, b) := by
  by_cases hv : v ∈ w.votes.keys
  · exact draft_of_freeFor (List.all_eq_true.mp h v hv)
  · exact .inl (w.votes.listed v hv).2

/-- What a session reads records what it sees. -/
theorem records_listForApproval (h : Held gate calls N w) (i : ℕ) :
    Records (w.listForApproval i) fun v => ((w.votes.row v).seenBy i).map ApprovalVote.vote := by
  refine ⟨h.nodup_listForApproval i, fun v x => ?_⟩
  rw [map_eq_some_iff]
  constructor
  · rintro ⟨b, hb, rfl, rfl⟩
    exact ⟨b, h.mem_listForApproval.mp hb, rfl⟩
  · rintro ⟨b, hb, rfl⟩
    have hkey : b.voterAgentId = v := (h.rows v).seenBy hb
    exact ⟨b, h.mem_listForApproval.mpr (hkey ▸ hb), hkey, rfl⟩

/-- **A session that finds the ballots of the others committed evaluates all ballots.** -/
theorem evaluateVotes_listForApproval (h : Held gate calls N w)
    (hcom : ∀ v, (w.votes.row v).draft = none ∨ ∃ b, (w.votes.row v).draft = some (i, b))
    {a : Approval} (ha : IsGate gate a) :
    evaluateVotes a (w.listForApproval i) = gate.verdict w.ballots := by
  have hsame : (fun v => ((w.votes.row v).seenBy i).map ApprovalVote.vote) = w.ballots := by
    funext v
    rw [seenBy_eq_newest (hcom v)]
    rfl
  rw [ha.evaluateVotes_eq, (records_listForApproval h i).evaluateVotes_eq, hsame]

/-- The session is voting: its ballot is not committed, and it has not tried to resolve the
gate. -/
def Notes.Voting (l : Notes) : Prop :=
  l.ballot.isSome ∧ l.committed = false ∧ l.swap = none

/-- It has evaluated the votes and is going to resolve the gate by them. -/
def Notes.Finds (l : Notes) (s : ApprovalState) : Prop :=
  l.Voting ∧ ∃ a votes, l.gate = some a ∧ l.tally = some votes ∧ evaluateVotes a votes = some s

/-- It has still to evaluate the votes, or to resolve the gate by them. -/
def Notes.Owes (l : Notes) : Prop := l.Voting ∧ l.tally = none ∨ ∃ s, l.Finds s

/-- What the ballots cast so far say about the gate: a resolved gate has the state they
give; so has one that a session is about to resolve; and if they decide a pending gate,
some session is going to. -/
structure Tallied (gate : Approval) (calls : List Call) (N : ℕ → Notes) (w : World) : Prop where
  held : Held gate calls N w
  settled : ∀ a, w.approval.newest = some a → a.resolved = true →
    gate.verdict w.ballots = some a.state
  found : ∀ i s, (N i).Finds s → gate.verdict w.ballots = some s
  owed : ∀ a s, w.approval.newest = some a → a.resolved = false →
    gate.verdict w.ballots = some s → ∃ i, (N i).Owes
  kept : ∀ i b, (N i).ballot = some b → (w.ballots b.voterAgentId).isSome

namespace Tallied

variable {w' : World} {c : Call}

theorem initial {claim : Expiring.Keyspace Unit Claim} {clock : Time} (hN : ∀ i, N i = .blank)
    (hpending : gate.state = .pending) (hleader : gate.leaderAgentId ∈ gate.approverAgentIds) :
    Tallied gate calls N (.initial gate clock claim) := by
  refine ⟨.initial hN, fun a ha hres => ?_, fun i s hs => ?_, fun a s _ _ hs => ?_,
    fun i b hb => ?_⟩
  · obtain rfl := Option.some.inj ha
    simp [resolved, hpending] at hres
  · have hb := hs.1.1
    rw [hN] at hb
    cases hb
  · have hnone : gate.verdict (World.initial gate clock claim).ballots = none :=
      verdict_of_no_ballots hleader fun _ => rfl
    rw [hnone] at hs
    cases hs
  · rw [hN] at hb
    cases hb

variable {l : Notes} {v : ApprovalVote} {t : Table Uuid ApprovalVote} {j : ℕ}

/-- An operation that changes neither the ballots nor the newest version of the gate. -/
theorem noted (h : Tallied gate calls N w) (hheld : Held gate calls (Function.update N i l) w')
    (hgate : w'.approval.newest = w.approval.newest) (hballots : w'.ballots = w.ballots)
    (hballot : l.ballot = (N i).ballot) (hfound : ∀ s, l.Finds s → gate.verdict w.ballots = some s)
    (howed : ∀ a s, w.approval.newest = some a → a.resolved = false →
      gate.verdict w.ballots = some s → (N i).Owes → l.Owes) :
    Tallied gate calls (Function.update N i l) w' := by
  refine ⟨hheld, ?_, ?_, ?_, ?_⟩
  · rw [hgate, hballots]
    exact h.settled
  · rw [hballots]
    exact fun j => update_elim hfound fun j _ => h.found j
  · rw [hgate, hballots]
    intro a s ha hpending hs
    obtain ⟨j, hj⟩ := h.owed a s ha hpending hs
    have howes : (N j).Owes → (Function.update N i l j).Owes :=
      update_elim (howed a s ha hpending hs) fun _ _ => id
    exact ⟨j, howes hj⟩
  · rw [hballots]
    refine fun j => update_elim (fun b hb => ?_) fun j _ => h.kept j
    exact h.kept i b (hballot ▸ hb)

theorem ballots_cast (ht : w.votes.upsert i v.voterAgentId v = some t) :
    ({ w with votes := t } : World).ballots =
      Function.update w.ballots v.voterAgentId (some v.vote) := by
  funext k
  simp only [World.ballots, Table.newest_upsert ht]
  by_cases hk : k = v.voterAgentId
  · subst hk
    rw [update_self, update_self]
    rfl
  · rw [update_of_ne hk, update_of_ne hk]
    rfl

/-- If nobody else has an uncommitted ballot, nobody else is voting. -/
theorem eq_of_voting (h : Held gate calls N w) (hothers : w.othersCommitted i = true)
    (hballot : (N j).ballot.isSome) (hopen : (N j).committed = false) : j = i := by
  obtain ⟨b, hb⟩ := isSome_iff_exists.mp hballot
  have hd := h.ballot_held j b hb hopen
  obtain hnone | ⟨b', hd'⟩ := draft_of_othersCommitted hothers b.voterAgentId
  · simp [hnone] at hd
  · rw [hd'] at hd
    exact (Prod.mk.inj (Option.some.inj hd)).1.symm

/-- A session that has resolved the gate and not committed has an uncommitted ballot. -/
theorem voting_of_draft (h : Held gate calls N w)
    (hcast : ∀ c ∈ calls, ∃ v x r, c = .castVote v x r) {a : Approval}
    (hd : w.approval.draft = some (j, a)) : (N j).ballot.isSome ∧ (N j).committed = false := by
  obtain ⟨hswap, hopen, -⟩ := h.gate_draft j a hd
  cases hc : calls[j]? with
  | none =>
    rw [h.silent j hc] at hswap
    cases hswap
  | some c =>
    have hp := h.proper j c hc
    obtain ⟨v, x, r, rfl⟩ := hcast c (List.mem_of_getElem? hc)
    exact ⟨hp.tally v x r rfl (hp.swap (hswap ▸ rfl)), hopen⟩

/-- A ballot that does not replace a different one adds to the others. -/
theorem le_update {b : Ballots} {v : Uuid} {x : Bool} (h : (b v).all (fun y => y == x) = true) :
    b.Le (Function.update b v (some x)) := by
  intro k y hy
  by_cases hk : k = v
  · subst hk
    rw [hy, all_some, beq_iff_eq] at h
    rw [update_self, h]
  · rwa [update_of_ne hk]

theorem not_owes_of_evaluated (h : l.ballot.isSome → l.Evaluated) : ¬ l.Owes := by
  rintro (⟨hvoting, hnone⟩ | ⟨s, hvoting, a', votes', ha', hvotes', hs⟩)
  · obtain ⟨a, votes, -, hvotes, -⟩ := h hvoting.1
    cases hnone.symm.trans hvotes
  · obtain ⟨a, votes, ha, hvotes, ⟨heval, -⟩ | ⟨s', b, hswap⟩⟩ := h hvoting.1
    · cases ha.symm.trans ha'
      cases hvotes.symm.trans hvotes'
      cases heval.symm.trans hs
    · cases hvoting.2.2.symm.trans hswap

variable (h : Tallied gate calls N w) (hcast : ∀ c ∈ calls, ∃ v x r, c = .castVote v x r)
  (hc : calls[i]? = some c)

include h hcast hc

/-- A ballot is cast: it adds to the others, or nobody else is voting on a pending gate. -/
theorem cast (hok : c.Ok (N i) (.cast v)) (hcond : counted i (N i) (.cast v) w = true)
    (ht : w.votes.upsert i v.voterAgentId v = some t) :
    Tallied gate calls (Function.update N i { N i with ballot := some v })
      { w with votes := t } := by
  have hheld := h.held.cast hc hok ht
  have hballots := ballots_cast ht
  obtain ⟨-, htally, hswap, hopen, -⟩ := hok
  simp only [counted, Bool.or_eq_true, Bool.and_eq_true] at hcond
  refine ⟨hheld, ?_, ?_, ?_, ?_⟩
  · rw [hballots]
    intro a ha hres
    obtain hadds | ⟨hothers, hpending⟩ := hcond
    · exact verdict_mono (le_update hadds) (h.settled a ha hres)
    exfalso
    cases hd : w.approval.draft with
    | none =>
      rw [newest_of_draft_eq_none hd] at ha
      rw [ha, all_some, beq_iff_eq] at hpending
      simp [resolved, hpending] at hres
    | some =>
      obtain ⟨hvoting, hstill⟩ := voting_of_draft h.held hcast hd
      obtain rfl := eq_of_voting h.held hothers hvoting hstill
      have hdone := (h.held.gate_draft _ _ hd).1
      simp [hswap] at hdone
  · rw [hballots]
    refine fun j => update_elim (fun s hs => ?_) fun j hj s hs => ?_
    · obtain ⟨-, a, votes, -, hvotes, -⟩ := hs
      cases htally.symm.trans hvotes
    · obtain hadds | ⟨hothers, -⟩ := hcond
      · exact verdict_mono (le_update hadds) (h.found j s hs)
      · exact absurd (eq_of_voting h.held hothers hs.1.1 hs.1.2.1) hj
  · intro a s _ _ _
    refine ⟨i, ?_⟩
    rw [update_self]
    exact .inl ⟨⟨rfl, hopen, hswap⟩, htally⟩
  · rw [hballots]
    have hgrows : ∀ k, (w.ballots k).isSome →
        (Function.update w.ballots v.voterAgentId (some v.vote) k).isSome := by
      intro k hk
      by_cases hkv : k = v.voterAgentId
      · rw [hkv, update_self]
        rfl
      · rwa [update_of_ne hkv]
    refine fun j => update_elim (fun b hb => ?_) fun j _ b hb => hgrows _ (h.kept j b hb)
    cases hb
    rw [update_self]
    rfl

/-- The gate is resolved, or found resolved. -/
theorem update {s : ApprovalState} {ended : Option Time} (hok : c.Ok (N i) (.updateState s ended))
    {b : Bool} {r : Versioned Approval resolved}
    (hcas : casState w.approval i s ended = some (b, r)) :
    Tallied gate calls (Function.update N i { N i with swap := some (s, b) })
      { w with approval := r } := by
  have hheld := h.held.update hc hok hcas
  obtain ⟨hswap, -, hopen, a, votes, hgate, htally, hdec⟩ := hok
  obtain ⟨v, x, rationale, rfl⟩ := hcast c (List.mem_of_getElem? hc)
  have hballot := (h.held.proper i _ hc).tally v x rationale rfl (htally ▸ rfl)
  have hverdict := h.found i s ⟨⟨hballot, hopen, hswap⟩, a, votes, hgate, htally, hdec⟩
  have hnot : ∀ s', ¬ ({ N i with swap := some (s, b) } : Notes).Finds s' :=
    fun s' hs => nomatch hs.1.2.2
  obtain ⟨rfl, rfl, hres⟩ | ⟨rfl, -, g, -, -, hd, -⟩ := Held.cas_cases h.held.created hcas
  · refine h.noted hheld rfl rfl rfl (fun s' hs => absurd hs (hnot s')) ?_
    intro g s' hg hpending
    simp [hg, any_some, hpending] at hres
  · refine ⟨hheld, fun g' hg' _ => ?_, ?_, fun g' s' hg' hpending => ?_, ?_⟩
    · rw [newest_of_draft hd] at hg'
      cases hg'
      exact hverdict
    · exact fun j => update_elim (fun s' hs => absurd hs (hnot s')) fun j _ => h.found j
    · rw [newest_of_draft hd] at hg'
      cases hg'
      exact absurd hpending (by
        simpa [resolved] using Held.ne_pending_of_decides hdec)
    · exact fun j => update_elim (h.kept i) fun j _ => h.kept j

/-- **Every operation that meets the condition keeps the tally.** -/
theorem step {o : Op} (hok : c.Ok (N i) o) (hcond : counted i (N i) o w = true) {input : Bool}
    {r : Res o} (hact : act i o input w = some (r, w')) :
    Tallied gate calls (Function.update N i (note (N i) o r)) w' := by
  have hheld := h.held.step hc hok hact
  cases o with
  | getApproval =>
    cases hact
    have hnone : ¬ (N i).ballot.isSome := by simp [hok.1]
    refine h.noted hheld rfl rfl rfl (fun s hs => absurd hs.1.1 hnone) ?_
    rintro - - - - - (⟨hvoting, -⟩ | ⟨s, hs⟩)
    · exact absurd hvoting.1 hnone
    · exact absurd hs.1.1 hnone
  | cast =>
    obtain ⟨t, ht, ⟨⟩⟩ := map_eq_some_iff.mp hact
    exact h.cast hcast hc hok hcond ht
  | listForApproval =>
    cases hact
    obtain ⟨htally, -, -, hread, -⟩ := hok
    obtain ⟨a, ha⟩ := isSome_iff_exists.mp hread
    have heval := evaluateVotes_listForApproval h.held (draft_of_othersCommitted hcond)
      ((h.held.proper i c hc).read a ha)
    refine h.noted hheld rfl rfl rfl ?_ ?_
    · rintro s ⟨-, a', votes, ha', hvotes, hs⟩
      cases ha.symm.trans ha'
      cases hvotes
      exact heval.symm.trans hs
    · rintro g s - - hs (⟨hvoting, -⟩ | ⟨s', -, a', votes, -, hvotes, -⟩)
      · exact .inr ⟨s, hvoting, a, _, ha, rfl, heval.trans hs⟩
      · cases htally.symm.trans hvotes
  | updateState =>
    obtain ⟨⟨b, x⟩, hx, ⟨⟩⟩ := map_eq_some_iff.mp hact
    exact h.update hcast hc hok hx
  | emit =>
    cases hact
    exact h.noted hheld rfl rfl rfl (h.found i) fun _ _ _ _ _ howes => howes
  | commit =>
    cases hact
    refine h.noted hheld (newest_commit _ _) ?_ rfl (fun s hs => nomatch hs.1.2.1) ?_
    · funext v
      simp only [World.ballots, World.commit, Table.newest_commit]
    · -- a session commits once it owes nothing
      rintro - - - - - howes
      exact absurd howes (not_owes_of_evaluated hok.2.1)
  | _ =>
    cases hact
    exact h.noted hheld rfl rfl rfl (h.found i) fun _ _ _ _ _ howes => howes

end Tallied

theorem tallied_of_run {clock : Time}
    {claim : Expiring.Keyspace Unit Claim} (hpending : gate.state = .pending)
    (hleader : gate.leaderAgentId ∈ gate.approverAgentIds)
    (hcast : ∀ c ∈ calls, ∃ v x r, c = .castVote v x r) {ms : List (Move Bool Time)} {p : Calls}
    (hall : AllSteps machine (atTasks fun i l o w => counted i l o w = true) ms
      (start gate (.initial gate clock claim) calls))
    (hrun : run machine ms (start gate (.initial gate clock claim) calls) = some p) :
    Obeyed machine .blank (fun i l o => ∃ c, calls[i]? = some c ∧ c.Ok l o)
      (fun i l _ => ∃ c, calls[i]? = some c ∧ c.Done l) p ∧
      Tallied gate calls (notesOf p) p.world := by
  refine tasks_invariant ?_ ?_ hall (obeyed_start gate _ calls)
    (Tallied.initial (locOf_launch _ _ _) hpending hleader) hrun
  · rintro N w i o input r w' ⟨c, hc, hok⟩ hcond h hact
    exact h.step hcast hc hok hcond hact
  · rintro N w d w' new h henv
    cases henv
    exact ⟨rfl, h.held.congr rfl rfl, h.settled, h.found, h.owed, h.kept⟩

/-- **Every cast ballot is counted**, if votes are read when the ballots of the others are
committed: in any interleaving of `cast_vote` calls on a gate, once every approver has a
committed ballot and no approver's call is under way, the gate is resolved to what the rule
gives on all ballots. -/
theorem every_ballot_counted (config : ApprovalGateConfig) (id workflowRunId : Uuid)
    (chatroomId : Option Uuid) (created clock : Time) (claim : Expiring.Keyspace Unit Claim)
    (calls : List Call) (hcast : ∀ c ∈ calls, ∃ v x r, c = .castVote v x r)
    {ms : List (Move Bool Time)} {p : Calls} :
    let gate := config.gate id workflowRunId chatroomId created
    AllSteps machine (atTasks fun i l o w => counted i l o w = true) ms
        (start gate (.initial gate clock claim) calls) →
      run machine ms (start gate (.initial gate clock claim) calls) = some p →
      (∀ (i : ℕ) v x r, calls[i]? = some (.castVote v x r) → v ∈ config.approvers →
        p.tasks[i]?.any Task.finished = true) →
      (∀ v ∈ config.approvers, ∃ (i : ℕ) (x : Bool) (r : Option String),
        calls[i]? = some (.castVote v x r) ∧
        (notesOf p i).committed = true) →
      ∃ a, p.world.approval.committed = some a ∧ a.state ≠ .pending ∧
        ∀ i, evaluateVotes a (p.world.listForApproval i) = some a.state := by
  intro gate hall hrun hdone hvoted
  have hpending : gate.state = .pending := rfl
  obtain ⟨hobeyed, h⟩ := tallied_of_run hpending config.leader_mem hcast hall hrun
  -- no ballot is left uncommitted
  have hidle : ∀ i, ¬ ((notesOf p i).ballot.isSome ∧ (notesOf p i).committed = false) := by
    rintro i ⟨hballot, hopen⟩
    obtain ⟨b, hb⟩ := isSome_iff_exists.mp hballot
    cases hc : calls[i]? with
    | none =>
      rw [h.held.silent i hc] at hb
      cases hb
    | some c =>
      obtain ⟨⟨x, r, rfl⟩, happrover⟩ := (h.held.proper i c hc).ballot b hb
      have hfin := hdone i _ x r hc happrover
      simp only [any_eq_true] at hfin
      obtain ⟨t, ht, hfin⟩ := hfin
      obtain ⟨c', -, hpost⟩ := hobeyed.post ht hfin
      have hloc : notesOf p i = t.loc := Pool.locOf_of_getElem? ht
      rw [hloc] at hballot hopen
      cases hopen.symm.trans (hpost hballot)
  have hdraft : p.world.approval.draft = none := by
    cases hd : p.world.approval.draft with
    | none => rfl
    | some d => exact absurd (Tallied.voting_of_draft h.held hcast hd) (hidle d.1)
  have hrows : ∀ v, (p.world.votes.row v).draft = none := by
    intro v
    cases hd : (p.world.votes.row v).draft with
    | none => rfl
    | some d =>
      obtain ⟨hb, hopen⟩ := h.held.ballot_draft v d.1 d.2 hd
      exact absurd ⟨hb ▸ rfl, hopen⟩ (hidle d.1)
  have hcomplete : gate.Complete p.world.ballots := by
    intro v hv
    obtain ⟨i, x, r, hc, hcom⟩ := hvoted v hv
    have hp := h.held.proper i _ hc
    obtain ⟨b, hb⟩ := isSome_iff_exists.mp (hp.committed v x r rfl hcom)
    obtain ⟨⟨x', r', hcall⟩, -⟩ := hp.ballot b hb
    obtain ⟨rfl, -⟩ := Call.castVote.inj hcall
    exact h.kept i b hb
  obtain ⟨s, hs⟩ := verdict_of_complete config.leader_mem hcomplete
  obtain ⟨a, ha⟩ := isSome_iff_exists.mp h.held.created
  have hnewest : p.world.approval.newest = some a := by
    rw [newest_of_draft_eq_none hdraft, ha]
  have hres : a.resolved = true := by
    by_contra hno
    obtain ⟨i, hvoting | ⟨s', hfinds⟩⟩ := h.owed a s hnewest (Bool.not_eq_true _ ▸ hno) hs
    · exact hidle i ⟨hvoting.1.1, hvoting.1.2.1⟩
    · exact hidle i ⟨hfinds.1.1, hfinds.1.2.1⟩
  refine ⟨a, ha, by simpa [resolved] using hres, fun i => ?_⟩
  rw [evaluateVotes_listForApproval h.held (fun v => .inl (hrows v))
    (h.held.approval.committed a ha)]
  exact h.settled a hnewest hres

/-- Two approvers, by majority. -/
def twoApprovers : ApprovalGateConfig :=
  ⟨.majority, [1, 2], 1, 300, none, by decide, by decide⟩

def gateOfTwo : Approval := twoApprovers.gate 0 0 none 0

/-- Both of them approve. -/
def bothApprove : List Call := [.castVote 1 true none, .castVote 2 true none]

def voteOfTwo : Calls := start gateOfTwo (.initial gateOfTwo 0 Expiring.empty) bothApprove

/-- One after the other: the first finds no majority, the second resolves the gate. -/
def oneByOne : List (Move Bool Time) :=
  .replicate 5 (.step 0 false) ++ .replicate 9 (.step 1 false)

theorem both_counted :
    ∃ p, run machine oneByOne voteOfTwo = some p ∧
      ∃ a, p.world.approval.committed = some a ∧ a.state ≠ .pending ∧
        ∀ i, evaluateVotes a (p.world.listForApproval i) = some a.state := by
  obtain ⟨p, hp, hfirst, hsecond, hcom₁, hcom₂⟩ : ∃ p ∈ run machine oneByOne voteOfTwo,
      p.tasks[0]?.any Task.finished = true ∧ p.tasks[1]?.any Task.finished = true ∧
        (notesOf p 0).committed = true ∧ (notesOf p 1).committed = true := by
    decide +kernel
  have hsteps : checkSteps machine (checkTasks counted) oneByOne voteOfTwo = true := by
    decide +kernel
  refine ⟨p, hp, every_ballot_counted twoApprovers 0 0 none 0 0 Expiring.empty bothApprove ?_
    (allSteps_of_checkSteps (atTasks_of_checkTasks fun _ _ _ _ h => h) _ _ hsteps) hp ?_ ?_⟩
  · simp [bothApprove]
  · intro i v x r hi _
    obtain rfl | rfl : i = 0 ∨ i = 1 := by
      have hlt : i < bothApprove.length := (List.getElem?_eq_some_iff.mp hi).1
      simp only [bothApprove, List.length_cons, List.length_nil] at hlt
      omega
    · exact hfirst
    · exact hsecond
  · intro v hv
    obtain rfl | rfl : v = 1 ∨ v = 2 := by simpa [twoApprovers] using hv
    · exact ⟨0, true, none, rfl, hcom₁⟩
    · exact ⟨1, true, none, rfl, hcom₂⟩

/-- Side by side: each of the two reads the votes before the other has committed.  Both
ballots are committed, the rule gives a state, and the gate is pending. -/
theorem ballots_not_counted :
    ∃ ms p, run machine ms voteOfTwo = some p ∧ p.tasks.all Task.finished = true ∧
      (notesOf p 0).committed = true ∧ (notesOf p 1).committed = true ∧
      p.world.approval.committed = some gateOfTwo ∧
      evaluateVotes gateOfTwo (p.world.listForApproval 2) = some .approved := by
  refine ⟨.replicate 4 (.step 0 false) ++ .replicate 5 (.step 1 false) ++ [.step 0 false], ?_⟩
  decide +kernel

end Smap.Gates
