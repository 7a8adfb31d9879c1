import Smap.Gates.Sessions

/-!
# The port a run is resumed at

A resolution is recorded in the audit trail together with the leader's verdict, and the
job that resumes the run computes the port once more, from the state of the gate and the
ballots it then finds.  For a gate that was approved or rejected the state says it all.
For one that fell to the leader the two can differ: a `cast_vote` of the leader that found
the gate pending may commit its ballot after the resolution, and the job takes it for the
verdict.

They agree if the leader casts no ballot once the gate is drafted as fallen to the leader,
and if the verdict is recorded while the leader's ballot is what the recording session has
read.
-/

namespace Smap.Gates

open Program RowVersions Versioned Function List Prod Notes

/-- The verdict a version of the leader's ballot stands for. -/
def verdictOf : Option ApprovalVote → LeaderVerdict
  | none => .noVote
  | some v => if v.vote then .approved else .rejected

/-- The port a recorded resolution stands for. -/
def ResolvedEvent.port (e : ResolvedEvent) : Port :=
  if e.state = .approved then .approved
  else if e.state = .rejected then .rejected
  else
    match e.leaderVerdict with
    | some .approved => .approved
    | some .rejected => .rejected
    | _ => .timeout

/-- The recorded verdict is that of the leader's ballot as a session sees it, and will be
once everyone has committed. -/
def ResolvedEvent.agrees (e : ResolvedEvent) (leader : Row ApprovalVote) (i : ℕ) : Bool :=
  e.leaderVerdict = some (verdictOf (leader.seenBy i)) ∧
    e.leaderVerdict = some (verdictOf leader.newest)

/-- The leader casts no ballot on a gate that has fallen to the leader, and the verdict that
is recorded then is the leader's. -/
def recorded (leader : Uuid) (i : ℕ) (_ : Notes) (o : Op) (w : World) : Bool :=
  match o with
  | .cast v => v.voterAgentId != leader || w.approval.newest.all fun a => a.state != .timeoutLeader
  | .emit e => e.state != .timeoutLeader || e.agrees (w.votes.row leader) i
  | _ => true

variable {gate : Approval} {calls : List Call} {N : ℕ → Notes} {w : World}

/-- The leader's ballot in what a session reads. -/
theorem getLast?_listForApproval (h : Held gate calls N w) (i : ℕ) (v : Uuid) :
    ((w.listForApproval i).filter (·.voterAgentId = v)).getLast? = (w.votes.row v).seenBy i := by
  cases hlast : ((w.listForApproval i).filter (·.voterAgentId = v)).getLast? with
  | some =>
    obtain ⟨hb, hkey⟩ := mem_filter.mp (mem_of_getLast? hlast)
    rw [decide_eq_true_eq] at hkey
    exact (hkey ▸ h.mem_listForApproval.mp hb).symm
  | none =>
    cases hseen : (w.votes.row v).seenBy i with
    | none => rfl
    | some b =>
      have hkey : b.voterAgentId = v := (h.rows v).seenBy hseen
      have hb : b ∈ w.listForApproval i := h.mem_listForApproval.mpr (hkey ▸ hseen)
      rw [getLast?_eq_none_iff, filter_eq_nil_iff] at hlast
      exact absurd (decide_eq_true hkey) (hlast b hb)

/-- The event of a session that has not committed. -/
def Notes.openEvent (l : Notes) : Option ResolvedEvent := if l.committed then none else l.event

/-- **The audit trail against the gate**: a session that has resolved the gate holds it and
records the resolution; a committed gate has one event if it is resolved, and none before;
and where the gate has fallen to the leader, the recorded verdict is the leader's. -/
structure Logged (gate : Approval) (N : ℕ → Notes) (w : World) : Prop where
  gate_held : ∀ i s, (N i).swap = some (s, true) → (N i).committed = false →
    ∃ a, w.approval.draft = some (i, a) ∧ a.state = s
  opened : ∀ i, (w.openEvents.filter (·.1 = i)).map snd = (N i).openEvent.toList
  event_swap : ∀ i e, (N i).event = some e → (N i).swap = some (e.state, true)
  drafted : ∀ i a e, w.approval.draft = some (i, a) → (N i).event = some e →
    a.state = .timeoutLeader → e.agrees (w.votes.row gate.leaderAgentId) i = true
  unresolved : ∀ a, w.approval.committed = some a → a.resolved = false → w.events = []
  resolved : ∀ a, w.approval.committed = some a → a.resolved = true →
    ∃ e, w.events = [e] ∧ e.state = a.state ∧
      (a.state = .timeoutLeader →
        e.leaderVerdict = some (verdictOf (w.votes.row gate.leaderAgentId).committed) ∧
        e.leaderVerdict = some (verdictOf (w.votes.row gate.leaderAgentId).newest))

variable {w' : World} {i : ℕ} {c : Call} {o : Op} {input : Bool}

namespace Logged

variable {N' : ℕ → Notes}

theorem initial {claim : Expiring.Keyspace Unit Claim} {clock : Time} (hN : ∀ i, N i = .blank)
    (hpending : gate.state = .pending) : Logged gate N (.initial gate clock claim) := by
  refine ⟨fun i s hs => ?_, fun i => ?_, fun i e he => ?_, fun i a e hd => ?_, fun _ _ _ => rfl,
    fun a ha hres => ?_⟩
  · rw [hN] at hs
    cases hs
  · rw [hN]
    rfl
  · rw [hN] at he
    cases he
  · cases hd
  · cases ha
    simp [Approval.resolved, hpending] at hres

variable {a : Approval} {e : ResolvedEvent} {r : Row ApprovalVote}

/-- A committed gate that is resolved is what everyone will find. -/
theorem newest_of_resolved {c : Versioned Approval Approval.resolved} (ha : c.committed = some a)
    (hres : a.resolved = true) : c.newest = some a := by
  rw [newest_of_draft_eq_none (draft_eq_none_of_final ha hres), ha]

/-- What a session sees of a row is the newest version or the committed one. -/
theorem seenBy_cases (r : Row ApprovalVote) (i : ℕ) :
    r.seenBy i = r.newest ∨ r.seenBy i = r.committed := by
  cases hd : r.draftOf i with
  | none => exact .inr (seenBy_of_draftOf_eq_none hd)
  | some =>
    left
    rw [seenBy_of_draftOf hd, newest_of_draft (draftOf_eq_some.mp hd)]

/-- The commit of another session does not change the verdict a session sees. -/
theorem agrees_commit {j : ℕ} (h : e.agrees r j = true) : e.agrees (r.commit i) j = true := by
  simp only [ResolvedEvent.agrees, decide_eq_true_eq, newest_commit] at h ⊢
  refine ⟨?_, h.2⟩
  cases hd : r.draftOf i with
  | none =>
    rw [commit_of_draftOf_eq_none hd]
    exact h.1
  | some =>
    have hdraft := (commit_of_draftOf hd).2
    rw [seenBy_eq_newest (.inl hdraft), newest_commit]
    exact h.2

/-- Where all versions of a ballot agree, a commit changes nothing. -/
theorem verdict_commit {x : Option LeaderVerdict}
    (h : x = some (verdictOf r.committed) ∧ x = some (verdictOf r.newest)) :
    x = some (verdictOf (r.commit i).committed) ∧ x = some (verdictOf (r.commit i).newest) := by
  rw [newest_commit, committed_commit]
  refine ⟨?_, h.2⟩
  obtain hseen | hseen := seenBy_cases r i
  · rw [hseen]
    exact h.2
  · rw [hseen]
    exact h.1

variable (h : Logged gate N w)

include h

/-- Nothing but the rows, the audit trail and what sessions have written matters. -/
theorem congr
    (hN : ∀ j, (N' j).swap = (N j).swap ∧ (N' j).event = (N j).event ∧
      (N' j).committed = (N j).committed) (ha : w'.approval = w.approval) (hv : w'.votes = w.votes)
    (ho : w'.openEvents = w.openEvents) (he : w'.events = w.events) : Logged gate N' w' := by
  constructor
  · intro j s hs hopen
    rw [(hN j).1] at hs
    rw [(hN j).2.2] at hopen
    rw [ha]
    exact h.gate_held j s hs hopen
  · intro j
    rw [ho, h.opened j, openEvent, openEvent, (hN j).2.1, (hN j).2.2]
  · intro j e hj
    rw [(hN j).2.1] at hj
    rw [(hN j).1]
    exact h.event_swap j e hj
  · intro j a e hd hj
    rw [(hN j).2.1] at hj
    rw [ha] at hd
    rw [hv]
    exact h.drafted j a e hd hj
  · rw [ha, he]
    exact h.unresolved
  · rw [ha, he, hv]
    exact h.resolved

/-- A session notes what it reads. -/
theorem noted {l : Notes} (hswap : l.swap = (N i).swap) (hevent : l.event = (N i).event)
    (hopen : l.committed = (N i).committed) (ha : w'.approval = w.approval)
    (hv : w'.votes = w.votes) (ho : w'.openEvents = w.openEvents) (he : w'.events = w.events) :
    Logged gate (Function.update N i l) w' := by
  refine h.congr (fun j => ?_) ha hv ho he
  exact update_elim ⟨hswap, hevent, hopen⟩ fun _ _ => ⟨rfl, rfl, rfl⟩

/-- A ballot is cast: it is not the leader's, or the gate has not fallen to the leader. -/
theorem cast {v : ApprovalVote} (hcond : recorded gate.leaderAgentId i (N i) (.cast v) w = true)
    {t : Table Uuid ApprovalVote} (ht : w.votes.upsert i v.voterAgentId v = some t) :
    Logged gate (Function.update N i { N i with ballot := some v }) { w with votes := t } := by
  obtain ⟨-, -, -, hother⟩ := Table.upsert_eq_some ht
  have hrow : ∀ a, w.approval.newest = some a → a.state = .timeoutLeader →
      t.row gate.leaderAgentId = w.votes.row gate.leaderAgentId := by
    intro a ha hstate
    refine hother _ fun hleader => ?_
    simp [recorded, ha, hstate, hleader] at hcond
  have hnoted : Logged gate (Function.update N i { N i with ballot := some v }) w :=
    h.noted rfl rfl rfl rfl rfl rfl rfl
  refine ⟨hnoted.gate_held, hnoted.opened, hnoted.event_swap, ?_, hnoted.unresolved, ?_⟩
  · intro j a e hd he hstate
    have hagrees := hnoted.drafted j a e hd he hstate
    rwa [← hrow a (newest_of_draft hd) hstate] at hagrees
  · intro a ha hres
    obtain ⟨e, he, hestate, hagrees⟩ := hnoted.resolved a ha hres
    refine ⟨e, he, hestate, fun hstate => ?_⟩
    have hleader := hagrees hstate
    rwa [← hrow a (newest_of_resolved ha hres) hstate] at hleader

/-- A session that has not resolved the gate has nothing to record. -/
theorem openEvent_eq_none (hd : w.approval.draftOf i = none) : (N i).openEvent = none := by
  unfold openEvent
  split
  · rfl
  rename_i hopen
  cases he : (N i).event with
  | none => rfl
  | some e =>
    obtain ⟨a, ha, -⟩ :=
      h.gate_held i e.state (h.event_swap i e he) (Bool.not_eq_true _ ▸ hopen)
    simp [draftOf_eq_some.mpr ha] at hd

theorem events_commit : (w.commit i).events = w.events ++ (N i).openEvent.toList := by
  rw [← h.opened i]
  rfl

/-- **A committed resolution stays**, and its record with it. -/
theorem resolution_step {r : Res o} (hact : act i o input w = some (r, w'))
    (ha : w.approval.committed = some a) (hres : a.resolved = true) :
    w'.approval.committed = some a ∧ w'.events = w.events := by
  have hdraft := draft_eq_none_of_final ha hres
  cases o with
  | cast =>
    obtain ⟨t, -, ⟨⟩⟩ := Option.map_eq_some_iff.mp hact
    exact ⟨ha, rfl⟩
  | updateState =>
    obtain ⟨⟨b, x⟩, hx, ⟨⟩⟩ := Option.map_eq_some_iff.mp hact
    exact ⟨(committed_update hx).trans ha, rfl⟩
  | commit =>
    cases hact
    have hnone := draftOf_of_draft_eq_none hdraft i
    constructor
    · change (w.approval.commit i).committed = some a
      rw [commit_of_draftOf_eq_none hnone, ha]
    · rw [h.events_commit, h.openEvent_eq_none hnone]
      exact append_nil _
  | _ =>
    cases hact
    exact ⟨ha, rfl⟩

variable (hheld : Held gate calls N w)

include hheld

/-- The gate is resolved, or found resolved. -/
theorem update {s : ApprovalState} {ended : Option Time} (hok : c.Ok (N i) (.updateState s ended))
    {b : Bool} {r : Versioned Approval Approval.resolved}
    (hcas : casState w.approval i s ended = some (b, r)) :
    Logged gate (Function.update N i { N i with swap := some (s, b) })
      { w with approval := r } := by
  obtain ⟨-, hevent, -⟩ := hok
  have hopened : ∀ j, (w.openEvents.filter (·.1 = j)).map snd =
      (Function.update N i { N i with swap := some (s, b) } j).openEvent.toList :=
    fun j => update_elim (h.opened i) fun j _ => h.opened j
  have hswapped : ∀ j e, (Function.update N i { N i with swap := some (s, b) } j).event = some e →
      (Function.update N i { N i with swap := some (s, b) } j).swap = some (e.state, true) := by
    refine fun j => update_elim (fun e he => ?_) fun j _ => h.event_swap j
    cases hevent.symm.trans he
  obtain ⟨rfl, rfl, hres⟩ | ⟨rfl, hcom, g, hg, hpending, hd, hmine⟩ :=
    Held.cas_cases hheld.created hcas
  · refine ⟨?_, hopened, hswapped, ?_, h.unresolved, h.resolved⟩
    · exact fun j => update_elim nofun fun j _ => h.gate_held j
    · refine fun j a e => update_elim (fun _ he => ?_) fun j _ => h.drafted j a e
      cases hevent.symm.trans he
  · refine ⟨?_, hopened, hswapped, ?_, ?_, ?_⟩
    · refine fun j s' => update_elim (fun hs' _ => ?_) fun j hji hs' hopen => ?_
      · cases hs'
        exact ⟨_, hd, rfl⟩
      · obtain ⟨a, ha, -⟩ := h.gate_held j s' hs' hopen
        exact absurd (hmine j a ha) hji
    · intro j a e hj he
      rw [hd] at hj
      cases hj
      rw [update_self] at he
      cases hevent.symm.trans he
    · intro a ha
      exact h.unresolved a (hcom ▸ ha)
    · intro a ha
      exact h.resolved a (hcom ▸ ha)

/-- The resolution is recorded. -/
theorem emit (hok : c.Ok (N i) (.emit e))
    (hcond : recorded gate.leaderAgentId i (N i) (.emit e) w = true) :
    Logged gate (Function.update N i { N i with event := some e })
      { w with openEvents := w.openEvents ++ [(i, e)] } := by
  obtain ⟨hnone, hopen, hswap⟩ := hok
  refine ⟨?_, ?_, ?_, ?_, h.unresolved, h.resolved⟩
  · exact fun j => update_elim (h.gate_held i) fun j _ => h.gate_held j
  · refine fun j => update_elim ?_ fun j hji => ?_
    · have hi := h.opened i
      simp only [openEvent, hopen, hnone, Bool.false_eq_true, ↓reduceIte, Option.toList_none] at hi
      simp [openEvent, hopen, hi]
    · rw [← h.opened j]
      simp [Ne.symm hji]
  · refine fun j => update_elim (fun e' he' => ?_) fun j _ => h.event_swap j
    cases he'
    exact hswap
  · refine fun j a e' => update_elim (fun hd he' hstate => ?_) fun j _ => h.drafted j a e'
    cases he'
    have hs := (hheld.gate_draft i a hd).1
    rw [hswap, hstate] at hs
    obtain ⟨hs, -⟩ := mk.inj (Option.some.inj hs)
    simpa [recorded, hs] using hcond

/-- A session commits, and its resolution with it if there is one. -/
theorem commit (hok : c.Ok (N i) .commit) :
    Logged gate (Function.update N i { N i with committed := true }) (w.commit i) := by
  refine ⟨?_, ?_, ?_, ?_, ?_, ?_⟩
  · refine fun j s => update_elim (fun _ hopen => ?_) fun j hji hs hopen => ?_
    · simp at hopen
    · obtain ⟨a, ha, has⟩ := h.gate_held j s hs hopen
      refine ⟨a, ?_, has⟩
      change (w.approval.commit i).draft = some (j, a)
      rwa [commit_of_draft ha hji]
  · intro j
    change (((w.openEvents.filter (·.1 ≠ i)).filter (·.1 = j)).map snd) = _
    rw [filter_filter]
    refine update_elim ?_ fun j hji => ?_
    · simp [openEvent]
    rw [← h.opened j]
    congr 1
    refine filter_congr fun x _ => ?_
    by_cases hx : x.1 = j
    · simp [hx, hji]
    · simp [hx]
  · exact fun j => update_elim (h.event_swap i) fun j _ => h.event_swap j
  · intro j a e hd he hstate
    obtain ⟨hd, hji⟩ := draft_commit hd
    rw [update_of_ne hji] at he
    exact agrees_commit (h.drafted j a e hd he hstate)
  · intro a ha hres
    rw [h.events_commit]
    obtain hd | ⟨hd, ha⟩ := committed_commit_cases ha
    · rw [(hheld.gate_draft i a hd).2.2] at hres
      cases hres
    · rw [h.openEvent_eq_none hd, h.unresolved a ha hres]
      rfl
  · intro x ha hres
    rw [h.events_commit]
    obtain hdraft | ⟨hd, ha⟩ := committed_commit_cases ha
    · obtain ⟨hswap, hopen, -⟩ := hheld.gate_draft i x hdraft
      obtain ⟨e, he⟩ := Option.isSome_iff_exists.mp (hok.2.2.1 x.state hswap)
      have hestate : e.state = x.state := by
        have hs := h.event_swap i e he
        rw [hswap] at hs
        exact (mk.inj (Option.some.inj hs)).1.symm
      obtain ⟨a₀, ha₀⟩ := Option.isSome_iff_exists.mp hheld.created
      have hnone := h.unresolved a₀ ha₀ (w.approval.live a₀ ha₀ (by rw [hdraft]; rfl))
      refine ⟨e, by simp [hnone, openEvent, hopen, he], hestate, fun hstate => ?_⟩
      have hagrees := h.drafted i x e hdraft he hstate
      simp only [ResolvedEvent.agrees, decide_eq_true_eq] at hagrees
      change e.leaderVerdict = some (verdictOf ((w.votes.row _).commit i).committed) ∧
        e.leaderVerdict = some (verdictOf ((w.votes.row _).commit i).newest)
      rwa [newest_commit, committed_commit]
    · obtain ⟨e, he, hestate, hagrees⟩ := h.resolved x ha hres
      refine ⟨e, by rw [h.openEvent_eq_none hd, he]; rfl, hestate, fun hstate => ?_⟩
      exact verdict_commit (hagrees hstate)

/-- **Every operation that meets the condition keeps the audit trail in line.** -/
theorem step (hok : c.Ok (N i) o) (hcond : recorded gate.leaderAgentId i (N i) o w = true)
    {r : Res o} (hact : act i o input w = some (r, w')) :
    Logged gate (Function.update N i (note (N i) o r)) w' := by
  cases o with
  | cast =>
    obtain ⟨t, ht, ⟨⟩⟩ := Option.map_eq_some_iff.mp hact
    exact h.cast hcond ht
  | updateState =>
    obtain ⟨⟨b, x⟩, hx, ⟨⟩⟩ := Option.map_eq_some_iff.mp hact
    exact h.update hheld hok hx
  | emit =>
    cases hact
    exact h.emit hheld hok hcond
  | commit =>
    cases hact
    exact h.commit hheld hok
  | _ =>
    cases hact
    exact h.noted rfl rfl rfl rfl rfl rfl rfl

end Logged

/-! ## The job -/

/-- What a session reads gives the port that the audit trail stands for. -/
theorem approvalPort_eq {a : Approval} {e : ResolvedEvent} (h : Held gate calls N w)
    (ha : IsGate gate a) (hstate : e.state = a.state) (hres : a.resolved = true)
    (hseen : a.state = .timeoutLeader →
      e.leaderVerdict = some (verdictOf ((w.votes.row gate.leaderAgentId).seenBy i))) :
    approvalPort a (w.listForApproval i) = e.port := by
  unfold approvalPort ResolvedEvent.port
  rw [hstate, ha.leader_eq, getLast?_listForApproval h]
  cases hs : a.state with
  | pending => simp [Approval.resolved, hs] at hres
  | approved | rejected => rfl
  | timeoutLeader =>
    rw [hseen hs]
    cases (w.votes.row gate.leaderAgentId).seenBy i with
    | none => rfl
    | some b => cases hb : b.vote <;> simp [verdictOf, hb]

/-- **The job against the audit trail**: a resume job that has read a resolved gate has
read the committed one, and whatever it has computed from the votes is the recorded port;
so is every port a run has been resumed at. -/
structure Resumes (gate : Approval) (calls : List Call) (N : ℕ → Notes) (w : World) : Prop where
  held : Held gate calls N w
  logged : Logged gate N w
  read : ∀ i n, calls[i]? = some (.workflowResumeApproval n) → ∀ a, (N i).gate = some a →
    a.resolved = true → w.approval.committed = some a
  ported : ∀ i n, calls[i]? = some (.workflowResumeApproval n) → ∀ a votes,
    (N i).gate = some a → a.resolved = true → (N i).tally = some votes →
    ∃ e, w.events = [e] ∧ approvalPort a votes = e.port
  resumed : ∀ x ∈ w.resumptions, ∃ e, w.events = [e] ∧ x.2 = e.port

namespace Resumes

theorem initial {claim : Expiring.Keyspace Unit Claim} {clock : Time} (hN : ∀ i, N i = .blank)
    (hpending : gate.state = .pending) : Resumes gate calls N (.initial gate clock claim) := by
  constructor
  · exact .initial hN
  · exact .initial hN hpending
  · intro i n _ a ha
    rw [hN] at ha
    cases ha
  · intro i n _ a votes ha
    rw [hN] at ha
    cases ha
  · exact nofun

variable {r : Res o}

/-- A record stays. -/
theorem events_step (h : Resumes gate calls N w) (hact : act i o input w = some (r, w'))
    {e : ResolvedEvent} (he : w.events = [e]) : w'.events = [e] := by
  obtain ⟨a, ha⟩ := Option.isSome_iff_exists.mp h.held.created
  have hres : a.resolved = true := by
    by_contra hno
    simp [h.logged.unresolved a ha (Bool.not_eq_true _ ▸ hno)] at he
  rw [(h.logged.resolution_step hact ha hres).2, he]

/-- An operation that keeps what its session has read, or has read well. -/
theorem noted (h : Resumes gate calls N w) (hact : act i o input w = some (r, w'))
    (hheld : Held gate calls (Function.update N i (note (N i) o r)) w')
    (hlogged : Logged gate (Function.update N i (note (N i) o r)) w')
    (hread : ∀ n, calls[i]? = some (.workflowResumeApproval n) → ∀ a,
      (note (N i) o r).gate = some a → a.resolved = true → w.approval.committed = some a)
    (hported : ∀ n, calls[i]? = some (.workflowResumeApproval n) → ∀ a votes,
      (note (N i) o r).gate = some a → a.resolved = true → (note (N i) o r).tally = some votes →
      ∃ e, w.events = [e] ∧ approvalPort a votes = e.port)
    (hresumed : ∀ x ∈ w'.resumptions, ∃ e, w.events = [e] ∧ x.2 = e.port) :
    Resumes gate calls (Function.update N i (note (N i) o r)) w' := by
  refine ⟨hheld, hlogged, ?_, ?_, ?_⟩
  · refine fun j => update_elim (fun n hn a ha hres => ?_) fun j _ n hn a ha hres => ?_
    · exact (h.logged.resolution_step hact (hread n hn a ha hres) hres).1
    · exact (h.logged.resolution_step hact (h.read j n hn a ha hres) hres).1
  · refine fun j => update_elim (fun n hn a votes ha hres hvotes => ?_)
      fun j _ n hn a votes ha hres hvotes => ?_
    · obtain ⟨e, he, hport⟩ := hported n hn a votes ha hres hvotes
      exact ⟨e, h.events_step hact he, hport⟩
    · obtain ⟨e, he, hport⟩ := h.ported j n hn a votes ha hres hvotes
      exact ⟨e, h.events_step hact he, hport⟩
  · intro x hx
    obtain ⟨e, he, hport⟩ := hresumed x hx
    exact ⟨e, h.events_step hact he, hport⟩

/-- **Every operation that meets the condition keeps the job in line.** -/
theorem step (h : Resumes gate calls N w) (hc : calls[i]? = some c) (hok : c.Ok (N i) o)
    (hcond : recorded gate.leaderAgentId i (N i) o w = true)
    (hact : act i o input w = some (r, w')) :
    Resumes gate calls (Function.update N i (note (N i) o r)) w' := by
  have hheld := h.held.step hc hok hact
  have hlogged := h.logged.step h.held hok hcond hact
  have hp := h.held.proper i c hc
  cases o with
  | getApproval =>
    obtain ⟨rfl, rfl⟩ := mk.inj (Option.some.inj hact)
    have htally : ∀ n, calls[i]? = some (.workflowResumeApproval n) → (N i).tally = none := by
      intro n hn
      obtain rfl := Option.some.inj (hc.symm.trans hn)
      obtain htally | ⟨hcall, -⟩ := hok.2
      · exact htally
      · cases hcall
    refine h.noted hact hheld hlogged (fun n hn a ha _ => ?_) (fun n hn a votes _ _ hvotes => ?_)
      h.resumed
    · -- the session holds no draft of the gate
      have hdraft : w.approval.draftOf i = none := by
        cases hd : w.approval.draftOf i with
        | none => rfl
        | some x =>
          have hswap := (h.held.gate_draft i x (draftOf_eq_some.mp hd)).1
          have hsome := hp.swap (hswap ▸ rfl)
          simp [htally n hn] at hsome
      rw [← ha]
      exact (seenBy_of_draftOf_eq_none hdraft).symm
    · cases (htally n hn).symm.trans hvotes
  | listForApproval =>
    obtain ⟨rfl, rfl⟩ := mk.inj (Option.some.inj hact)
    refine h.noted hact hheld hlogged (fun n hn => h.read i n hn)
      (fun n hn a votes ha hres hvotes => ?_) h.resumed
    cases hvotes
    have hcom := h.read i n hn a ha hres
    obtain ⟨e, he, hstate, hagrees⟩ := h.logged.resolved a hcom hres
    refine ⟨e, he, approvalPort_eq h.held (h.held.approval.committed a hcom) hstate hres
      fun htimeout => ?_⟩
    -- a resume job has cast no ballot: it sees the committed one
    have hdraft : (w.votes.row gate.leaderAgentId).draftOf i = none := by
      cases hd : (w.votes.row gate.leaderAgentId).draftOf i with
      | none => rfl
      | some b =>
        have hb := (h.held.ballot_draft _ i b (draftOf_eq_some.mp hd)).1
        cases hc.symm.trans hn
        obtain ⟨⟨x, r, hcall⟩, -⟩ := hp.ballot b hb
        cases hcall
    rw [seenBy_of_draftOf_eq_none hdraft]
    exact (hagrees htimeout).1
  | cast =>
    obtain ⟨t, ht, ⟨⟩⟩ := Option.map_eq_some_iff.mp hact
    exact h.noted hact hheld hlogged (fun n hn => h.read i n hn)
      (fun n hn => h.ported i n hn) h.resumed
  | updateState =>
    obtain ⟨⟨b, x⟩, hx, ⟨⟩⟩ := Option.map_eq_some_iff.mp hact
    exact h.noted hact hheld hlogged (fun n hn => h.read i n hn)
      (fun n hn => h.ported i n hn) h.resumed
  | resumeAtPort =>
    obtain ⟨rfl, rfl⟩ := mk.inj (Option.some.inj hact)
    obtain ⟨⟨n, rfl⟩, a, votes, ha, hres, hvotes, rfl⟩ := hok
    refine h.noted hact hheld hlogged (fun n hn => h.read i n hn)
      (fun n hn => h.ported i n hn) fun x hx => ?_
    obtain hx | hx := mem_append.mp hx
    · exact h.resumed x hx
    · obtain rfl := mem_singleton.mp hx
      exact h.ported i n hc a votes ha hres hvotes
  | _ =>
    obtain ⟨rfl, rfl⟩ := mk.inj (Option.some.inj hact)
    exact h.noted hact hheld hlogged (fun n hn => h.read i n hn)
      (fun n hn => h.ported i n hn) h.resumed

end Resumes

/-- **The resumed port is the recorded verdict**, if the recorded verdict is the leader's and
the leader casts no ballot afterwards: in any interleaving of `cast_vote`, `handle_timeout`
and `workflow_resume_approval` on a gate, every port the run is resumed at is the one of the
single resolution in the audit trail, which is that of the gate. -/
theorem resumed_port_is_recorded (config : ApprovalGateConfig) (id workflowRunId : Uuid)
    (chatroomId : Option Uuid) (created clock : Time) (claim : Expiring.Keyspace Unit Claim)
    (calls : List Call) {ms : List (Move Bool Time)} {p : Calls} :
    let gate := config.gate id workflowRunId chatroomId created
    AllSteps machine (atTasks fun i l o w => recorded config.leaderAgentId i l o w = true) ms
        (start gate (.initial gate clock claim) calls) →
      run machine ms (start gate (.initial gate clock claim) calls) = some p →
      ∀ x ∈ p.world.resumptions, ∃ a e, p.world.approval.committed = some a ∧
        a.state ≠ .pending ∧ p.world.events = [e] ∧ e.state = a.state ∧ x.2 = e.port := by
  intro gate hall hrun
  have hinv : Resumes gate calls (notesOf p) p.world :=
    (tasks_invariant (fun N w i o input r w' hok hcond h hact => by
        obtain ⟨c, hc, hok⟩ := hok
        exact h.step hc hok hcond hact)
      (fun N w d w' new h henv => by
        cases henv
        exact ⟨rfl, h.held.congr rfl rfl, h.logged.congr (fun _ => ⟨rfl, rfl, rfl⟩) rfl rfl rfl rfl,
          h.read, h.ported, h.resumed⟩)
      hall (obeyed_start gate _ calls) (Resumes.initial (locOf_launch _ _ _) rfl) hrun).2
  intro x hx
  obtain ⟨e, he, hport⟩ := hinv.resumed x hx
  obtain ⟨a, ha⟩ := Option.isSome_iff_exists.mp hinv.held.created
  have hres : a.resolved = true := by
    by_contra hno
    simp [hinv.logged.unresolved a ha (Bool.not_eq_true _ ▸ hno)] at he
  obtain ⟨e', he', hstate, -⟩ := hinv.logged.resolved a ha hres
  obtain rfl : e = e' := singleton_inj.mp (he.symm.trans he')
  exact ⟨a, e, ha, by simpa [Approval.resolved] using hres, he, hstate, hport⟩

/-- A gate of one approver, who leads it. -/
def ownGate : ApprovalGateConfig :=
  ⟨.majority, [1], 1, 600, none, by decide, by decide⟩

def gateOfOne : Approval := ownGate.gate 0 0 none 0

/-- Run 5 waits at its node for the gate. -/
def parked : Expiring.Keyspace Unit Claim := fun _ => some ⟨⟨5, "gate"⟩, none⟩

/-- The leader votes, the gate times out, and the run is to be resumed. -/
def voteAndTimeout : Calls :=
  start gateOfOne (.initial gateOfOne 0 parked)
    [.castVote 1 true none, .handleTimeout, .workflowResumeApproval 0]

/-- The gate times out and the run is resumed; the leader comes too late. -/
def timeoutFirst : List (Move Bool Time) :=
  .replicate 7 (.step 1 true) ++ .replicate 7 (.step 2 true) ++ [.step 0 true]

theorem resumed_after_timeout :
    ∃ p, run machine timeoutFirst voteAndTimeout = some p ∧
      p.world.resumptions = [(⟨5, "gate"⟩, .timeout)] ∧
      ∀ x ∈ p.world.resumptions, ∃ a e, p.world.approval.committed = some a ∧
        a.state ≠ .pending ∧ p.world.events = [e] ∧ e.state = a.state ∧ x.2 = e.port := by
  obtain ⟨p, hp, hresumed⟩ : ∃ p ∈ run machine timeoutFirst voteAndTimeout,
      p.world.resumptions = [(⟨5, "gate"⟩, .timeout)] := by
    decide +kernel
  have hsteps :
      checkSteps machine (checkTasks (recorded 1)) timeoutFirst voteAndTimeout = true := by
    decide +kernel
  exact ⟨p, hp, hresumed, resumed_port_is_recorded ownGate 0 0 none 0 0 parked
    [.castVote 1 true none, .handleTimeout, .workflowResumeApproval 0]
    (allSteps_of_checkSteps (atTasks_of_checkTasks fun _ _ _ _ h => h) _ _ hsteps) hp⟩

/-- The leader finds the gate pending, the gate times out without a vote, the leader's ballot
is committed: the run is resumed as approved, though the record stands for a timeout. -/
theorem late_ballot_changes_port :
    ∃ ms p e, run machine ms voteAndTimeout = some p ∧ p.world.events = [e] ∧
      e.leaderVerdict = some .noVote ∧ e.port = .timeout ∧
      p.world.resumptions = [(⟨5, "gate"⟩, .approved)] := by
  obtain ⟨p, hp, e, -, hport⟩ : ∃ p ∈ run machine ([.step 0 true] ++
      .replicate 7 (.step 1 true) ++ .replicate 6 (.step 0 true) ++ .replicate 7 (.step 2 true))
      voteAndTimeout, ∃ e ∈ p.world.events.head?, p.world.events = [e] ∧
        e.leaderVerdict = some .noVote ∧ e.port = .timeout ∧
        p.world.resumptions = [(⟨5, "gate"⟩, .approved)] := by
    decide +kernel
  exact ⟨_, p, e, hp, hport⟩

end Smap.Gates
