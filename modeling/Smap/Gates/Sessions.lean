import Smap.Gates.Service

/-!
# What the sessions on a gate hold

The invariant behind every result on approval gates, for any calls in any interleaving.
An uncommitted version of a ballot or of the gate is the work of a session that has noted
it and has not committed; the gate keeps its rule; and once any session has tried to
resolve the gate, its newest version is resolved and stays what it is.
-/

namespace Smap.Gates

open Program RowVersions Versioned Function Approval Notes

/-- The row of a gate, in whatever state. -/
def IsGate (gate a : Approval) : Prop :=
  { a with state := gate.state, endedAt := gate.endedAt } = gate

namespace IsGate

variable {gate a : Approval}

variable (h : IsGate gate a)

include h

theorem evaluateVotes_eq (votes : List ApprovalVote) :
    evaluateVotes a votes = evaluateVotes gate votes := by
  rw [← h]
  rfl

theorem approvers_eq : a.approverAgentIds = gate.approverAgentIds := by
  rw [← h]

theorem leader_eq : a.leaderAgentId = gate.leaderAgentId := by
  rw [← h]

end IsGate

/-- What the notes of a call are consistent with. -/
structure Proper (gate : Approval) (c : Call) (l : Notes) : Prop where
  read : ∀ a, l.gate = some a → IsGate gate a
  ballot : ∀ b, l.ballot = some b →
    (∃ x r, c = .castVote b.voterAgentId x r) ∧ b.voterAgentId ∈ gate.approverAgentIds
  tally : ∀ v x r, c = .castVote v x r → l.tally.isSome → l.ballot.isSome
  swap : l.swap.isSome → l.tally.isSome
  committed : ∀ v x r, c = .castVote v x r → l.committed = true → l.ballot.isSome

theorem Proper.blank (gate : Approval) (c : Call) : Proper gate c .blank :=
  ⟨nofun, nofun, nofun, nofun, nofun⟩

/-- Rows are what they should be, an uncommitted version of a ballot or of the gate belongs
to a session that has written it and not committed, and the session still holds it. -/
structure Held (gate : Approval) (calls : List Call) (N : ℕ → Notes) (w : World) : Prop where
  proper : ∀ i c, calls[i]? = some c → Proper gate c (N i)
  silent : ∀ i, calls[i]? = none → N i = .blank
  rows : ∀ v, Everywhere (fun b : ApprovalVote => b.voterAgentId = v) (w.votes.row v)
  approval : Everywhere (IsGate gate) w.approval
  created : w.approval.committed.isSome
  ballot_draft : ∀ v i b, (w.votes.row v).draft = some (i, b) →
    (N i).ballot = some b ∧ (N i).committed = false
  ballot_held : ∀ i b, (N i).ballot = some b → (N i).committed = false →
    (w.votes.row b.voterAgentId).draft = some (i, b)
  gate_draft : ∀ i a, w.approval.draft = some (i, a) →
    (N i).swap = some (a.state, true) ∧ (N i).committed = false ∧ a.resolved = true
  swapped : ∀ i, (N i).swap.isSome → w.approval.newest.any resolved = true

namespace Held

variable {gate : Approval} {calls : List Call} {N : ℕ → Notes} {w w' : World} {i : ℕ} {c : Call}
  {l : Notes} {s : ApprovalState} {ended : Option Time} {b : Bool}

theorem initial {claim : Expiring.Keyspace Unit Claim} {clock : Time}
    (hN : ∀ i, N i = .blank) : Held gate calls N (.initial gate clock claim) := by
  refine ⟨fun i c _ => hN i ▸ .blank gate c, fun i _ => hN i, fun v => ⟨nofun, nofun⟩,
    ⟨fun a ha => ?_, nofun⟩, rfl, nofun, fun i b hb => ?_, nofun, fun i hi => ?_⟩
  · cases ha
    rfl
  · rw [hN] at hb
    cases hb
  · rw [hN] at hi
    cases hi

/-- **What a session finds when it tries to resolve the gate**: a resolved gate, which it
leaves, or a pending one that nobody else holds, which it drafts. -/
theorem cas_cases {c c' : Versioned Approval resolved} (hcreated : c.committed.isSome)
    (hcas : casState c i s ended = some (b, c')) :
    (b = false ∧ c' = c ∧ c.newest.any resolved = true) ∨
      (b = true ∧ c'.committed = c.committed ∧ ∃ a, c.newest = some a ∧ a.resolved = false ∧
        c'.draft = some (i, { a with state := s, endedAt := ended }) ∧
        ∀ j a, c.draft = some (j, a) → j = i) := by
  obtain ⟨rfl, rfl, hno⟩ | ⟨rfl, hfree, hcommitted, a, hseen, hpending, hdraft⟩ :=
    update_eq_some hcas
  · obtain ⟨r, hr⟩ := Option.isSome_iff_exists.mp (isSome_seenBy hcreated i)
    have hres : r.resolved = true := by simpa [resolved] using hno r hr
    refine .inl ⟨rfl, rfl, ?_⟩
    obtain hd | ⟨hcom, hd⟩ := final_seenBy hr hres
    · rw [newest_of_draft (draftOf_eq_some.mp hd)]
      simpa using hres
    · rw [newest_of_draft_eq_none hd, hcom]
      simpa using hres
  · refine .inr ⟨rfl, hcommitted, a, ?_, by simpa [resolved] using hpending, hdraft, ?_⟩
    · rw [← seenBy_eq_newest hfree, hseen]
    · rintro j x hd
      obtain hf | ⟨r, hf⟩ := hfree
      · simp [hf] at hd
      · rw [hf] at hd
        exact (Prod.mk.inj (Option.some.inj hd)).1.symm

theorem ne_pending_of_decides {a : Approval} {votes : List ApprovalVote} (h : c.Decides a votes s) :
    s ≠ .pending := by
  cases c with
  | castVote =>
    rintro rfl
    exact evaluateVotes_ne_pending h
  | handleTimeout =>
    obtain rfl : s = .timeoutLeader := h
    nofun
  | workflowResumeApproval => cases h

variable (h : Held gate calls N w)

include h

/-- Nothing but the gate and the ballots matters. -/
theorem congr (ha : w'.approval = w.approval) (hv : w'.votes = w.votes) : Held gate calls N w' := by
  constructor
  · exact h.proper
  · exact h.silent
  · rw [hv]
    exact h.rows
  · rw [ha]
    exact h.approval
  · rw [ha]
    exact h.created
  · rw [hv]
    exact h.ballot_draft
  · rw [hv]
    exact h.ballot_held
  · rw [ha]
    exact h.gate_draft
  · rw [ha]
    exact h.swapped

/-- What a session reads is what it sees. -/
theorem mem_listForApproval {b : ApprovalVote} :
    b ∈ w.listForApproval i ↔ (w.votes.row b.voterAgentId).seenBy i = some b := by
  have hperm := List.perm_insertionSort (fun v v' : ApprovalVote => v.castAt ≤ v'.castAt)
    (w.votes.select i fun _ => true)
  rw [World.listForApproval, hperm.mem_iff, Table.mem_select]
  constructor
  · rintro ⟨k, -, hk⟩
    have hkey : b.voterAgentId = k := (h.rows k).seenBy hk
    rwa [hkey]
  · exact fun hb => ⟨b.voterAgentId, rfl, hb⟩

/-- Nobody's ballot is read twice. -/
theorem nodup_listForApproval (i : ℕ) :
    ((w.listForApproval i).map ApprovalVote.voterAgentId).Nodup := by
  have hperm := List.perm_insertionSort (fun v v' : ApprovalVote => v.castAt ≤ v'.castAt)
    (w.votes.select i fun _ => true)
  exact (hperm.map _).nodup_iff.mpr (Table.nodup_select fun v b hb => (h.rows v).seenBy hb)

variable (hc : calls[i]? = some c)

include hc

theorem proper_update (hl : Proper gate c l) :
    ∀ j d, calls[j]? = some d → Proper gate d (Function.update N i l j) := by
  refine fun j => update_elim (fun d hd => ?_) fun j _ => h.proper j
  cases hc.symm.trans hd
  exact hl

theorem silent_update (l : Notes) : ∀ j, calls[j]? = none → Function.update N i l j = .blank := by
  refine fun j => update_elim (fun hj => ?_) fun j _ => h.silent j
  simp [hc] at hj

/-- A session notes something without having written. -/
theorem noted (hl : Proper gate c l) (hballot : l.ballot = (N i).ballot)
    (hswap : l.swap = (N i).swap) (hopen : l.committed = (N i).committed) :
    Held gate calls (Function.update N i l) w := by
  have hb := update_kept hballot
  have hs := update_kept hswap
  have ho := update_kept hopen
  constructor
  · exact h.proper_update hc hl
  · exact h.silent_update hc _
  · exact h.rows
  · exact h.approval
  · exact h.created
  · simpa only [hb, ho] using h.ballot_draft
  · simpa only [hb, ho] using h.ballot_held
  · simpa only [hs, ho] using h.gate_draft
  · simpa only [hs] using h.swapped

/-- A ballot is cast. -/
theorem cast {v : ApprovalVote} (hok : c.Ok (N i) (.cast v)) {t : Table Uuid ApprovalVote}
    (ht : w.votes.upsert i v.voterAgentId v = some t) :
    Held gate calls (Function.update N i { N i with ballot := some v }) { w with votes := t } := by
  obtain ⟨hnone, htally, hswap, hopen, hcall, a, hgate, hv⟩ := hok
  obtain ⟨hfree, hcommitted, hdraft, hother⟩ := Table.upsert_eq_some ht
  have hp := h.proper i c hc
  have hblank : ∀ j b, j ≠ i → (w.votes.row v.voterAgentId).draft ≠ some (j, b) := by
    rintro j b hj hd
    obtain hf | ⟨r, hf⟩ := hfree
    · simp [hf] at hd
    · rw [hf] at hd
      exact hj (Prod.mk.inj (Option.some.inj hd)).1.symm
  constructor
  · refine h.proper_update hc ⟨hp.read, ?_, fun _ _ _ _ _ => rfl, hp.swap, fun _ _ _ _ _ => rfl⟩
    rintro b hb
    cases hb
    exact ⟨hcall, (hp.read a hgate).approvers_eq ▸ hv⟩
  · exact h.silent_update hc _
  · intro k
    by_cases hk : k = v.voterAgentId
    · subst hk
      refine ⟨fun b hb => (h.rows _).committed b (hcommitted ▸ hb), fun j b hb => ?_⟩
      rw [hdraft] at hb
      cases hb
      rfl
    · rw [hother k hk]
      exact h.rows k
  · exact h.approval
  · exact h.created
  · intro k j b hd
    by_cases hk : k = v.voterAgentId
    · subst hk
      rw [hdraft] at hd
      cases hd
      rw [update_self]
      exact ⟨rfl, hopen⟩
    · rw [hother k hk] at hd
      obtain ⟨hb, ho⟩ := h.ballot_draft k j b hd
      have hj : j ≠ i := by
        rintro rfl
        simp [hnone] at hb
      rw [update_of_ne hj]
      exact ⟨hb, ho⟩
  · refine fun j b => update_elim (fun hb _ => ?_) fun j hj hb ho => ?_
    · cases hb
      exact hdraft
    · have hd := h.ballot_held j b hb ho
      have hk : b.voterAgentId ≠ v.voterAgentId := fun hk => hblank j b hj (hk ▸ hd)
      rw [hother _ hk]
      exact hd
  · intro j x hd
    have hx := h.gate_draft j x hd
    have hj : j ≠ i := by
      rintro rfl
      rw [hswap] at hx
      cases hx.1
    rwa [update_of_ne hj]
  · intro j hj
    rw [update_kept (f := swap)] at hj
    · exact h.swapped j hj
    · rfl

/-- A session tries to resolve the gate. -/
theorem update (hok : c.Ok (N i) (.updateState s ended)) {r : Versioned Approval resolved}
    (hcas : casState w.approval i s ended = some (b, r)) :
    Held gate calls (Function.update N i { N i with swap := some (s, b) })
      { w with approval := r } := by
  obtain ⟨hswap, -, hopen, a, votes, -, htally, hdec⟩ := hok
  have hp := h.proper i c hc
  have hres : r.newest.any resolved = true := by
    obtain ⟨-, rfl, hres⟩ | ⟨-, -, x, -, -, hd, -⟩ := cas_cases h.created hcas
    · exact hres
    · rw [newest_of_draft hd]
      simpa [resolved] using ne_pending_of_decides hdec
  have hb := update_kept (l := { N i with swap := some (s, b) }) (f := Notes.ballot) rfl
  have ho := update_kept (l := { N i with swap := some (s, b) }) (f := Notes.committed) rfl
  constructor
  · exact h.proper_update hc ⟨hp.read, hp.ballot, hp.tally, fun _ => htally ▸ rfl, hp.committed⟩
  · exact h.silent_update hc _
  · exact h.rows
  · obtain ⟨-, rfl, -⟩ | ⟨-, hcom, x, hx, -, hd, -⟩ := cas_cases h.created hcas
    · exact h.approval
    refine ⟨fun y hy => h.approval.committed y (hcom ▸ hy), fun j y hy => ?_⟩
    have hold : IsGate gate x := by
      unfold Versioned.newest at hx
      cases hdraft : w.approval.draft with
      | none =>
        rw [hdraft] at hx
        exact h.approval.committed x hx
      | some d =>
        rw [hdraft] at hx
        obtain rfl : d.2 = x := Option.some.inj hx
        exact h.approval.draft d.1 d.2 hdraft
    rw [hd] at hy
    cases hy
    exact hold
  · obtain ⟨-, rfl, -⟩ | ⟨-, hcom, -⟩ := cas_cases h.created hcas
    · exact h.created
    · exact hcom ▸ h.created
  · simpa only [hb, ho] using h.ballot_draft
  · simpa only [hb, ho] using h.ballot_held
  · intro j x hd
    obtain ⟨-, rfl, -⟩ | ⟨rfl, -, y, -, -, hd', -⟩ := cas_cases h.created hcas
    · have hx := h.gate_draft j x hd
      have hj : j ≠ i := by
        rintro rfl
        rw [hswap] at hx
        cases hx.1
      rwa [update_of_ne hj]
    · rw [hd'] at hd
      cases hd
      rw [update_self]
      refine ⟨rfl, hopen, ?_⟩
      simpa [resolved] using ne_pending_of_decides hdec
  · exact fun _ _ => hres

/-- A session commits. -/
theorem commit (hok : c.Ok (N i) .commit) :
    Held gate calls (Function.update N i { N i with committed := true }) (w.commit i) := by
  have hp := h.proper i c hc
  constructor
  · exact h.proper_update hc ⟨hp.read, hp.ballot, hp.tally, hp.swap, fun v x r he _ =>
      hok.2.2.2 v x r he⟩
  · exact h.silent_update hc _
  · exact fun v => (h.rows v).commit i
  · exact h.approval.commit i
  · change (w.approval.commit i).committed.isSome = true
    rw [committed_commit]
    exact isSome_seenBy h.created i
  · intro k j x hd
    obtain ⟨hd, hj⟩ := draft_commit hd
    rw [update_of_ne hj]
    exact h.ballot_draft k j x hd
  · refine fun j x => update_elim (fun _ ho => ?_) fun j hj hx ho => ?_
    · simp at ho
    · have hd := h.ballot_held j x hx ho
      change ((w.votes.row x.voterAgentId).commit i).draft = some (j, x)
      rwa [commit_of_draft hd hj]
  · intro j x hd
    obtain ⟨hd, hj⟩ := draft_commit hd
    rw [update_of_ne hj]
    exact h.gate_draft j x hd
  · intro j hj
    change (w.approval.commit i).newest.any resolved = true
    rw [newest_commit]
    rw [update_kept (f := swap)] at hj
    · exact h.swapped j hj
    · rfl

/-- **Every operation keeps what the sessions hold.** -/
theorem step {o : Op} (hok : c.Ok (N i) o) {input : Bool} {r : Res o}
    (hact : act i o input w = some (r, w')) :
    Held gate calls (Function.update N i (note (N i) o r)) w' := by
  have hp := h.proper i c hc
  have hquiet : ∀ {w' : World}, w'.approval = w.approval → w'.votes = w.votes →
      Held gate calls (Function.update N i (N i)) w' := by
    intro w' ha hv
    rw [update_eq_self]
    exact h.congr ha hv
  cases o with
  | getApproval =>
    cases hact
    refine h.noted hc ⟨fun a ha => h.approval.seenBy ha, hp.ballot, hp.tally, hp.swap,
      hp.committed⟩ rfl rfl rfl
  | cast =>
    obtain ⟨t, ht, ⟨⟩⟩ := Option.map_eq_some_iff.mp hact
    exact h.cast hc hok ht
  | listForApproval =>
    cases hact
    exact h.noted hc ⟨hp.read, hp.ballot, fun v x r he _ => hok.2.2.2.2 v x r he, fun _ => rfl,
      hp.committed⟩ rfl rfl rfl
  | updateState =>
    obtain ⟨⟨b, x⟩, hx, ⟨⟩⟩ := Option.map_eq_some_iff.mp hact
    exact h.update hc hok hx
  | emit e =>
    cases hact
    have hnoted : Held gate calls (Function.update N i { N i with event := some e }) w :=
      h.noted hc ⟨hp.read, hp.ballot, hp.tally, hp.swap, hp.committed⟩ rfl rfl rfl
    exact hnoted.congr rfl rfl
  | commit =>
    cases hact
    exact h.commit hc hok
  | _ =>
    cases hact
    exact hquiet rfl rfl

end Held

end Smap.Gates
