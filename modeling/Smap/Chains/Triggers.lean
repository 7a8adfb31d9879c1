import Smap.Chains.Transport

/-!
# Trigger chains

A run sends an envelope, the envelope is relayed as a `workflow_signal`, the dispatch starts
a further run, and so on.  Every run adds its own workflow to the trail it was started with,
and the dispatch refuses a workflow that is on the trail, so the workflows along a chain are
distinct whatever the first run was started with.  The counter is another matter: it goes up
by one at each hop, but it starts from what the first run's payload says, and a manual run
takes its payload from the request as it is.
-/

namespace Smap.Chains

open Smap.Workflow Smap.Lib Run List Trail

variable {Uuid : Type} {T : Texts Uuid}

theorem toOption_eq_some {ε α : Type} {x : Except ε α} {a : α} (h : x.toOption = some a) :
    x = .ok a := by
  cases x with
  | error => cases h
  | ok => exact congrArg _ (Option.some.inj h)

/-- The trail a run sends, with a default for a run whose payload cannot be read. -/
def Run.trail (T : Texts Uuid) (r : Run Uuid) : Trail ℤ Json := (r.outTrigger? T).getD ⟨0, []⟩

theorem Run.trail_of_triggerTrail? {r : Run Uuid} {t : Trail ℤ Json}
    (h : r.triggerTrail? T = some t) : r.trail T = t.push (.str (T.str r.workflowId)) := by
  simp [trail, outTrigger?, h]

variable [DecidableEq Uuid] (T)

/-- One use of an executor that sends envelopes, with what it finds. -/
inductive Sending (Uuid : Type) where
  | agentInvocation (current : Trail ℚ Json) (agentId : Uuid) (renderedInput : String) (sent : Bool)
  | instruct (current : InstructChain Uuid) (issuerId targetId : Uuid) (rendered : String)
      (answers : IssueAnswers Uuid)

/-- The envelope a run sends, if it does. -/
def Run.emit (r : Run Uuid) : Sending Uuid → Option (A2AEnvelope Uuid)
  | .agentInvocation current agentId renderedInput sent =>
    (agentInvocation T current r agentId renderedInput sent).toOption
  | .instruct current issuerId targetId rendered answers => do
    let request ← r.issueRequest? T issuerId targetId rendered
    let (_, e) ← (issue T current request answers).toOption
    some e

/-- A chain of runs, each started by an envelope that the run before it sent. -/
inductive CausalChain : Run Uuid → List (A2AEnvelope Uuid × Run Uuid) → Prop
  | nil (r : Run Uuid) : CausalChain r []
  | cons {r r' : Run Uuid} {e : A2AEnvelope Uuid} {l : List (A2AEnvelope Uuid × Run Uuid)}
      (sending : Sending Uuid) : r.emit T sending = some e → Starts T e r' →
      CausalChain r' l → CausalChain r ((e, r') :: l)

variable {T}

variable {r r' : Run Uuid} {e : A2AEnvelope Uuid} {sending : Sending Uuid}
  {l : List (A2AEnvelope Uuid × Run Uuid)}

/-- Whatever a run sends carries the run's own trail. -/
theorem Run.outTrigger?_of_emit (h : r.emit T sending = some e) :
    r.outTrigger? T = some e.triggerTrail := by
  cases sending with
  | agentInvocation =>
    have hcall := toOption_eq_some h
    unfold agentInvocation at hcall
    split at hcall
    · cases hcall
    case h_2 out hout =>
      obtain ⟨-, -, -, htrigger, -⟩ := call_eq_ok T hcall
      rw [hout, htrigger]
  | instruct =>
    simp only [emit, Option.bind_eq_bind, Option.bind_eq_some_iff] at h
    obtain ⟨request, hrequest, ⟨i, e'⟩, hissue, he⟩ := h
    cases he
    simp only [issueRequest?, Option.bind_eq_bind, Option.bind_eq_some_iff] at hrequest
    obtain ⟨parentPath, -, out, hout, hreq⟩ := hrequest
    have htrigger := (issue_eq_ok T (toOption_eq_some hissue)).trigger
    rw [hout, htrigger, ← Option.some.inj hreq]

/-- A run that sends an envelope was started with a trail that could be read. -/
theorem Run.exists_of_emit (h : r.emit T sending = some e) :
    ∃ t, r.triggerTrail? T = some t ∧ e.triggerTrail = t.push (.str (T.str r.workflowId)) := by
  have hout := outTrigger?_of_emit h
  obtain ⟨t, ht, hpush⟩ := Option.map_eq_some_iff.mp hout
  exact ⟨t, ht, hpush.symm⟩

/-- One hop of a causal chain is one guarded hop of the trails. -/
theorem Run.trail_extends (he : r.emit T sending = some e) (hr' : Starts T e r') :
    (r.trail T).Extends triggerMaxChainDepth (r'.trail T) := by
  have hc := hr'.carries
  have htrail : r.trail T = e.triggerTrail := by
    simp [trail, outTrigger?_of_emit he]
  rw [htrail, trail_of_triggerTrail? hc.trigger]
  refine ⟨_, hc.fresh, rfl, ?_⟩
  exact hc.depth

section CausalChain

variable (h : CausalChain T r l)

include h

theorem CausalChain.extends :
    ((r :: l.map Prod.snd).map (trail T)).IsChain (Trail.Extends triggerMaxChainDepth) := by
  induction h with
  | nil => exact isChain_singleton _
  | cons sending he hr' hl ih =>
    exact isChain_cons_cons.mpr ⟨trail_extends he hr', ih⟩

/-- The runs that a chain starts were started with a trail that could be read. -/
theorem CausalChain.exists_triggerTrail? :
    ∀ x ∈ l, x.2.triggerTrail? T = some x.1.triggerTrail := by
  induction h with
  | nil => simp
  | cons sending he hr' hl ih =>
    intro x hx
    rcases mem_cons.mp hx with rfl | hx
    · exact hr'.carries.trigger
    · exact ih x hx

variable (hr : ∀ t, r.triggerTrail? T = some t → t.Tight)

include hr

/-- The trails agree along the whole chain, if they do at its start. -/
theorem CausalChain.tight : ∀ x ∈ l, x.1.triggerTrail.Tight := by
  induction h with
  | nil => simp
  | cons sending he hr' hl ih =>
    obtain ⟨t, ht, hpush⟩ := exists_of_emit he
    have hsent := hpush ▸ tight_push.mpr (hr t ht)
    intro x hx
    rcases mem_cons.mp hx with rfl | hx
    · exact hsent
    · refine ih ?_ x hx
      intro u hu
      rw [hr'.carries.trigger, Option.some.injEq] at hu
      exact hu ▸ hsent

omit hr in
/-- The workflows along a chain are distinct. -/
theorem CausalChain.nodup_workflowIds : ((r :: l.map Prod.snd).map workflowId).Nodup := by
  have hext := h.extends
  have hread := h.exists_triggerTrail?
  cases h with
  | nil => simp
  | @cons _ r' e l sending he =>
    obtain ⟨t, ht, -⟩ := exists_of_emit he
    have hne : (r.trail T).path ≠ [] := by simp [trail_of_triggerTrail? ht]
    have htips := nodup_tips hext hne
    -- The tip of the trail a run sends is its own workflow.
    have htip : ∀ x ∈ r :: ((e, r') :: l).map Prod.snd,
        (tip ∘ trail T) x = some (Json.str (T.str x.workflowId)) := by
      intro x hx
      rcases mem_cons.mp hx with rfl | hx
      · rw [Function.comp_apply, trail_of_triggerTrail? ht, tip_push]
      · obtain ⟨y, hy, rfl⟩ := mem_map.mp hx
        rw [Function.comp_apply, trail_of_triggerTrail? (hread y hy), tip_push]
    rw [← map_cons, map_map, map_congr_left htip] at htips
    refine List.Nodup.of_map (fun u => some (Json.str (T.str u))) ?_
    rw [map_map]
    exact htips

/-- A chain that starts with an agreeing trail has at most as many runs as the cap. -/
theorem CausalChain.length_le : (l.length : ℤ) + 1 ≤ triggerMaxChainDepth := by
  have hext := h.extends
  cases h with
  | nil => simp [triggerMaxChainDepth]
  | @cons _ r' e l sending he hr' =>
    obtain ⟨t, ht, hpush⟩ := exists_of_emit he
    have hdepth : (r'.trail T).depth = t.path.length + 2 := by
      rw [trail_of_triggerTrail? hr'.carries.trigger, depth_push, hpush, depth_push, hr t ht]
      ring
    obtain ⟨⟨-, -, -, hcap⟩, hrest⟩ := isChain_cons_cons.mp hext
    have hbound := add_length_le_of_isChain (isChain_depth hrest) hcap
    simp only [length_map] at hbound
    simp only [length_cons]
    push_cast
    linarith [Int.natCast_nonneg t.path.length]

end CausalChain

/-- What is asked of a chain: distinct workflows, no more runs than the cap and one, and
counters that are the lengths of their paths, on every envelope and in every run started. -/
structure BoundedChain (T : Texts Uuid) (r : Run Uuid)
    (l : List (A2AEnvelope Uuid × Run Uuid)) : Prop where
  distinct : ((r :: l.map Prod.snd).map workflowId).Nodup
  length : ((r :: l.map Prod.snd).length : ℤ) ≤ triggerMaxChainDepth + 1
  sent : ∀ x ∈ l, x.1.triggerDepth = x.1.triggerPath.length
  started : ∀ x ∈ l, ∃ t, x.2.triggerTrail? T = some t ∧ t.depth = t.path.length

/-- **A trigger chain is bounded exactly when it starts well.**  The workflows on a chain
are distinct, there are at most the cap and one of them and each counter is the length of
its path, if and only if nothing is sent or the payload of the first run has a counter that
is the length of its path. -/
theorem trigger_chain_bounded_iff {r : Run Uuid} {l : List (A2AEnvelope Uuid × Run Uuid)}
    (h : CausalChain T r l) :
    BoundedChain T r l ↔
      l = [] ∨ ∀ t, r.triggerTrail? T = some t → t.depth = t.path.length := by
  constructor
  · intro hb
    cases h with
    | nil => exact Or.inl rfl
    | cons sending he =>
      refine Or.inr ?_
      intro t ht
      obtain ⟨u, hu, hpush⟩ := exists_of_emit he
      rw [ht, Option.some.injEq] at hu
      subst hu
      have hsent : (t.push (.str (T.str r.workflowId))).Tight :=
        hpush ▸ hb.sent _ mem_cons_self
      exact tight_push.mp hsent
  · rintro (rfl | hr)
    · exact ⟨by simp, by simp [triggerMaxChainDepth], by simp, by simp⟩
    have htight := h.tight hr
    have hlength := h.length_le hr
    constructor
    · exact h.nodup_workflowIds
    · simp only [length_cons, length_map]
      push_cast
      linarith
    · exact htight
    · intro x hx
      exact ⟨_, h.exists_triggerTrail? x hx, htight x hx⟩

/-! ## Chains from manual runs -/

/-- The run a workflow gets from an envelope, if the dispatch starts one. -/
def startBy? (T : Texts Uuid) (e : A2AEnvelope Uuid) (wf runId : Uuid) : Option (Run Uuid) := do
  let e' ← A2AEnvelope.fromDict T (e.toDict T)
  let d ← enqueueTriggers T (workflowSignal e') [wf] "a2a_event"
  let (workflowId, triggerPayload) ← d.started.head?
  some { runId, workflowId, triggerPayload }

omit [DecidableEq Uuid] in
theorem starts_of_startBy? {wf runId : Uuid} (h : startBy? T e wf runId = some r) :
    Starts T e r := by
  simp only [startBy?, Option.bind_eq_bind, Option.bind_eq_some_iff] at h
  obtain ⟨e', he', d, hd, ⟨workflowId, triggerPayload⟩, hhead, hr⟩ := h
  cases hr
  exact ⟨e', he', [wf], d, hd, mem_of_head? hhead⟩

/-- The chain that a list of sendings and of matching workflows leads to. -/
def follow (T : Texts Uuid) :
    Run Uuid → List (Sending Uuid × Uuid) → Option (List (A2AEnvelope Uuid × Run Uuid))
  | _, [] => some []
  | r, (sending, wf) :: rest => do
    let e ← r.emit T sending
    let r' ← startBy? T e wf r.runId
    let l ← follow T r' rest
    some ((e, r') :: l)

theorem causalChain_of_follow {hops : List (Sending Uuid × Uuid)} (h : follow T r hops = some l) :
    CausalChain T r l := by
  induction hops generalizing r l with
  | nil =>
    cases h
    exact .nil r
  | cons hop rest ih =>
    obtain ⟨sending, wf⟩ := hop
    simp only [follow, Option.bind_eq_bind, Option.bind_eq_some_iff] at h
    obtain ⟨e, he, r', hr', l', hl', hl⟩ := h
    cases hl
    exact .cons sending he (starts_of_startBy? hr') (ih hl')

/-- A call to agent `x` of a worker with nothing bound. -/
def callX : Sending Char := .agentInvocation ⟨0, []⟩ 'x' "hello" true

/-- Every service agrees to an instruction. -/
def consent : IssueAnswers Char :=
  { newChainId := 'c', newId := 'i', canInstruct := true, issuedInWindow := none, elapsed := none,
    sent := true }

/-- An instruction of `y` to `z`. -/
def instructZ : Sending Char := .instruct {} 'y' 'z' "do it" consent

/-- A run of workflow `a` that was started by hand with the given payload. -/
def manualRun (triggerPayload : JsonObject) : Run Char := ⟨'r', 'a', triggerPayload⟩

/-- A run started by hand with a counter of its own. -/
def misledRun : Run Char := manualRun [("trigger_depth", .int (-2))]

/-- Calls and instructions in turn: neither carries the other's chain on. -/
def hopsThrough (workflows : List Char) : List (Sending Char × Char) :=
  workflows.mapIdx fun i wf => (if i % 2 = 0 then callX else instructZ, wf)

/-- Three hops from a run with an empty payload. -/
theorem well_started_chain_bounded :
    ∃ l, l.length = 3 ∧ CausalChain letters (manualRun []) l ∧
      BoundedChain letters (manualRun []) l := by
  obtain ⟨l, hl, hlen⟩ : ∃ l ∈ follow letters (manualRun []) (hopsThrough ['b', 'c', 'd']),
      l.length = 3 := by
    decide +kernel
  have hchain := causalChain_of_follow hl
  refine ⟨l, hlen, hchain, (trigger_chain_bounded_iff hchain).mpr (Or.inr ?_)⟩
  intro t ht
  cases ht
  rfl

/-- A run started by hand with a `trigger_depth` of its own makes a chain of twelve runs,
one more than the cap and one, and no counter on it is the length of its path. -/
theorem manual_depth_exceeds_bound :
    ∃ l, CausalChain letters misledRun l ∧
      triggerMaxChainDepth + 1 < ((misledRun :: l.map Prod.snd).length : ℤ) ∧
      ∀ x ∈ l, x.1.triggerDepth ≠ x.1.triggerPath.length := by
  obtain ⟨l, hl, hlen, hdepths⟩ : ∃ l ∈ follow letters misledRun
      (hopsThrough ['b', 'c', 'd', 'e', 'f', 'g', 'h', 'i', 'j', 'k', 'l']),
      l.length = 11 ∧ ∀ x ∈ l, x.1.triggerDepth ≠ x.1.triggerPath.length := by
    decide +kernel
  refine ⟨l, causalChain_of_follow hl, ?_, hdepths⟩
  simp [hlen, triggerMaxChainDepth]

end Smap.Chains
