import Smap.Chains.Triggers

/-!
# Chains of synchronous calls

A synchronous call runs a turn of its callee.  A call made inside that turn extends the
chain bound for it; a call made by a workflow that the envelope started extends the chain
its payload carries.  Both read back what was sent, so a chain of nested calls is a chain of
guarded hops, and everything depends on the chain the first call extends: it is empty at a
root, and what the payload says in a workflow run.
-/

namespace Smap.Chains

open Smap.Workflow Smap.Lib A2AEnvelope CallRequest

variable {Uuid : Type} (T : Texts Uuid)

/-- A call nested in another: made inside the turn that the outer one runs, or by a workflow
run that its envelope started. -/
inductive NextCall (e : A2AEnvelope Uuid) : A2AEnvelope Uuid → Prop
  | inTurn {delivered e' : A2AEnvelope Uuid} {request : CallRequest Uuid} {sent : Bool} :
      fromDict T (e.toDict T) = some delivered →
      request.inboundCallDepth = none → request.inboundCallPath = none →
      call T (boundCallChain delivered) request sent = .ok e' → NextCall e e'
  | worker {r : Run Uuid} {current : Trail ℚ Json} {agentId : Uuid} {renderedInput : String}
      {sent : Bool} {e' : A2AEnvelope Uuid} : Starts T e r →
      agentInvocation T current r agentId renderedInput sent = .ok e' → NextCall e e'

variable {T}

variable {e e' : A2AEnvelope Uuid}

/-- The chain that the next call reads. -/
theorem NextCall.extends_received (h : NextCall T e e') :
    e.received.callTrail.Extends a2aCallMaxDepth e'.callTrail := by
  cases h with
  | @inTurn delivered _ request sent hread hdepth hpath hcall =>
    rw [fromDict_toDict, Option.some.injEq] at hread
    subst hread
    obtain ⟨t, ht, hext, -⟩ := call_eq_ok T hcall
    have hbase : request.trail? (boundCallChain e.received) = some e.received.callTrail := by
      simp [trail?, base, hdepth, hpath, boundCallChain]
    rw [hbase, Option.some.injEq] at ht
    exact ht ▸ hext
  | worker hstarts hcall =>
    have hc := hstarts.carries
    unfold agentInvocation at hcall
    split at hcall
    · cases hcall
    · obtain ⟨t, ht, hext, -⟩ := call_eq_ok T hcall
      have htrail : t = e.received.callTrail := by
        simpa [trail?, base, hc.callDepth, hc.callPath, received, callTrail, eq_comm] using ht
      exact htrail ▸ hext

/-- A whole counter is read back as it was sent. -/
theorem A2AEnvelope.callTrail_received (h : e.callTrail.Tight) :
    e.received.callTrail = e.callTrail := by
  have hdepth : e.callDepth = ((e.callPath.length : ℤ) : ℚ) := by
    exact h
  simp only [received, callTrail, Trail.mk.injEq, and_true]
  rw [hdepth, truncate_intCast]

/-- What is asked of the chain that a call carries. -/
structure A2AEnvelope.CallInOrder (e : A2AEnvelope Uuid) : Prop where
  distinct : e.callPath.Nodup
  depth : e.callDepth = e.callPath.length
  length : (e.callPath.length : ℚ) ≤ a2aCallMaxDepth

/-- One accepted call: its chain is in order exactly when the chain it extends has distinct
entries and a counter that is their number. -/
theorem callInOrder_iff {t : Trail ℚ Json} (h : t.Extends a2aCallMaxDepth e.callTrail) :
    e.CallInOrder ↔ t.depth = t.path.length ∧ t.path.Nodup := by
  have hcap : e.callDepth ≤ a2aCallMaxDepth := by
    obtain ⟨a, -, -, hcap⟩ := h
    exact hcap
  constructor
  · intro he
    exact ⟨h.tight_iff.mp he.depth, h.nodup_iff.mp he.distinct⟩
  · rintro ⟨hdepth, hnodup⟩
    have htight : e.callDepth = e.callPath.length := h.tight_iff.mpr hdepth
    exact ⟨h.nodup_iff.mpr hnodup, htight, htight ▸ hcap⟩

/-- A call nested in one whose chain is in order has its chain in order. -/
theorem NextCall.callInOrder (h : NextCall T e e') (he : e.CallInOrder) : e'.CallInOrder := by
  have hext := h.extends_received
  rw [callTrail_received he.depth] at hext
  exact (callInOrder_iff hext).mpr ⟨he.depth, he.distinct⟩

/-- **Nested calls are bounded exactly when the first one starts well.**  On every call of a
chain the callees are distinct, the counter is their number and the number is at most the
cap, if and only if the chain that the first call extends has distinct entries and a counter
that is their number. -/
theorem call_chain_bounded_iff {current : Trail ℚ Json} {request : CallRequest Uuid}
    {sent : Bool} {e : A2AEnvelope Uuid} {es : List (A2AEnvelope Uuid)}
    (hfirst : call T current request sent = .ok e) (hchain : (e :: es).IsChain (NextCall T)) :
    (∀ x ∈ e :: es, x.CallInOrder) ↔
      ∀ t, request.trail? current = some t → t.depth = t.path.length ∧ t.path.Nodup := by
  obtain ⟨t, ht, hext, -⟩ := call_eq_ok T hfirst
  constructor
  · intro h u hu
    rw [ht, Option.some.injEq] at hu
    exact hu ▸ (callInOrder_iff hext).mp (h e List.mem_cons_self)
  · intro h
    have he : e.CallInOrder := (callInOrder_iff hext).mpr (h t ht)
    exact List.IsChain.induction A2AEnvelope.CallInOrder (e :: es) hchain
      (fun _ _ hnext hx => hnext.callInOrder hx) (fun _ => he)

/-! ## Chains from manual runs -/

/-- The calls made one inside the turn of the other, starting from an accepted one. -/
def nestCalls (T : Texts Uuid) : A2AEnvelope Uuid → List Uuid → Option (List (A2AEnvelope Uuid))
  | _, [] => some []
  | e, callee :: rest => do
    let delivered ← fromDict T (e.toDict T)
    let e' ← (call T (boundCallChain delivered)
      { fromAgentId := none, toAgentId := callee, payload := [] } true).toOption
    let es ← nestCalls T e' rest
    some (e' :: es)

theorem isChain_of_nestCalls {callees : List Uuid}
    {es : List (A2AEnvelope Uuid)} (h : nestCalls T e callees = some es) :
    (e :: es).IsChain (NextCall T) := by
  induction callees generalizing e es with
  | nil =>
    cases h
    exact List.isChain_singleton _
  | cons callee rest ih =>
    simp only [nestCalls, Option.bind_eq_bind, Option.bind_eq_some_iff] at h
    obtain ⟨delivered, hread, e', hcall, es', hes', hes⟩ := h
    cases hes
    exact List.isChain_cons_cons.mpr
      ⟨.inTurn hread rfl rfl (toOption_eq_some hcall), ih hes'⟩

/-- A call to `a` with no chain around it. -/
def rootCall : CallRequest Char := { fromAgentId := none, toAgentId := 'a', payload := [] }

/-- Three nested calls from a root. -/
theorem root_calls_in_order :
    ∃ e es, call letters ⟨0, []⟩ rootCall true = .ok e ∧ es.length = 2 ∧
      (e :: es).IsChain (NextCall letters) ∧ ∀ x ∈ e :: es, x.CallInOrder := by
  obtain ⟨e, he, es, hes, hlen⟩ : ∃ e ∈ (call letters ⟨0, []⟩ rootCall true).toOption,
      ∃ es ∈ nestCalls letters e ['b', 'c'], es.length = 2 := by
    decide +kernel
  have hfirst := toOption_eq_some he
  have hchain := isChain_of_nestCalls hes
  refine ⟨e, es, hfirst, hlen, hchain, (call_chain_bounded_iff hfirst hchain).mpr ?_⟩
  intro t ht
  cases ht
  simp

/-- A run started by hand with a chain of its own. -/
def misledCaller : Run Char :=
  manualRun [("call_depth", .int (-3)), ("call_path", .arr [.str "q", .str "q"])]

/-- Seven nested calls from a run started by hand with a chain of its own.  No path on them
has distinct entries, no counter is the length of its path, and the last path is longer than
the cap. -/
theorem manual_path_exceeds_call_bound :
    ∃ e es, agentInvocation letters ⟨0, []⟩ misledCaller 'a' "hello" true = .ok e ∧
      (e :: es).IsChain (NextCall letters) ∧
      (∀ x ∈ e :: es, ¬ x.callPath.Nodup ∧ x.callDepth ≠ x.callPath.length) ∧
      ∃ x ∈ e :: es, a2aCallMaxDepth < x.callPath.length := by
  obtain ⟨e, he, es, hes, hall, hlong⟩ :
      ∃ e ∈ (agentInvocation letters ⟨0, []⟩ misledCaller 'a' "hello" true).toOption,
        ∃ es ∈ nestCalls letters e ['b', 'c', 'd', 'e', 'f', 'g'],
          (∀ x ∈ e :: es, hasText "q" (x.callPath.take 1) = true ∧
            hasText "q" (x.callPath.drop 1) = true ∧ x.callDepth ≠ x.callPath.length) ∧
          ∃ x ∈ e :: es, a2aCallMaxDepth < x.callPath.length := by
    decide +kernel
  refine ⟨e, es, toOption_eq_some he, isChain_of_nestCalls hes, ?_, hlong⟩
  intro x hx
  obtain ⟨htake, hdrop, hdepth⟩ := hall x hx
  rw [hasText_iff] at htake hdrop
  exact ⟨fun hnodup => List.disjoint_take_drop hnodup le_rfl htake hdrop, hdepth⟩

end Smap.Chains
