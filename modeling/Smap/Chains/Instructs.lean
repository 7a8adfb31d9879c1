import Smap.Chains.Triggers

/-!
# Chains of instructions

An instruction runs a turn of its target.  An instruction issued inside that turn continues
the chain bound for it, and one issued by a workflow that the envelope started continues the
chain its payload carries.  Both chains are read from the payload of the envelope, under
keys that the service writes first and the caller's own payload may overwrite.
-/

namespace Smap.Chains

open Smap.Workflow Smap.Lib A2AEnvelope Option

variable {Uuid : Type} [DecidableEq Uuid] (T : Texts Uuid)

/-- An instruction that `issue` accepted, with the call that issued it. -/
structure Accepted where
  current : InstructChain Uuid
  request : IssueRequest Uuid
  answers : IssueAnswers Uuid
  instruction : Instruction Uuid
  envelope : A2AEnvelope Uuid
  accepted : issue T current request answers = .ok (instruction, envelope)

/-- An instruction nested in another: issued inside the turn that the outer one runs, or by
a workflow run that its envelope started. -/
inductive NextInstruct (a b : Accepted T) : Prop
  | inTurn {delivered : A2AEnvelope Uuid} :
      fromDict T (a.envelope.toDict T) = some delivered →
      boundInstructChain? T delivered = some b.current →
      b.request.chainId = none → b.request.parentPath = [] → NextInstruct a b
  | worker {r : Run Uuid} {issuerId targetId : Uuid} {rendered : String} :
      Starts T a.envelope r → r.issueRequest? T issuerId targetId rendered = some b.request →
      NextInstruct a b

variable {T}

/-- The caller's payload does not use the keys under which the chain travels. -/
def IssueRequest.LeavesChain (request : IssueRequest Uuid) : Prop :=
  request.payload.get? "path" = none ∧ request.payload.get? "chain_id" = none

variable {a : Accepted T}

namespace Accepted

theorem issued (a : Accepted T) : Issued T a.current a.request a.instruction a.envelope :=
  issue_eq_ok T a.accepted

theorem get?_path (h : a.request.LeavesChain) : a.envelope.payload.get? "path" =
      some (.arr (a.instruction.path.map fun u => .str (T.str u))) := by
  rw [a.issued.delivered, envelopePayload, get?_merge, a.issued.payload, h.1]
  rfl

theorem get?_chainId (h : a.request.LeavesChain) :
    a.envelope.payload.get? "chain_id" = some (.str (T.str a.instruction.chainId)) := by
  rw [a.issued.delivered, envelopePayload, get?_merge, a.issued.payload, h.2]
  rfl

end Accepted

variable {b : Accepted T}

/-- The chain a nested instruction continues is that of the instruction around it. -/
theorem NextInstruct.parentPath_eq (h : NextInstruct T a b) (ha : a.request.LeavesChain) :
    (b.request.chain b.current).parentPath = a.instruction.path := by
  have hpath := Accepted.get?_path ha
  have hid := Accepted.get?_chainId ha
  cases h with
  | inTurn hread hbound hnone hnil =>
    rw [fromDict_toDict, some.injEq] at hread
    subst hread
    have hcurrent : b.current = ⟨some a.instruction.chainId, a.instruction.path⟩ := by
      simpa [boundInstructChain?, received, hpath, hid, eq_comm] using hbound
    simp [IssueRequest.chain, hnone, hnil, hcurrent]
  | worker hstarts hrequest =>
    have hc := hstarts.carries
    simp only [Run.issueRequest?, hc.chainId, hc.chainPath, hpath, hid, getD_some,
      asUuids_arr, bind_some, asUuid_str, bind_eq_bind,
      bind_eq_some_iff] at hrequest
    obtain ⟨out, -, hrequest⟩ := hrequest
    obtain hrequest := some.inj hrequest
    simp [IssueRequest.chain, ← hrequest]

theorem NextInstruct.path_eq (h : NextInstruct T a b) (ha : a.request.LeavesChain) :
    b.instruction.path = a.instruction.path ++ [b.instruction.issuerAgentId] := by
  rw [b.issued.path, h.parentPath_eq ha, b.issued.issuer]

/-- What is asked of a chain of accepted instructions. -/
structure BoundedInstructs (as : List (Accepted T)) : Prop where
  target : ∀ a ∈ as, a.instruction.targetAgentId ∉ a.instruction.path
  path : as.IsChain fun a b =>
    b.instruction.path = a.instruction.path ++ [b.instruction.issuerAgentId]
  count : ∀ maxChainDepth, (∀ a ∈ as, a.request.maxChainDepth ≤ maxChainDepth) →
    as.length ≤ (min maxChainDepth instructMaxChainDepthHard - 1).toNat

/-- The paths of a chain grow by one at each hop and stay under the cap. -/
theorem isChain_pathLength {as : List (Accepted T)} (h : as.IsChain (NextInstruct T))
    (has : ∀ a ∈ as, a.request.LeavesChain) {m : ℤ} (hm : ∀ a ∈ as, a.request.maxChainDepth ≤ m) :
    as.IsChain fun a b =>
      (b.instruction.path.length : ℤ) = a.instruction.path.length + 1 ∧
        (b.instruction.path.length : ℤ) ≤ min m instructMaxChainDepthHard - 1 := by
  refine h.imp_of_mem_imp ?_
  intro a b ha hb hnext
  have hdepth := b.issued.depth
  have hle := hm b hb
  constructor
  · rw [hnext.path_eq (has a ha)]
    simp
  · omega

/-- **Instruct chains are bounded and acyclic**, when no payload on them uses the keys under
which the chain travels: no accepted instruction has its target on its path, each path is
that of the instruction around it and the issuer, and fewer are accepted than the effective
depth. -/
theorem instruct_chain_bounded {as : List (Accepted T)} (h : as.IsChain (NextInstruct T))
    (has : ∀ a ∈ as, a.request.LeavesChain) : BoundedInstructs as := by
  constructor
  · intro a _
    exact a.issued.target
  · refine h.imp_of_mem_imp ?_
    intro a b ha _ hnext
    exact hnext.path_eq (has a ha)
  · intro m hm
    cases as with
    | nil => simp
    | cons a =>
      have hfirst : 1 ≤ (a.instruction.path.length : ℤ) := by
        rw [a.issued.path]
        simp
      have hdepth := a.issued.depth
      have hle := hm a List.mem_cons_self
      have hbound := add_length_le_of_isChain (isChain_pathLength h has hm) (by omega)
      simp only [List.length_cons]
      omega

/-! ## Instructions back and forth -/

section Examples

/-- `issue`, with its outcome kept. -/
def accept? (T : Texts Uuid) (current : InstructChain Uuid) (request : IssueRequest Uuid)
    (answers : IssueAnswers Uuid) : Option (Accepted T) :=
  match h : issue T current request answers with
  | .ok (instruction, envelope) => some ⟨current, request, answers, instruction, envelope, h⟩
  | .error _ => none

variable {answers : IssueAnswers Uuid}

theorem accept?_eq_some {current : InstructChain Uuid} {request : IssueRequest Uuid}
    (h : accept? T current request answers = some a) :
    a.current = current ∧ a.request = request := by
  unfold accept? at h
  split at h
  · cases h
    exact ⟨rfl, rfl⟩
  · cases h

/-- The instructions issued one inside the turn of the other, starting from an accepted
one. -/
def nestInstructs (answers : IssueAnswers Uuid) :
    Accepted T → List (IssueRequest Uuid) → Option (List (Accepted T))
  | _, [] => some []
  | a, request :: rest => do
    let delivered ← fromDict T (a.envelope.toDict T)
    let current ← boundInstructChain? T delivered
    let b ← accept? T current { request with chainId := none, parentPath := [] } answers
    let bs ← nestInstructs answers b rest
    some (b :: bs)

theorem isChain_of_nestInstructs {requests : List (IssueRequest Uuid)} {as : List (Accepted T)}
    (h : nestInstructs answers a requests = some as) : (a :: as).IsChain (NextInstruct T) := by
  induction requests generalizing a as with
  | nil =>
    cases h
    exact List.isChain_singleton _
  | cons request rest ih =>
    simp only [nestInstructs, bind_eq_bind, bind_eq_some_iff] at h
    obtain ⟨delivered, hread, current, hcurrent, b, hb, bs, hbs, has⟩ := h
    cases has
    obtain ⟨hcur, hreq⟩ := accept?_eq_some hb
    refine List.isChain_cons_cons.mpr ⟨.inTurn hread ?_ ?_ ?_, ih hbs⟩
    · rw [hcurrent, hcur]
    · rw [hreq]
    · rw [hreq]

/-- An instruction with a payload that says nothing but what to do. -/
def plainRequest (issuer target : Char) : IssueRequest Char :=
  { issuerAgentId := issuer, targetAgentId := target, payload := [("instruction", .str "go on")] }

/-- The same with an empty `path` in the payload. -/
def pathlessRequest (issuer target : Char) : IssueRequest Char :=
  { plainRequest issuer target with payload := [("instruction", .str "go on"), ("path", .arr [])] }

/-- Three agents in a row. -/
theorem plain_instructs_bounded :
    ∃ as : List (Accepted letters), as.length = 2 ∧ as.IsChain (NextInstruct letters) ∧
      (∀ a ∈ as, a.request.LeavesChain) ∧ BoundedInstructs as := by
  obtain ⟨a, -, as, has, hlen, hleaves⟩ :
      ∃ a ∈ accept? letters {} (plainRequest 'a' 'b') consent,
        ∃ as ∈ nestInstructs consent a [plainRequest 'b' 'd'], as.length = 1 ∧
          ∀ x ∈ a :: as, (x.request.payload.get? "path").isNone = true ∧
            (x.request.payload.get? "chain_id").isNone = true := by
    decide +kernel
  simp only [isNone_iff_eq_none] at hleaves
  have hchain := isChain_of_nestInstructs has
  exact ⟨a :: as, by simp [hlen], hchain, hleaves, instruct_chain_bounded hchain hleaves⟩

/-- Two agents that instruct each other in turn, each with an empty `path` in its payload:
five instructions are accepted under a depth of five, and the second path does not extend
the first. -/
theorem instructs_back_and_forth :
    ∃ as : List (Accepted letters), as.IsChain (NextInstruct letters) ∧
      (∀ a ∈ as, a.request.maxChainDepth = 5) ∧
      (min 5 instructMaxChainDepthHard - 1).toNat < as.length ∧
      ¬ as.IsChain fun a b =>
        b.instruction.path = a.instruction.path ++ [b.instruction.issuerAgentId] := by
  obtain ⟨a, -, as, has, hlen, hdepth, b, hb, hpath⟩ :
      ∃ a ∈ accept? letters {} (pathlessRequest 'a' 'b') consent,
        ∃ as ∈ nestInstructs consent a [pathlessRequest 'b' 'a', pathlessRequest 'a' 'b',
          pathlessRequest 'b' 'a', pathlessRequest 'a' 'b'],
        as.length = 4 ∧ (∀ x ∈ a :: as, x.request.maxChainDepth = 5) ∧
          ∃ b ∈ as.head?, b.instruction.path ≠
            a.instruction.path ++ [b.instruction.issuerAgentId] := by
    decide +kernel
  refine ⟨a :: as, isChain_of_nestInstructs has, hdepth, ?_, ?_⟩
  · simp [hlen, instructMaxChainDepthHard]
  · intro hchain
    exact hpath (hchain.rel_head? hb)

end Examples

end Smap.Chains
