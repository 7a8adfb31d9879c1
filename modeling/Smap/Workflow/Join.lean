import Smap.Workflow.JoinScript
import Smap.Workflow.Linter
import Smap.Workflow.Models

/-!
# The join executor

`executors/join.py`: an incoming edge is a back-edge when its source is reachable from
the join, the arrivals on back-edges go to the pass track and all others to the fan
track, and the script decides which arrival fires.

Over a document with distinct, non-empty edge ids the classification is exact
(`mem_backEdgeIds`, `fanInCount_eq`), and a sequence of arrivals over incoming edges
runs the two epoch latches of the join (`traverse_spec`).
-/

namespace Smap.Workflow

open Redis EpochLatch List EdgeDef

/-! ## The executor -/

/-- The successors `_classify_incoming_edges` follows. -/
def adjacency (edges : List EdgeDef) (id : String) : List String :=
  (edges.filter fun e => e.fromNode == id).map toNode

/-- The nodes reachable from a node by at least one edge. -/
def reachableFrom (edges : List EdgeDef) (nodeId : String) : List String :=
  Search.reachFrom (adjacency edges) (edges.length + 1) nodeId

/-- `_classify_incoming_edges`: the fan-in count and the ids of the back-edges. -/
def classifyIncomingEdges (nodeId : String) (edges : List EdgeDef) : ℕ × Finset String :=
  let reachable := reachableFrom edges nodeId
  let incoming := edges.filter fun e => e.toNode == nodeId
  let backEdgeIds :=
    ((incoming.filter fun e => reachable.contains e.fromNode).map EdgeDef.id).toFinset
  (incoming.length - backEdgeIds.card, backEdgeIds)

/-- `JoinMode(config.get("mode", "all"))`. -/
def joinMode (config : JsonObject) : Except String JoinMode :=
  match config.get? "mode" with
  | none => .ok .all
  | some (.str text) =>
    match JoinMode.ofValue? text with
    | some mode => .ok mode
    | none => .error s!"'{text}' is not a valid JoinMode"
  | some _ => .error "not a valid JoinMode"

/-- The threshold a mode asks for, out of the branches of the fan-in. -/
def fireThreshold (mode : JoinMode) (requiredCount totalFanBranches : ℤ) : ℤ :=
  match mode with
  | .any => 1
  | .count => requiredCount
  | .all => totalFanBranches

/-- The arguments of one call of the script. -/
structure JoinCall where
  track : Track
  branchId : String
  fireThreshold : ℤ
  totalBranches : ℤ

/-- `ctx.arrived_via or node.id`: an empty id counts as missing. -/
def branchIdOf (nodeId : String) (arrivedVia : Option String) : String :=
  match arrivedVia with
  | some edge => if edge = "" then nodeId else edge
  | none => nodeId

/-- Choose the track and its thresholds for one arrival. -/
def joinCall (node : NodeSpec) (mode : JoinMode) (edges : List EdgeDef)
    (arrivedVia : Option String) : JoinCall :=
  let requiredCount := node.config.getInt "count" 1
  let (fanInCount, backEdgeIds) := classifyIncomingEdges node.id edges
  let totalFanBranches : ℤ := max fanInCount 1
  let branchId := branchIdOf node.id arrivedVia
  if branchId ∈ backEdgeIds then
    { track := .pass, branchId, fireThreshold := 1, totalBranches := 1 }
  else
    { track := .fan, branchId, totalBranches := totalFanBranches
      fireThreshold := fireThreshold mode requiredCount totalFanBranches }

/-- The join executor.  `.error` is the exception the engine turns into a failed step. -/
def joinExecute (runId : String) (edges : List EdgeDef) (arrivedVia : Option String)
    (node : NodeSpec) (r : Store String) : Except String (StepOutcome × Store String) := do
  let mode ← joinMode node.config
  let call := joinCall node mode edges arrivedVia
  match joinArrive runId node.id call.track call.branchId call.fireThreshold
      call.totalBranches r with
  | none => .error "WRONGTYPE"
  | some ((arrivals, isFinalizer), r') =>
    if !isFinalizer then
      return ({ state := .succeeded
                output := [("arrivals", .int arrivals), ("required", .int call.fireThreshold),
                  ("mode", .str mode.value)]
                skipEdges := true }, r')
    else
      return ({ state := .succeeded
                output := [("mode", .str mode.value), ("arrivals", .int arrivals),
                  ("required", .int call.fireThreshold)]
                port := "default" }, r')

/-- Traverse incoming edges one after the other: which arrivals the join lets through. -/
def traverse (runId : String) (edges : List EdgeDef) (node : NodeSpec) :
    Store String → List String → Except String (List Bool × Store String)
  | r, [] => .ok ([], r)
  | r, edgeId :: rest => do
    let (outcome, r') ← joinExecute runId edges (some edgeId) node r
    let (decisions, r'') ← traverse runId edges node r' rest
    return ((!outcome.skipEdges) :: decisions, r'')

/-! ## The classification is exact -/

/-- The edge closes a loop: its source is reachable from the join. -/
def IsBackEdge (edges : List EdgeDef) (nodeId : String) (e : EdgeDef) : Prop :=
  Search.Reaches (adjacency edges) nodeId e.fromNode

theorem mem_reachableFrom (edges : List EdgeDef) (nodeId a : String) :
    a ∈ reachableFrom edges nodeId ↔ Search.Reaches (adjacency edges) nodeId a := by
  refine Search.mem_reachFrom (edges.map toNode).toFinset ?_ ?_ a
  · intro x b hb
    simp only [adjacency, mem_map, mem_filter] at hb
    obtain ⟨e, ⟨he, -⟩, rfl⟩ := hb
    rw [mem_toFinset]
    exact mem_map_of_mem he
  · have hcard := toFinset_card_le (edges.map toNode)
    rw [length_map] at hcard
    omega

instance (edges : List EdgeDef) (nodeId : String) (e : EdgeDef) :
    Decidable (IsBackEdge edges nodeId e) :=
  decidable_of_iff _ (mem_reachableFrom edges nodeId e.fromNode)

/-- The incoming edges a fan-in wave is made of. -/
def fanEdges (d : Definition) (nodeId : String) : List EdgeDef :=
  (d.incoming nodeId).filter fun e => ¬IsBackEdge d.edges nodeId e

variable {d : Definition} {nodeId : String} {e : EdgeDef}

theorem mem_fanEdges :
    e ∈ fanEdges d nodeId ↔ e ∈ d.incoming nodeId ∧ ¬IsBackEdge d.edges nodeId e := by
  simp [fanEdges]

/-- The back-edges, in document order. -/
def backEdges (d : Definition) (nodeId : String) : List EdgeDef :=
  (d.incoming nodeId).filter fun e => IsBackEdge d.edges nodeId e

theorem classify_snd (d : Definition) (nodeId : String) :
    (classifyIncomingEdges nodeId d.edges).2 =
      ((backEdges d nodeId).map EdgeDef.id).toFinset := by
  have hsame : ∀ e : EdgeDef, (reachableFrom d.edges nodeId).contains e.fromNode =
      decide (IsBackEdge d.edges nodeId e) := by
    intro e
    rw [Bool.eq_iff_iff, contains_iff_mem, decide_eq_true_eq]
    exact mem_reachableFrom d.edges nodeId e.fromNode
  simp only [classifyIncomingEdges, backEdges, Definition.incoming, hsame]

section Ids

variable (hids : (d.edges.map EdgeDef.id).Nodup)

include hids

theorem id_injective {e' : EdgeDef} (he : e ∈ d.edges) (he' : e' ∈ d.edges) (h : e.id = e'.id) :
    e = e' :=
  inj_on_of_nodup_map hids he he' h

omit hids in
theorem incoming_sublist (d : Definition) (nodeId : String) :
    (d.incoming nodeId).Sublist d.edges := filter_sublist

/-- With distinct edge ids, an incoming edge's id is listed exactly for back-edges. -/
theorem mem_backEdgeIds (he : e ∈ d.incoming nodeId) :
    e.id ∈ (classifyIncomingEdges nodeId d.edges).2 ↔ IsBackEdge d.edges nodeId e := by
  rw [classify_snd, mem_toFinset, mem_map]
  constructor
  · rintro ⟨e', he', hid⟩
    simp only [backEdges, mem_filter, decide_eq_true_eq] at he'
    have hsame := id_injective hids (Definition.mem_incoming.mp he'.1).1
      (Definition.mem_incoming.mp he).1 hid
    exact hsame ▸ he'.2
  · intro hback
    exact ⟨e, by simp [backEdges, mem_filter, Definition.mem_incoming.mp he, hback], rfl⟩

/-- With distinct edge ids, the count is the number of edges that close no loop. -/
theorem fanInCount_eq (nodeId : String) :
    (classifyIncomingEdges nodeId d.edges).1 = (fanEdges d nodeId).length := by
  have hnodup : ((backEdges d nodeId).map EdgeDef.id).Nodup :=
    hids.sublist ((filter_sublist.trans (incoming_sublist d nodeId)).map EdgeDef.id)
  have hcard : (classifyIncomingEdges nodeId d.edges).2.card = (backEdges d nodeId).length := by
    rw [classify_snd, toFinset_card_of_nodup hnodup, length_map]
  have hsplit := length_eq_length_filter_add (l := d.incoming nodeId)
    fun e => decide (IsBackEdge d.edges nodeId e)
  have hfst : (classifyIncomingEdges nodeId d.edges).1 =
      (d.incoming nodeId).length - (classifyIncomingEdges nodeId d.edges).2.card := rfl
  have hneg : (fanEdges d nodeId).length = ((d.incoming nodeId).filter
      fun e => !decide (IsBackEdge d.edges nodeId e)).length := by
    simp only [fanEdges, decide_not]
  rw [hfst, hcard, hneg, hsplit, backEdges, Nat.add_sub_cancel_left]

end Ids

/-! ## Sequences of arrivals run the latches -/

section Traverse

variable {n : NodeSpec} {mode : JoinMode}

/-- The fan track's thresholds at a node of a definition. -/
def fanTotal (d : Definition) (n : NodeSpec) : ℤ :=
  max (classifyIncomingEdges n.id d.edges).1 1

def fanFire (d : Definition) (n : NodeSpec) (mode : JoinMode) : ℤ :=
  fireThreshold mode (n.config.getInt "count" 1) (fanTotal d n)

/-- The call an edge's arrival makes, as an arrival of the script. -/
def arrivalOf (d : Definition) (n : NodeSpec) (edgeId : String) : Arrival :=
  { track := if edgeId ∈ (classifyIncomingEdges n.id d.edges).2 then .pass else .fan
    branchId := edgeId }

variable {runId : String} {r : Store String} {s : Track → State String} {ids : List String}

theorem branchIds_of_track {track : Track} (hall : ∀ id ∈ ids, (arrivalOf d n id).track = track) :
    branchIds track (ids.map (arrivalOf d n)) = ids := by
  unfold branchIds
  rw [filter_eq_self.mpr]
  · rw [map_map]
    exact map_id ids
  · intro a ha
    obtain ⟨id, hid, rfl⟩ := mem_map.mp ha
    rw [decide_eq_true_eq]
    exact hall id hid

variable (hmode : joinMode n.config = .ok mode)

include hmode

theorem joinExecute_of_arrive {edgeId : String} {r' : Store String} {count : ℕ} {isFinalizer : Bool}
    (hid : edgeId ≠ "") (h : joinArrive runId n.id (arrivalOf d n edgeId).track edgeId
      (thresholds (fanFire d n mode) (fanTotal d n) (arrivalOf d n edgeId).track).1
      (thresholds (fanFire d n mode) (fanTotal d n) (arrivalOf d n edgeId).track).2 r =
        some ((count, isFinalizer), r')) :
    ∃ outcome, joinExecute runId d.edges (some edgeId) n r = .ok (outcome, r') ∧
      outcome.skipEdges = !isFinalizer := by
  have hcall : joinCall n mode d.edges (some edgeId) =
      { track := (arrivalOf d n edgeId).track
        branchId := edgeId
        fireThreshold :=
          (thresholds (fanFire d n mode) (fanTotal d n) (arrivalOf d n edgeId).track).1
        totalBranches :=
          (thresholds (fanFire d n mode) (fanTotal d n) (arrivalOf d n edgeId).track).2 } := by
    by_cases hback : edgeId ∈ (classifyIncomingEdges n.id d.edges).2
    · simp [joinCall, branchIdOf, hid, hback, arrivalOf, thresholds]
    · simp [joinCall, branchIdOf, hid, hback, arrivalOf, thresholds, fanFire, fanTotal]
  simp only [joinExecute, hmode, bind, Except.bind, hcall, h]
  cases isFinalizer with
  | true | false => exact ⟨_, rfl, rfl⟩

theorem traverse_of_arrivals :
    ∀ (ids : List String) (r : Store String) {ds : List Bool} {r' : Store String},
      (∀ id ∈ ids, id ≠ "") →
      arrivals runId n.id (fanFire d n mode) (fanTotal d n) r (ids.map (arrivalOf d n)) =
        some (ds, r') →
      traverse runId d.edges n r ids = .ok (ds, r') := by
  intro ids
  induction ids with
  | nil =>
    intro r ds r' _ h
    simp only [map_nil, arrivals, Option.some.injEq, Prod.mk.injEq] at h
    simp [traverse, h.1, h.2]
  | cons id rest ih =>
    intro r ds r' hne h
    simp only [map_cons, arrivals, Option.bind_eq_bind, Option.bind_eq_some_iff] at h
    obtain ⟨⟨⟨count, isFinalizer⟩, r₁⟩, hcall, ⟨ds', r₂⟩, hrest, hret⟩ := h
    simp only [Option.pure_def, Option.some.injEq, Prod.mk.injEq] at hret
    obtain ⟨outcome, hexec, hskip⟩ :=
      joinExecute_of_arrive hmode (hne id mem_cons_self) hcall
    have htail := ih r₁ (fun x hx => hne x (mem_cons_of_mem _ hx)) hrest
    simp only [traverse, hexec, htail, bind, Except.bind, hskip, Bool.not_not]
    rw [← hret.1, ← hret.2]
    rfl

variable (hr : ∀ track, Holds runId n.id track r (s track))

include hr

variable (hne : ∀ id ∈ ids, id ≠ "")

include hne

/-- **A sequence of arrivals runs the join's two latches.**  It never fails, and the
decisions on each track are those of the track's own latch. -/
theorem traverse_spec :
    ∃ ds r', traverse runId d.edges n r ids = .ok (ds, r') ∧ ds.length = ids.length ∧
      ∀ track, onTrack track (ids.map (arrivalOf d n)) ds =
        (trackRun (fanFire d n mode) (fanTotal d n) track (s track)
          (branchIds track (ids.map (arrivalOf d n)))).1 := by
  obtain ⟨ds, r', hrun, hlen, htracks⟩ :=
    arrivals_spec (fanFire d n mode) (fanTotal d n) (ids.map (arrivalOf d n)) r s hr
  refine ⟨ds, r', traverse_of_arrivals hmode ids r hne hrun, ?_, fun track => (htracks track).2⟩
  rw [hlen, length_map]

/-- Arrivals over fan-in edges only: the decisions are those of the fan latch. -/
theorem traverse_fan (hfan : ∀ id ∈ ids, id ∉ (classifyIncomingEdges n.id d.edges).2) :
    ∃ r', traverse runId d.edges n r ids =
      .ok ((EpochLatch.run (fanFire d n mode).toNat (fanTotal d n).toNat (s .fan) ids).1, r') := by
  obtain ⟨ds, r', hrun, hlen, htracks⟩ := traverse_spec hmode hr hne
  have hall : ∀ id ∈ ids, (arrivalOf d n id).track = .fan := by
    intro id hid
    simp only [arrivalOf, if_neg (hfan id hid)]
  have hds := htracks .fan
  rw [branchIds_of_track hall, onTrack_filter_self .fan (by rw [hlen, length_map])
    (by simpa using hall)] at hds
  refine ⟨r', ?_⟩
  rw [hrun, hds]
  rfl

end Traverse

end Smap.Workflow
