import Smap.Sel.Template
import Smap.Workflow.Join

/-!
# Waves into a join

What the join executor does with the arrivals of a whole wave, for definitions the
schema and the linter accept.

* A wave of one parallel node over its branches (`Wave`) is aggregated exactly when the
  branches are the edges of the join that close no loop (`wave_aggregates_iff`).
* A wave over all edges of a join outside loops fires it once exactly when the mode
  does not count beyond its edges (`fires_once_iff`).
* Repeated deliveries change the number of firings exactly when enough of them come
  after the last distinct edge (`redelivery_count_iff`).
-/

namespace Smap.Workflow

open Redis EpochLatch List Definition Or Schema

/-! ## Accepted definitions -/

/-- The checks a definition passes before it is stored. -/
structure Accepted (env : LintEnv) (d : Definition) : Prop where
  schema : accepts d = true
  lint : lintValid env d = true

theorem Accepted.ids_nodup {env : LintEnv} {d : Definition} (h : Accepted env d) :
    (d.edges.map EdgeDef.id).Nodup := edge_ids_nodup h.lint

variable {e : EdgeDef} {runId p : String} {r : Store String} {ids : List String}
  {order : List EdgeDef}

/-- The schema's pattern leaves no edge without an id. -/
theorem Accepted.id_ne_empty {env : LintEnv} {d : Definition} (h : Accepted env d)
    (he : e ∈ d.edges) : e.id ≠ "" := by
  intro hid
  have hedge := edge_of_accepts h.schema he
  simp only [edge, Bool.and_eq_true, hid] at hedge
  exact absurd hedge.1.1.1.1 (by decide)

/-- A join of the definition: the parsed node, and its mode. -/
structure JoinNode (d : Definition) (j : String) (mode : JoinMode) where
  node : NodeDef
  found : d.nodesById j = some node
  isJoin : node.type = .join
  hasMode : joinMode (parseNode node).config = .ok mode

variable {env : LintEnv} {d : Definition} {j : String} {mode : JoinMode}

def JoinNode.spec (n : JoinNode d j mode) : NodeSpec := parseNode n.node

theorem JoinNode.spec_id (n : JoinNode d j mode) : n.spec.id = j :=
  id_of_nodesById n.found

theorem JoinNode.spec_mode (n : JoinNode d j mode) : joinMode n.spec.config = .ok mode :=
  n.hasMode

theorem JoinNode.config_valid (n : JoinNode d j mode) (h : Accepted env d) :
    joinConfig n.node.config = true := by
  have hnode := nodeConfig_of_accepts h.schema (mem_of_nodesById n.found)
  rw [n.isJoin] at hnode
  exact hnode

/-- Both tracks of the join are between epochs. -/
def BetweenWaves (runId j : String) (r : Store String) : Prop :=
  ∀ track, ∃ s, Holds runId j track r s ∧ s.Fresh

theorem NoJoinKeys.betweenWaves (h : NoJoinKeys runId j r) : BetweenWaves runId j r :=
  fun track => ⟨{}, h.holds track, rfl, rfl⟩

/-! ## Thresholds of an accepted join -/

theorem getInt_filter_ne {o : JsonObject} {key drop : String} (h : key ≠ drop) (default : ℤ) :
    JsonObject.getInt (o.filter fun kv => kv.1 != drop) key default = o.getInt key default := by
  have hget : JsonObject.get? (o.filter fun kv => kv.1 != drop) key = o.get? key := by
    unfold JsonObject.get?
    induction o with
    | nil => rfl
    | cons kv rest ih =>
      obtain ⟨k, v⟩ := kv
      by_cases hk : k = drop
      · have hne : (key == k) = false := by simpa [hk] using h
        rw [filter_cons, if_neg (by simp [hk]), ih, lookup_cons, hne]
      · rw [filter_cons, if_pos (by simpa using hk), lookup_cons, lookup_cons, ih]
  simp only [JsonObject.getInt, hget]

section Thresholds

variable (h : Accepted env d) (n : JoinNode d j mode)

include h

theorem fanTotal_eq : fanTotal d n.spec = max ((fanEdges d j).length : ℤ) 1 := by
  rw [fanTotal, n.spec_id, fanInCount_eq h.ids_nodup]

theorem fanFire_pos : 1 ≤ fanFire d n.spec mode := by
  have htotal : 1 ≤ fanTotal d n.spec := le_max_right _ _
  cases mode with
  | any => exact le_refl 1
  | all => exact htotal
  | count =>
    have hcount := joinConfig_count_pos (n.config_valid h)
    have hkept : n.spec.config.getInt "count" 1 = n.node.config.getInt "count" 1 :=
      getInt_filter_ne (by decide) 1
    simp only [fanFire, fireThreshold, hkept]
    exact hcount

theorem fanEdges_ids_nodup (j : String) : ((fanEdges d j).map EdgeDef.id).Nodup :=
  h.ids_nodup.sublist ((filter_sublist.trans (incoming_sublist d j)).map EdgeDef.id)

theorem mem_fan_ids (he : e ∈ fanEdges d j) :
    e.id ≠ "" ∧ e.id ∉ (classifyIncomingEdges j d.edges).2 := by
  obtain ⟨hin, hback⟩ := mem_fanEdges.mp he
  refine ⟨h.id_ne_empty (mem_incoming.mp hin).1, ?_⟩
  rw [mem_backEdgeIds h.ids_nodup hin]
  exact hback

/-- Arrivals over fan-in edges from between two waves: the decisions the epochs of the
sequence prescribe. -/
theorem traverse_fan_decisions (hr : BetweenWaves runId j r)
    (hids : ∀ id ∈ ids, id ∈ (fanEdges d j).map EdgeDef.id) :
    ∃ r', traverse runId d.edges n.spec r ids =
      .ok (decisions (fanFire d n.spec mode).toNat (fanTotal d n.spec).toNat ids, r') := by
  choose s hs hfresh using hr
  have hfan : ∀ id ∈ ids, id ≠ "" ∧ id ∉ (classifyIncomingEdges n.spec.id d.edges).2 := by
    intro id hid
    obtain ⟨e, he, rfl⟩ := mem_map.mp (hids id hid)
    rw [n.spec_id]
    exact mem_fan_ids h he
  have hholds : ∀ track, Holds runId n.spec.id track r (s track) := by
    rw [n.spec_id]
    exact hs
  obtain ⟨r', hrun⟩ := traverse_fan n.spec_mode hholds
    (fun id hid => (hfan id hid).1) (fun id hid => (hfan id hid).2)
  have hfire := fanFire_pos h n
  have htotal : 1 ≤ fanTotal d n.spec := le_max_right _ _
  rw [run_decisions (by omega) (by omega) (hfresh .fan)] at hrun
  exact ⟨r', hrun⟩

/-! ## A wave over the whole fan-in -/

/-- Each fan-in edge once, in some order: the decisions of a single epoch. -/
theorem traverse_complete (hr : BetweenWaves runId j r) (horder : order.Perm (fanEdges d j))
    (hne : fanEdges d j ≠ []) :
    ∃ r', traverse runId d.edges n.spec r (order.map EdgeDef.id) =
      .ok (flags (fanFire d n.spec mode).toNat ∅ (order.map EdgeDef.id), r') := by
  have hids := horder.map EdgeDef.id
  obtain ⟨r', hrun⟩ := traverse_fan_decisions h n hr (fun id hid => hids.mem_iff.mp hid)
  have hpos : 1 ≤ (fanEdges d j).length := length_pos_iff.mpr hne
  have hlen : (order.map EdgeDef.id).length = (fanTotal d n.spec).toNat := by
    rw [fanTotal_eq h n, length_map, horder.length_eq]
    omega
  have htotal : 1 ≤ fanTotal d n.spec := le_max_right _ _
  rw [decisions_of_complete _ (by omega) (hids.nodup_iff.mpr (fanEdges_ids_nodup h j)) hlen] at hrun
  exact ⟨r', hrun⟩

include n in
/-- The linter asks for two edges at a join. -/
theorem JoinNode.two_le_incoming : 2 ≤ (d.incoming j).length := by
  have hrule := two_le_incoming_of_join h.lint (mem_of_nodesById n.found) n.isJoin
  rwa [id_of_nodesById n.found] at hrule

variable (hforward : ∀ e ∈ d.incoming j, ¬IsBackEdge d.edges j e)

include hforward

omit h in
theorem fanEdges_eq_incoming : fanEdges d j = d.incoming j := by
  rw [fanEdges, filter_eq_self]
  intro e he
  exact decide_eq_true (hforward e he)

/-- Outside loops only a `count` can ask for more branches than there are. -/
theorem fanFire_le_incoming_iff :
    fanFire d n.spec mode ≤ (d.incoming j).length ↔
      (mode = .count → n.node.config.getInt "count" 1 ≤ (d.incoming j).length) := by
  have htwo := n.two_le_incoming h
  have htotal : fanTotal d n.spec = ((d.incoming j).length : ℤ) := by
    rw [fanTotal_eq h n, fanEdges_eq_incoming hforward]
    omega
  have hkept : n.spec.config.getInt "count" 1 = n.node.config.getInt "count" 1 :=
    getInt_filter_ne (by decide) 1
  cases mode with
  | any =>
    simp only [fanFire, fireThreshold, reduceCtorEq, false_implies, iff_true]
    omega
  | all =>
    simp only [fanFire, fireThreshold, htotal, reduceCtorEq, false_implies, iff_true]
    exact le_refl _
  | count => simp only [fanFire, fireThreshold, hkept, true_implies]

end Thresholds

/-- **A join outside loops fires once per wave exactly when its mode does not ask for
more branches than it has.**  The wave traverses each incoming edge once, in any order;
none of them closes a loop. -/
theorem fires_once_iff (env : LintEnv) (d : Definition) (h : Accepted env d) (j : String)
    (mode : JoinMode) (n : JoinNode d j mode)
    (hforward : ∀ e ∈ d.incoming j, ¬IsBackEdge d.edges j e) (order : List EdgeDef)
    (horder : order.Perm (d.incoming j)) (runId : String) (r : Store String)
    (hr : BetweenWaves runId j r) :
    (∃ ds r', traverse runId d.edges n.spec r (order.map EdgeDef.id) = .ok (ds, r') ∧
        ds.count true = 1) ↔
      (mode = .count → n.node.config.getInt "count" 1 ≤ (d.incoming j).length) := by
  have hall := fanEdges_eq_incoming hforward
  have htwo := n.two_le_incoming h
  have hne : fanEdges d j ≠ [] := by
    rw [hall]
    exact length_pos_iff.mp (by omega)
  obtain ⟨r', hrun⟩ := traverse_complete h n hr (hall ▸ horder) hne
  have hfire := fanFire_pos h n
  have hcard : (order.map EdgeDef.id).toFinset.card = (d.incoming j).length := by
    have hnodup : (order.map EdgeDef.id).Nodup :=
      (horder.map EdgeDef.id).nodup_iff.mpr (hall ▸ fanEdges_ids_nodup h j)
    rw [toFinset_card_of_nodup hnodup, length_map, horder.length_eq]
  have hcount : (flags (fanFire d n.spec mode).toNat ∅ (order.map EdgeDef.id)).count true = 1 ↔
      fanFire d n.spec mode ≤ (d.incoming j).length := by
    rw [count_flags_empty (by omega), hcard]
    by_cases hle : (fanFire d n.spec mode).toNat ≤ (d.incoming j).length
    · rw [if_pos hle]
      exact iff_of_true rfl (Int.toNat_le.mp hle)
    · rw [if_neg hle]
      exact iff_of_false Nat.zero_ne_one (fun hle' => hle (Int.toNat_le.mpr hle'))
  rw [← fanFire_le_incoming_iff h n hforward, ← hcount]
  constructor
  · rintro ⟨ds, r'', hrun', hds⟩
    rw [hrun] at hrun'
    simp only [Except.ok.injEq, Prod.mk.injEq] at hrun'
    rw [hrun'.1]
    exact hds
  · intro hds
    exact ⟨_, r', hrun, hds⟩

/-! ## Example documents -/

def timerWait (id : String) : NodeDef :=
  { id, type := .waitForEvent
    config := [("event_type", .str "timer"), ("timeout_seconds", .int 5),
      ("delay_seconds", .int 5)] }

def manualTrigger (id : String) : NodeDef :=
  { id, type := .trigger
    config := [("trigger_type", .str "manual"), ("allowed_roles", .arr [.str "Admin"])] }

def plainEdge (id source target : String) : EdgeDef := { id, fromNode := source, toNode := target }

/-- Two timed branches of a parallel node into a join, and the end. -/
def fanInDocument (joinConfig : JsonObject) : Definition where
  entryNodeId := "t"
  nodes := [manualTrigger "t", { id := "p", type := .parallel }, timerWait "a", timerWait "b",
    { id := "j", type := .join, config := joinConfig }, { id := "e", type := .end }]
  edges := [plainEdge "e1" "t" "p", plainEdge "e2" "p" "a", plainEdge "e3" "p" "b",
    plainEdge "e4" "a" "j", plainEdge "e5" "b" "j", plainEdge "e6" "j" "e"]

/-- The path of a text that is a reference, of ASCII characters. -/
def reference (text : String) : Option (List Sel.Segment) :=
  match Sel.tokenize Sel.asciiUnicode text.toList >>= Sel.parse Sel.asciiUnicode with
  | .ok segments => some segments
  | .error _ => none

/-- Two agents and a room, and texts that are a reference or hold none; no expression is
anything else. -/
def plainEnv : LintEnv where
  validAgentIds := {"g", "6f1c2d4e-0000-4000-8000-000000000001"}
  validChatroomIds := {"6f1c2d4e-0000-4000-8000-000000000002"}
  validateSel := fun text => .ok (if (reference text).isSome then none else some "syntax error")
  extractVarRefs := fun text =>
    match reference text with
    | some (.key name :: _) => [name]
    | _ => []
  reprStr := id
  strOf := fun _ => ""

def overCounted : Definition := fanInDocument [("mode", .str "count"), ("count", .int 3)]

def overCountedJoin : JoinNode overCounted "j" .count := ⟨_, rfl, rfl, rfl⟩

def anyOfTwo : Definition := fanInDocument [("mode", .str "any")]

def anyOfTwoJoin : JoinNode anyOfTwo "j" .any := ⟨_, rfl, rfl, rfl⟩

theorem overCounted_accepted : Accepted plainEnv overCounted :=
  ⟨by decide +kernel, by decide +kernel⟩

theorem anyOfTwo_accepted : Accepted plainEnv anyOfTwo := ⟨by decide +kernel, by decide +kernel⟩

theorem empty_betweenWaves (runId j : String) : BetweenWaves runId j empty :=
  NoJoinKeys.betweenWaves fun _ _ => rfl

/-- What a sequence of arrivals decides, without the store. -/
def decided {α β : Type} (result : Except String (α × β)) : Option α :=
  match result with
  | .ok (a, _) => some a
  | .error _ => none

theorem eq_of_decided {α β : Type} {result : Except String (α × β)} {a a' : α} {b : β}
    (h : result = .ok (a, b)) (hdecided : decided result = some a') : a = a' := by
  subst h
  exact Option.some.inj hdecided

/-- A count above the number of edges is accepted, and the join then never fires. -/
theorem over_counted_never_fires :
    Accepted plainEnv overCounted ∧
      (∀ e ∈ overCounted.incoming "j", ¬IsBackEdge overCounted.edges "j" e) ∧
      ¬∃ ds r', traverse "r" overCounted.edges overCountedJoin.spec empty
          ((overCounted.incoming "j").map EdgeDef.id) = .ok (ds, r') ∧ ds.count true = 1 := by
  refine ⟨overCounted_accepted, by decide +kernel, ?_⟩
  rintro ⟨ds, r', hrun, hcount⟩
  obtain rfl : ds = [false, false] := eq_of_decided hrun (by decide +kernel)
  exact absurd hcount (by decide)

theorem fires_once_any_of_two :
    ∃ ds r', traverse "r" anyOfTwo.edges anyOfTwoJoin.spec empty ["e4", "e5"] =
      .ok (ds, r') ∧ ds.count true = 1 :=
  (fires_once_iff plainEnv anyOfTwo anyOfTwo_accepted "j" .any anyOfTwoJoin (by decide +kernel)
    (anyOfTwo.incoming "j") (List.Perm.refl _) "r" empty (empty_betweenWaves "r" "j")).mpr
    (by decide)

/-! ## Repeated deliveries -/

/-- A sequence with deliveries repeated: each insertion repeats an earlier arrival. -/
inductive Redelivery (base : List String) : List String → Prop where
  | none : Redelivery base base
  | again (before after : List String) {id : String} :
      Redelivery base (before ++ after) → id ∈ before → Redelivery base (before ++ id :: after)

theorem Redelivery.toFinset_eq {base : List String} (h : Redelivery base ids) :
    ids.toFinset = base.toFinset := by
  induction h with
  | none => rfl
  | again before after _ hid ih =>
    rw [← ih]
    ext x
    simp only [mem_toFinset, mem_append, mem_cons]
    constructor
    · rintro (hx | rfl | hx)
      · exact inl hx
      · exact inl hid
      · exact inr hx
    · rintro (hx | hx)
      · exact inl hx
      · exact inr (inr hx)

/-- **Repeated deliveries leave the number of firings unchanged exactly when too few of
them come late.**  With `base` traversing each fan-in edge once and `ids` repeating some
of its arrivals, the two sequences have the same number of finalizers if and only if the
threshold is beyond the fan-in altogether, or fewer distinct edges than the threshold
are delivered again after the last distinct edge has arrived. -/
theorem redelivery_count_iff (env : LintEnv) (d : Definition) (h : Accepted env d) (j : String)
    (mode : JoinMode) (n : JoinNode d j mode) (base ids : List String)
    (hbase : base.Perm ((fanEdges d j).map EdgeDef.id)) (hids : Redelivery base ids)
    (runId : String) (r : Store String) (hr : BetweenWaves runId j r) :
    ∃ ds r₁ ds' r₂, traverse runId d.edges n.spec r base = .ok (ds, r₁) ∧
      traverse runId d.edges n.spec r ids = .ok (ds', r₂) ∧
      (ds'.count true = ds.count true ↔
        fanTotal d n.spec < fanFire d n.spec mode ∨
          ((afterComplete base.toFinset ∅ ids).toFinset.card : ℤ) < fanFire d n.spec mode) := by
  have hcover := hids.toFinset_eq
  obtain ⟨r₁, hrun⟩ := traverse_fan_decisions h n hr (fun id hid => hbase.mem_iff.mp hid)
  obtain ⟨r₂, hrun'⟩ := traverse_fan_decisions h n hr (fun id hid => by
    have hmem : id ∈ base.toFinset := hcover ▸ mem_toFinset.mpr hid
    exact hbase.mem_iff.mp (mem_toFinset.mp hmem))
  refine ⟨_, r₁, _, r₂, hrun, hrun', ?_⟩
  have hfire := fanFire_pos h n
  by_cases hne : base = []
  · -- no fan-in edge: there is nothing to repeat
    subst hne
    have hnil : ids = [] := by
      rw [toFinset_nil, toFinset_eq_empty_iff] at hcover
      exact hcover
    subst hnil
    simp only [true_iff]
    right
    simp only [afterComplete, toFinset_nil, Finset.card_empty]
    omega
  · have hnodup : base.Nodup := hbase.nodup_iff.mpr (fanEdges_ids_nodup h j)
    have htotal : fanTotal d n.spec = base.length := by
      have hpos : 1 ≤ base.length := length_pos_iff.mpr hne
      have heq := hbase.length_eq
      rw [length_map] at heq
      rw [fanTotal_eq h n, ← heq]
      omega
    rw [htotal, Int.toNat_natCast, count_decisions_eq_iff (by omega) hne hnodup hcover]
    omega

/-- An `any` join fires again on an edge delivered after its fan-in was complete. -/
theorem late_redelivery_fires_again :
    Accepted plainEnv anyOfTwo ∧
      Redelivery ((fanEdges anyOfTwo "j").map EdgeDef.id) ["e4", "e5", "e4"] ∧
      ¬∃ ds r₁ ds' r₂,
        traverse "r" anyOfTwo.edges anyOfTwoJoin.spec empty
            ((fanEdges anyOfTwo "j").map EdgeDef.id) = .ok (ds, r₁) ∧
          traverse "r" anyOfTwo.edges anyOfTwoJoin.spec empty ["e4", "e5", "e4"] =
            .ok (ds', r₂) ∧
          ds'.count true = ds.count true := by
  have hfan : (fanEdges anyOfTwo "j").map EdgeDef.id = ["e4", "e5"] := by decide +kernel
  rw [hfan]
  refine ⟨anyOfTwo_accepted, ?_, ?_⟩
  · exact Redelivery.again ["e4", "e5"] [] .none (by decide)
  rintro ⟨ds, r₁, ds', r₂, hrun, hrun', hcount⟩
  obtain rfl : ds = [true, false] := eq_of_decided hrun (by decide +kernel)
  obtain rfl : ds' = [true, false, true] := eq_of_decided hrun' (by decide +kernel)
  exact absurd hcount (by decide)

/-- An edge delivered twice before its sibling arrives changes nothing. -/
theorem early_redelivery_is_free :
    ∃ ds r₁ ds' r₂, traverse "r" anyOfTwo.edges anyOfTwoJoin.spec empty ["e4", "e5"] =
        .ok (ds, r₁) ∧
      traverse "r" anyOfTwo.edges anyOfTwoJoin.spec empty ["e4", "e4", "e5"] =
        .ok (ds', r₂) ∧ ds'.count true = ds.count true := by
  obtain ⟨ds, r₁, ds', r₂, hrun, hrun', hiff⟩ :=
    redelivery_count_iff plainEnv anyOfTwo anyOfTwo_accepted "j" .any anyOfTwoJoin
      ["e4", "e5"] ["e4", "e4", "e5"] (by decide +kernel)
      (Redelivery.again ["e4"] ["e5"] .none (by decide))
      "r" empty (empty_betweenWaves "r" "j")
  exact ⟨ds, r₁, ds', r₂, hrun, hrun', hiff.mpr (by decide +kernel)⟩

/-! ## A wave of a parallel node -/

/-- One firing of the parallel node `p` whose branches all reach the join `j`: for each
outgoing edge of `p`, the edge by which its branch enters `j`. -/
structure Wave (d : Definition) (p j : String) where
  isParallel : ∃ n, d.nodesById p = some n ∧ n.type = .parallel
  edges : List EdgeDef
  branches : List.Forall₂ (fun o e => o = e ∨ o.toNode = e.fromNode ∨
    Search.Reaches (adjacency d.edges) o.toNode e.fromNode) (d.outgoing p) edges
  enter : ∀ e ∈ edges, e ∈ d.incoming j
  nodup : edges.Nodup
  two_le : 2 ≤ edges.length

/-- The join lets through exactly the last of `k` arrivals. -/
def OnlyLast (k : ℕ) (ds : List Bool) : Prop := ds = List.replicate (k - 1) false ++ [true]

/-- An arrival over a back-edge is always let through. -/
theorem head_of_back_edge (h : Accepted env d) (n : JoinNode d j mode) (hr : BetweenWaves runId j r)
    {rest : List EdgeDef} (hin : ∀ x ∈ e :: rest, x ∈ d.incoming j) (hback : IsBackEdge d.edges j e)
    {ds : List Bool} {r' : Store String}
    (hrun : traverse runId d.edges n.spec r ((e :: rest).map EdgeDef.id) = .ok (ds, r')) :
    ds.head? = some true := by
  choose s hs hfresh using hr
  have hholds : ∀ track, Holds runId n.spec.id track r (s track) := by
    rw [n.spec_id]
    exact hs
  have hne : ∀ id ∈ (e :: rest).map EdgeDef.id, id ≠ "" := by
    intro id hid
    obtain ⟨x, hx, rfl⟩ := mem_map.mp hid
    exact h.id_ne_empty (mem_incoming.mp (hin x hx)).1
  obtain ⟨ds', r'', hrun', hlen, htracks⟩ := traverse_spec n.spec_mode hholds hne
  rw [hrun] at hrun'
  obtain ⟨rfl, -⟩ := hrun'
  have hpass : (arrivalOf d n.spec e.id).track = .pass := by
    simp only [arrivalOf]
    rw [if_pos]
    rw [n.spec_id, mem_backEdgeIds h.ids_nodup (hin e mem_cons_self)]
    exact hback
  cases ds with
  | nil =>
    simp [map_cons, length_cons] at hlen
  | cons b =>
    have hdecs := htracks .pass
    simp only [trackRun, thresholds, Int.toNat_one, (run_one_one (hfresh .pass) _).1] at hdecs
    simp only [map_cons, onTrack, zip_cons_cons, filter_cons, hpass, decide_true, if_true] at hdecs
    have hmem := hdecs ▸ mem_cons_self
    rw [eq_of_mem_replicate hmem]
    rfl

theorem flags_onlyLast (hnodup : ids.Nodup) (hpos : 1 ≤ ids.length) :
    OnlyLast ids.length (flags ids.length ∅ ids) := by
  obtain ⟨before, last, rfl⟩ : ∃ before last, ids = before ++ [last] := by
    have hne : ids ≠ [] := length_pos_iff.mp hpos
    exact ⟨ids.dropLast, ids.getLast hne, (dropLast_append_getLast hne).symm⟩
  have hlen : (before ++ [last]).length = before.length + 1 := by
    rw [length_append, length_singleton]
  obtain ⟨hbefore, -, hdisj⟩ := nodup_append.mp hnodup
  have hcard : before.toFinset.card = before.length := toFinset_card_of_nodup hbefore
  have hlast : last ∉ before.toFinset := by
    intro hmem
    exact hdisj last (mem_toFinset.mp hmem) last (mem_singleton.mpr rfl) rfl
  have hfull : (insert last before.toFinset).card = before.length + 1 := by
    rw [Finset.card_insert_of_notMem hlast, hcard]
  unfold OnlyLast
  rw [hlen, flags_append, flags_of_lt (by rw [Finset.empty_union, hcard]; omega)]
  simp only [flags, Finset.empty_union, hcard, hfull, Nat.add_sub_cancel]
  simp

section Waves

variable (h : Accepted env d) (n : JoinNode d j .all) (w : Wave d p j) (hr : BetweenWaves runId j r)

include h hr

/-- A wave aggregated in every order enters through no back-edge: put first, such an edge
would be let through. -/
theorem Wave.fan_of_aggregated
    (hall : ∀ order : List EdgeDef, order.Perm w.edges → ∃ ds r',
      traverse runId d.edges n.spec r (order.map EdgeDef.id) = .ok (ds, r') ∧
        OnlyLast w.edges.length ds) : ∀ e ∈ w.edges, ¬IsBackEdge d.edges j e := by
  intro e he hback
  have htwo := w.two_le
  have hperm : (e :: w.edges.erase e).Perm w.edges := (perm_cons_erase he).symm
  obtain ⟨ds, r', hrun, hds⟩ := hall _ hperm
  have hhead := head_of_back_edge h n hr (fun x hx => w.enter x (hperm.mem_iff.mp hx)) hback hrun
  rw [hds] at hhead
  obtain ⟨k, hk⟩ : ∃ k, w.edges.length - 1 = k + 1 := ⟨w.edges.length - 2, by omega⟩
  rw [hk, replicate_succ] at hhead
  simp at hhead

/-- With a fan-in edge outside the wave, a mode-`all` join is never satisfied by it. -/
theorem Wave.none_fires (hfan : ∀ e ∈ w.edges, ¬IsBackEdge d.edges j e) (he : e ∈ d.incoming j)
    (hout : e ∉ w.edges) (hnot : ¬IsBackEdge d.edges j e) :
    ∃ ds r', traverse runId d.edges n.spec r (w.edges.map EdgeDef.id) = .ok (ds, r') ∧
      ds.count true = 0 := by
  have hsub : ∀ x ∈ e :: w.edges, x ∈ fanEdges d j := by
    intro x hx
    rcases mem_cons.mp hx with rfl | hx
    · exact mem_fanEdges.mpr ⟨he, hnot⟩
    · exact mem_fanEdges.mpr ⟨w.enter x hx, hfan x hx⟩
  have hids : ∀ id ∈ w.edges.map EdgeDef.id, id ∈ (fanEdges d j).map EdgeDef.id := by
    intro id hid
    obtain ⟨x, hx, rfl⟩ := mem_map.mp hid
    exact mem_map_of_mem (hsub x (mem_cons_of_mem _ hx))
  obtain ⟨r', hrun⟩ := traverse_fan_decisions h n hr hids
  refine ⟨_, r', hrun, ?_⟩
  -- one more fan-in edge than the wave has
  have hmore : w.edges.length + 1 ≤ (fanEdges d j).length := by
    have hnodup : (e :: w.edges).Nodup := nodup_cons.mpr ⟨hout, w.nodup⟩
    exact (hnodup.subperm hsub).length_le
  have hcard := toFinset_card_le (w.edges.map EdgeDef.id)
  rw [length_map] at hcard
  have htotal := fanTotal_eq h n
  have hfire : fanFire d n.spec .all = fanTotal d n.spec := rfl
  rw [count_decisions_eq_zero_iff (by omega) (by omega)]
  right
  omega

/-- A wave over exactly the fan-in edges of a mode-`all` join is aggregated. -/
theorem Wave.aggregated_of_perm (horder : order.Perm w.edges) (hfan : w.edges.Perm (fanEdges d j)) :
    ∃ ds r', traverse runId d.edges n.spec r (order.map EdgeDef.id) = .ok (ds, r') ∧
      OnlyLast w.edges.length ds := by
  have htwo := w.two_le
  have hperm := horder.trans hfan
  have hlen : order.length = w.edges.length := horder.length_eq
  have hne : fanEdges d j ≠ [] := by
    intro hnil
    rw [hnil, perm_nil] at hperm
    rw [hperm, length_nil] at hlen
    omega
  obtain ⟨r', hrun⟩ := traverse_complete h n hr hperm hne
  refine ⟨_, r', hrun, ?_⟩
  have hfire : (fanFire d n.spec .all).toNat = (order.map EdgeDef.id).length := by
    have hsame : fanFire d n.spec .all = fanTotal d n.spec := rfl
    rw [hsame, fanTotal_eq h n, ← hperm.length_eq, length_map]
    omega
  have hnodup : (order.map EdgeDef.id).Nodup :=
    (hperm.map EdgeDef.id).nodup_iff.mpr (fanEdges_ids_nodup h j)
  have hlast := flags_onlyLast hnodup (by rw [length_map]; omega)
  rw [hfire]
  rw [length_map, hlen] at hlast ⊢
  exact hlast

end Waves

/-- **When a parallel wave is aggregated by its join.**  For an accepted definition, a
mode-`all` join lets exactly the last arrival of the wave through, in whatever order the
branches come, if and only if no branch enters through an edge that closes a loop and
every other incoming edge of the join does close one. -/
theorem wave_aggregates_iff (env : LintEnv) (d : Definition) (h : Accepted env d)
    (p j : String) (n : JoinNode d j .all) (w : Wave d p j) (runId : String)
    (r : Store String) (hr : BetweenWaves runId j r) :
    (∀ order : List EdgeDef, order.Perm w.edges → ∃ ds r',
        traverse runId d.edges n.spec r (order.map EdgeDef.id) = .ok (ds, r') ∧
          OnlyLast w.edges.length ds) ↔
      (∀ e ∈ w.edges, ¬IsBackEdge d.edges j e) ∧
        ∀ e ∈ d.incoming j, e ∉ w.edges → IsBackEdge d.edges j e := by
  constructor
  · intro hall
    have hfan := w.fan_of_aggregated h n hr hall
    refine ⟨hfan, fun e he hout => ?_⟩
    by_contra hnot
    obtain ⟨ds, r', hrun, hds⟩ := hall w.edges (List.Perm.refl _)
    obtain ⟨ds', r'', hrun', hnone⟩ := w.none_fires h n hr hfan he hout hnot
    rw [hrun] at hrun'
    simp only [Except.ok.injEq, Prod.mk.injEq] at hrun'
    rw [← hrun'.1, hds, count_append] at hnone
    simp at hnone
  · rintro ⟨hfan, hrest⟩ order horder
    refine w.aggregated_of_perm h n hr horder ?_
    refine (perm_ext_iff_of_nodup w.nodup ?_).mpr fun e => ?_
    · exact List.Nodup.of_map _ (fanEdges_ids_nodup h j)
    rw [mem_fanEdges]
    constructor
    · intro he
      exact ⟨w.enter e he, hfan e he⟩
    · rintro ⟨he, hnot⟩
      by_contra hout
      exact hnot (hrest e he hout)

/-- The fan-in with an agent behind it that goes back to the parallel node on success. -/
def loopedDocument : Definition where
  entryNodeId := "t"
  nodes := [manualTrigger "t", { id := "p", type := .parallel }, timerWait "a", timerWait "b",
    { id := "j", type := .join, config := [("mode", .str "all")] },
    { id := "s", type := .agentInvocation
      config := [("agent_id", .str "g"), ("input_template", .str "again")] },
    { id := "e", type := .end }]
  edges := [plainEdge "e1" "t" "p", plainEdge "e2" "p" "a", plainEdge "e3" "p" "b",
    plainEdge "e4" "a" "j", plainEdge "e5" "b" "j", plainEdge "e6" "j" "s",
    { plainEdge "e7" "s" "p" with fromPort := some "success" },
    { plainEdge "e8" "s" "e" with fromPort := some "failure" }]

def loopedJoin : JoinNode loopedDocument "j" .all := ⟨_, rfl, rfl, rfl⟩

/-- The two branches of the parallel node, entering the join by `e4` and `e5`. -/
def loopedWave : Wave loopedDocument "p" "j" where
  isParallel := ⟨_, rfl, rfl⟩
  edges := [plainEdge "e4" "a" "j", plainEdge "e5" "b" "j"]
  branches := .cons (inr (inl rfl)) (.cons (inr (inl rfl)) .nil)
  enter := by decide
  nodup := by decide
  two_le := by decide

/-- A join that can reach its parallel node again lets the first branch through. -/
theorem looped_wave_not_aggregated :
    Accepted plainEnv loopedDocument ∧
      ¬∀ order : List EdgeDef, order.Perm loopedWave.edges → ∃ ds r',
        traverse "r" loopedDocument.edges loopedJoin.spec empty (order.map EdgeDef.id) =
            .ok (ds, r') ∧
          OnlyLast loopedWave.edges.length ds := by
  refine ⟨⟨by decide +kernel, by decide +kernel⟩, fun hall => ?_⟩
  obtain ⟨ds, r', hrun, hds⟩ := hall _ (List.Perm.refl _)
  obtain rfl : ds = [true, true] := eq_of_decided hrun (by decide +kernel)
  exact absurd hds (by unfold OnlyLast; decide)

def allOfTwo : Definition := fanInDocument [("mode", .str "all")]

def allOfTwoJoin : JoinNode allOfTwo "j" .all := ⟨_, rfl, rfl, rfl⟩

def allOfTwoWave : Wave allOfTwo "p" "j" where
  isParallel := ⟨_, rfl, rfl⟩
  edges := [plainEdge "e4" "a" "j", plainEdge "e5" "b" "j"]
  branches := .cons (inr (inl rfl)) (.cons (inr (inl rfl)) .nil)
  enter := by decide
  nodup := by decide
  two_le := by decide

theorem straight_wave_aggregated :
    ∃ ds r', traverse "r" allOfTwo.edges allOfTwoJoin.spec empty
        (allOfTwoWave.edges.map EdgeDef.id) = .ok (ds, r') ∧ OnlyLast 2 ds :=
  (wave_aggregates_iff plainEnv allOfTwo ⟨by decide +kernel, by decide +kernel⟩ "p" "j"
    allOfTwoJoin allOfTwoWave "r" empty (empty_betweenWaves "r" "j")).mpr
    ⟨by decide +kernel, by decide +kernel⟩ _ (List.Perm.refl _)

end Smap.Workflow
