import Smap.Workflow.Linter

/-!
# What the graph rules of the linter report

Rules 4 and 5 walk the definition from its entry and back from its ends, rule 10 walks
the graph of who instructs whom.  Each of the three is compared with the relation it is
meant to decide.  The walks run on fuel in the model; that the fuel is enough is part of
each proof.
-/

namespace Smap.Workflow

open Linter Relation List

/-- Some edge of the definition leads from one node id to the other. -/
def Definition.Linked (d : Definition) (a b : String) : Prop :=
  ∃ e ∈ d.edges, e.fromNode = a ∧ e.toNode = b

/-- A directed path, possibly empty. -/
def Definition.Path (d : Definition) : String → String → Prop := ReflTransGen d.Linked

/-- Some end node can be reached. -/
def Definition.Ends (d : Definition) (id : String) : Prop :=
  ∃ m ∈ d.nodes, m.type = .end ∧ d.Path id m.id

/-- The conditions rules 4 and 5 rely on the other rules for. -/
structure Definition.Consistent (d : Definition) : Prop where
  unique : (d.nodes.map NodeDef.id).Nodup
  edges : ∀ e ∈ d.edges, e.fromNode ∈ d.nodes.map NodeDef.id ∧ e.toNode ∈ d.nodes.map NodeDef.id
  entry : d.entryNodeId ∈ d.nodes.map NodeDef.id

variable {d : Definition}

namespace Linter

variable {n : NodeDef} {id x : String} {ids acc : List String}

@[simp] theorem mem_successors : x ∈ successors d id ↔ d.Linked id x := by
  simp only [successors, mem_map, Definition.mem_outgoing, Definition.Linked]
  tauto

@[simp] theorem mem_nodeIds : id ∈ nodeIds d ↔ id ∈ d.nodes.map NodeDef.id := by
  rw [nodeIds, mem_eraseDups]

theorem nodesById_eq_none : d.nodesById id = none ↔ id ∉ d.nodes.map NodeDef.id := by
  simp [Definition.nodesById]

theorem eraseDups_of_nodup {l : List String} (h : l.Nodup) : l.eraseDups = l := by
  induction l with
  | nil => simp
  | cons a rest ih =>
    rw [nodup_cons] at h
    have hfilter : rest.filter (fun b => !b == a) = rest := by
      rw [filter_eq_self]
      intro b hb
      have hne : b ≠ a := fun hba => h.1 (hba ▸ hb)
      simp [hne]
    rw [eraseDups_cons, hfilter, ih h.2]

theorem nodeIds_eq (h : d.Consistent) : nodeIds d = d.nodes.map NodeDef.id :=
  eraseDups_of_nodup h.unique

/-- With unique ids a node is found under its own. -/
theorem nodesById_of_mem (h : d.Consistent) (hn : n ∈ d.nodes) : d.nodesById n.id = some n := by
  cases hm : d.nodesById n.id with
  | none => exact absurd (mem_map_of_mem hn) (nodesById_eq_none.mp hm)
  | some m =>
    have heq : m = n :=
      inj_on_of_nodup_map h.unique (d.mem_of_nodesById hm) hn (d.id_of_nodesById hm)
    rw [heq]

/-! ## The walk from the entry -/

theorem mem_reachable : x ∈ reachable d ↔ d.Path d.entryNodeId x := by
  have hlinked : (fun a b => b ∈ successors d a) = d.Linked := by
    ext
    simp
  rw [reachable, Definition.Path, ← hlinked]
  -- a vertex is expanded once, so the edges of the unmarked ones are still to come
  refine Search.mem_visitLoop (fun seen => (d.edges.filter fun e => e.fromNode ∉ seen).length)
    ?_ _ _ _ ⟨?_, by simp, by simp⟩ ?_ x
  · intro seen a ha
    rw [successors, length_map, Definition.outgoing, ← countP_eq_length_filter,
      ← countP_eq_length_filter, ← countP_eq_length_filter]
    induction d.edges with
    | nil => simp
    | cons e rest ih =>
      simp only [countP_cons, mem_cons]
      by_cases he : e.fromNode = a
      · simp [he, ha] at ih ⊢
        omega
      · simp [he] at ih ⊢
        omega
  · simp [ReflTransGen.refl]
  · have := length_filter_le (fun e => decide (e.fromNode ∉ ([] : List String))) d.edges
    simp only [length_singleton]
    omega

theorem path_mem (h : d.Consistent) (hpath : d.Path d.entryNodeId x) :
    x ∈ d.nodes.map NodeDef.id := by
  induction hpath with
  | refl => exact h.entry
  | tail _ hlink =>
    obtain ⟨e, he, -, rfl⟩ := hlink
    exact (h.edges e he).2

/-! ## The passes back from the ends -/

theorem mem_endNodes (h : d.Consistent) :
    id ∈ endNodes d ↔ ∃ n ∈ d.nodes, n.id = id ∧ n.type = .end := by
  simp only [endNodes, mem_filter, mem_nodeIds, mem_map, Option.any_eq_true, beq_iff_eq]
  constructor
  · rintro ⟨-, n, hn, hend⟩
    exact ⟨n, d.mem_of_nodesById hn, d.id_of_nodesById hn, hend⟩
  · rintro ⟨n, hn, rfl, hend⟩
    exact ⟨⟨n, hn, rfl⟩, n, nodesById_of_mem h hn, hend⟩

/-- A pass puts ids in front of what it is given, each once. -/
theorem canReachPass_grows : ∃ new, canReachPass d ids acc = new ++ acc ∧ new ⊆ ids ∧
    (acc.Nodup → (new ++ acc).Nodup) := by
  induction ids generalizing acc with
  | nil => exact ⟨[], by simp [canReachPass]⟩
  | cons id rest ih =>
    simp only [canReachPass]
    split
    · obtain ⟨new, heq, hsub, hnd⟩ := @ih acc
      exact ⟨new, heq, subset_cons_of_subset _ hsub, hnd⟩
    rename_i hid
    split
    · obtain ⟨new, heq, hsub, hnd⟩ := @ih (id :: acc)
      refine ⟨new ++ [id], by simp [heq], by simp [subset_cons_of_subset id hsub], ?_⟩
      intro hacc
      have hid' : id ∉ acc := by simpa using hid
      simpa using hnd (nodup_cons.mpr ⟨hid', hacc⟩)
    · obtain ⟨new, heq, hsub, hnd⟩ := @ih acc
      exact ⟨new, heq, subset_cons_of_subset _ hsub, hnd⟩

theorem canReachPass_sound {P : String → Prop} (hstep : ∀ a b, d.Linked a b → P b → P a) :
    (∀ x ∈ acc, P x) → ∀ x ∈ canReachPass d ids acc, P x := by
  induction ids generalizing acc with
  | nil => exact id
  | cons id rest ih =>
    intro hacc
    simp only [canReachPass]
    split
    · exact ih hacc
    split
    · rename_i hsucc
      apply ih
      simp only [any_eq_true, mem_successors, contains_iff_mem] at hsucc
      obtain ⟨y, hlink, hy⟩ := hsucc
      simpa using ⟨hstep id y hlink (hacc y hy), hacc⟩
    · exact ih hacc

/-- A pass that adds nothing was given a set closed under going back. -/
theorem closed_of_canReachPass (h : canReachPass d ids acc = acc) :
    ∀ a ∈ ids, ∀ b ∈ acc, d.Linked a b → a ∈ acc := by
  induction ids with
  | nil => simp
  | cons id rest ih =>
    simp only [canReachPass] at h
    split at h
    · rename_i hid
      simp only [mem_cons, forall_eq_or_imp]
      exact ⟨fun _ _ _ => by simpa using hid, ih h⟩
    · split at h
      · obtain ⟨new, heq, -⟩ := @canReachPass_grows d rest (id :: acc)
        have hlen := congrArg List.length (heq.symm.trans h)
        simp at hlen
        omega
      · rename_i hsucc
        simp only [mem_cons, forall_eq_or_imp]
        refine ⟨fun b hb hlink => ?_, ih h⟩
        simp only [any_eq_true, mem_successors, contains_iff_mem, not_exists] at hsucc
        exact absurd ⟨hlink, hb⟩ (hsucc b)

/-- The loop ends in a set closed under going back: every pass but the last adds an id. -/
theorem closed_canReachLoop (fuel : ℕ) (hnd : acc.Nodup) (hsub : acc ⊆ nodeIds d)
    (hfuel : (nodeIds d).length + 1 ≤ fuel + acc.length) :
    acc ⊆ canReachLoop d fuel acc ∧
      ∀ a ∈ nodeIds d, ∀ b ∈ canReachLoop d fuel acc, d.Linked a b →
        a ∈ canReachLoop d fuel acc := by
  induction fuel generalizing acc with
  | zero =>
    have := (subperm_of_subset hnd hsub).length_le
    omega
  | succ fuel ih =>
    obtain ⟨new, heq, hnew, hnd'⟩ := @canReachPass_grows d (nodeIds d) acc
    simp only [canReachLoop, heq, length_append]
    split
    · have hnil : new = [] := eq_nil_of_length_eq_zero (by omega)
      refine ⟨List.Subset.refl acc, closed_of_canReachPass ?_⟩
      rw [heq, hnil, nil_append]
    · obtain ⟨hsubset, hclosed⟩ := ih (hnd' hnd) (by simp [hnew, hsub])
        (by simp only [length_append]; omega)
      exact ⟨fun a ha => hsubset (mem_append_right _ ha), hclosed⟩

theorem sound_canReachLoop {P : String → Prop} (hstep : ∀ a b, d.Linked a b → P b → P a)
    (fuel : ℕ) : ∀ {acc}, (∀ x ∈ acc, P x) → ∀ x ∈ canReachLoop d fuel acc, P x := by
  induction fuel with
  | zero => exact id
  | succ fuel ih =>
    intro acc hacc
    simp only [canReachLoop]
    split
    · exact hacc
    · exact ih (canReachPass_sound hstep hacc)

theorem mem_canReachEnd (h : d.Consistent) : x ∈ canReachEnd d ↔ d.Ends x := by
  have hends : (endNodes d).Nodup := by
    rw [endNodes, nodeIds_eq h]
    exact h.unique.filter _
  constructor
  · refine sound_canReachLoop ?_ _ ?_ x
    · rintro a b hlink ⟨m, hm, hend, hpath⟩
      exact ⟨m, hm, hend, .head hlink hpath⟩
    · intro y hy
      obtain ⟨n, hn, rfl, hend⟩ := (mem_endNodes h).mp hy
      exact ⟨n, hn, hend, .refl⟩
  · rintro ⟨m, hm, hend, hpath⟩
    obtain ⟨hsub, hclosed⟩ := closed_canReachLoop (d.nodes.length + 1)
      hends (filter_subset_self _) (by simp [nodeIds_eq h])
    induction hpath using ReflTransGen.head_induction_on with
    | refl => exact hsub ((mem_endNodes h).mpr ⟨m, hm, rfl, hend⟩)
    | head hlink _ ih =>
      obtain ⟨e, he, rfl, rfl⟩ := hlink
      exact hclosed _ (mem_nodeIds.mpr (h.edges e he).1) _ ih ⟨e, he, rfl, rfl⟩

/-- A loop whose body never raises collects the values of the body. -/
theorem mapM_eq_ok {α β : Type} {f : α → Except PyError β} {g : α → β} :
    ∀ {xs : List α}, (∀ x ∈ xs, f x = .ok (g x)) → xs.mapM f = .ok (xs.map g) := by
  intro xs
  induction xs with
  | nil => simp [pure, Except.pure]
  | cons x rest ih =>
    intro h
    simp only [mem_cons, forall_eq_or_imp] at h
    simp [h.1, ih h.2, bind, Except.bind, pure, Except.pure]

/-- Rule 5's report on a node from which no end can be reached. -/
def stuckReport (d : Definition) (n : NodeDef) : LintIssue :=
  if n.type = .waitForEvent ∧ d.outgoing n.id = [] then
    warning 5 s!"wait_for_event node '{n.id}' has no path to end (permanent listener?)" n.id
  else issue 5 s!"Node '{n.id}' has no path to any end node" n.id

theorem terminationIssue_eq (h : d.Consistent) (hn : n ∈ d.nodes) [Decidable (d.Ends n.id)] :
    terminationIssue d n.id = .ok (if d.Ends n.id then [] else [stuckReport d n]) := by
  have hends : n.id ∈ endNodes d → d.Ends n.id := by
    rw [mem_endNodes h]
    rintro ⟨m, hm, hid, hend⟩
    exact ⟨m, hm, hend, hid ▸ .refl⟩
  simp only [terminationIssue, nodesById_of_mem h hn, Bool.or_eq_true, contains_iff_mem,
    mem_canReachEnd h, stuckReport, List.isEmpty_iff]
  by_cases hn' : d.Ends n.id
  · simp [hn']
  · have hout : n.id ∉ endNodes d := fun hmem => hn' (hends hmem)
    simp only [hn', hout, or_self, if_false]
    split <;> rfl

end Linter

/-- **Rule 4 reports the nodes without a path from the entry, and rule 5 the nodes on such a
path from which no end can be reached**: as an error, but for a wait without outgoing edges. -/
theorem graph_rules_exact (d : Definition) (h : d.Consistent) :
    (∀ i, i ∈ rule04Reachability d ↔ ∃ n ∈ d.nodes, ¬ d.Path d.entryNodeId n.id ∧
      i = issue 4 s!"Node '{n.id}' is unreachable from the trigger" n.id) ∧
    ((∃ n ∈ d.nodes, n.type = .end) → ∃ issues, rule05Termination d = .ok issues ∧
      ∀ i, i ∈ issues ↔ ∃ n ∈ d.nodes, d.Path d.entryNodeId n.id ∧ n.type ≠ .end ∧
        ¬ d.Ends n.id ∧ i = stuckReport d n) := by
  classical
  have hentry : (d.nodesById d.entryNodeId).isNone = false := by
    simpa [nodesById_eq_none, ← Option.isNone_iff_eq_none] using
      mt nodesById_eq_none.mp (not_not.mpr h.entry)
  refine ⟨fun i => ?_, fun hend => ?_⟩
  · simp only [rule04Reachability, hentry, Bool.false_eq_true, if_false, mem_map,
      mem_filter, nodeIds_eq h, Bool.and_eq_true, bne_iff_ne, ne_eq, Bool.not_eq_true',
      contains_eq_mem, decide_eq_false_iff_not, mem_reachable]
    constructor
    · rintro ⟨id, ⟨⟨n, hn, rfl⟩, -, hpath⟩, rfl⟩
      exact ⟨n, hn, hpath, rfl⟩
    · rintro ⟨n, hn, hpath, rfl⟩
      refine ⟨n.id, ⟨⟨n, hn, rfl⟩, fun heq => hpath ?_, hpath⟩, rfl⟩
      rw [heq]
      exact .refl
  · have hnil : (endNodes d).isEmpty = false := by
      obtain ⟨n, hn, hend⟩ := hend
      have hmem := (mem_endNodes h).mpr ⟨n, hn, rfl, hend⟩
      cases hlist : endNodes d with
      | nil => simp [hlist] at hmem
      | cons => rfl
    -- what the loop over the reachable ids makes of each of them
    have hloop : (reachable d).mapM (terminationIssue d) = .ok ((reachable d).map fun id =>
        match d.nodesById id with
        | some n => if d.Ends id then [] else [stuckReport d n]
        | none => []) := by
      refine mapM_eq_ok fun id hid => ?_
      obtain ⟨n, hn, rfl⟩ := mem_map.mp (path_mem h (mem_reachable.mp hid))
      simp [terminationIssue_eq h hn, nodesById_of_mem h hn]
    refine ⟨_, by simp [rule05Termination, hnil, hloop, bind, Except.bind, pure, Except.pure]; rfl,
      fun i => ?_⟩
    simp only [mem_flatten, mem_map, mem_reachable]
    constructor
    · rintro ⟨_, ⟨id, hpath, rfl⟩, hi⟩
      obtain ⟨n, hn, rfl⟩ := mem_map.mp (path_mem h hpath)
      simp only [nodesById_of_mem h hn] at hi
      split at hi
      · simp at hi
      · rename_i hends
        refine ⟨n, hn, hpath, fun htype => hends ⟨n, hn, htype, .refl⟩, hends, by simpa using hi⟩
    · rintro ⟨n, hn, hpath, -, hends, rfl⟩
      exact ⟨_, ⟨n.id, hpath, rfl⟩, by simp [nodesById_of_mem h hn, hends]⟩

/-- A run that may end, a listener beside it, and a join nothing leads to. -/
def listener : Definition where
  entryNodeId := "start"
  nodes := [⟨"start", .trigger, []⟩, ⟨"hook", .waitForEvent, []⟩, ⟨"island", .join, []⟩,
    ⟨"done", .end, []⟩]
  edges := [{ id := "e1", fromNode := "start", toNode := "hook" },
    { id := "e2", fromNode := "start", toNode := "done" }]

theorem listener_rules_exact :
    ¬ listener.Path "start" "island" ∧ listener.Path "start" "hook" ∧ ¬ listener.Ends "hook" := by
  have h : listener.Consistent := ⟨by decide, by decide, by decide⟩
  obtain ⟨h4, h5⟩ := graph_rules_exact listener h
  obtain ⟨issues, heq, h5⟩ := h5 ⟨⟨"done", .end, []⟩, by simp [listener], rfl⟩
  obtain ⟨n, -, hisland, hn⟩ := (h4 (issue 4 "Node 'island' is unreachable from the trigger"
    (some "island"))).mp (by decide +kernel)
  have hmem : warning 5 "wait_for_event node 'hook' has no path to end (permanent listener?)"
      (some "hook") ∈ issues := by
    have hrun : rule05Termination listener = .ok [warning 5
      "wait_for_event node 'hook' has no path to end (permanent listener?)" (some "hook")] := by
      decide +kernel
    simp [Except.ok.inj (heq.symm.trans hrun)]
  obtain ⟨m, hm, hpath, -, hends, heq⟩ := (h5 _).mp hmem
  have hn' : n.id = "island" := by simpa [issue] using congrArg LintIssue.nodeId hn.symm
  have hm' : m.id = "hook" := by
    have := congrArg LintIssue.nodeId heq
    simp only [stuckReport, warning, issue] at this
    split at this <;> simpa using this.symm
  exact ⟨hn' ▸ hisland, hm' ▸ hpath, hm' ▸ hends⟩

/-! ## The graph of instructions -/

/-- Some instruct node has the one agent instruct the other. -/
def Definition.Instructs (d : Definition) (issuer target : String) : Prop :=
  ∃ n ∈ d.nodes, n.type = .instruct ∧ n.config.getStr? "issuer_agent_id" = some issuer ∧
    n.config.getStr? "target_agent_id" = some target ∧ issuer ≠ "" ∧ target ≠ ""

namespace Linter

variable {next : String → List String} {gray black black' ns : List String} {agent : String}

/-- The search only reports a cycle that is there: the agents on the recursion stack lead to
the one whose neighbours are scanned. -/
theorem dfs_sound (fuel : ℕ) :
    (∀ {gray black agent}, (∀ g ∈ gray, ReflTransGen (fun a b => b ∈ next a) g agent) →
      (dfs next fuel gray black agent).1 = true → ∃ a, TransGen (fun a b => b ∈ next a) a a) ∧
    ∀ {gray black ns agent}, (∀ g ∈ gray, ReflTransGen (fun a b => b ∈ next a) g agent) →
      ns ⊆ next agent → (dfsNeighbors next fuel gray black ns).1 = true →
        ∃ a, TransGen (fun a b => b ∈ next a) a a := by
  induction fuel with
  | zero =>
    refine ⟨fun _ h => by simp [dfs] at h, fun {gray black ns agent} _ _ h => ?_⟩
    cases ns <;> simp [dfsNeighbors] at h
  | succ fuel ih =>
    refine ⟨fun {gray black agent} hgray h => ?_, fun {gray black ns agent} hgray hns h => ?_⟩
    · simp only [dfs] at h
      have hgray' : ∀ g ∈ agent :: gray, ReflTransGen (fun a b => b ∈ next a) g agent := by
        simpa using ⟨.refl, hgray⟩
      apply ih.2 hgray' (List.Subset.refl _)
      split at h
      · rename_i heq
        rw [heq]
      · simp at h
    · cases ns with
      | nil => simp [dfsNeighbors] at h
      | cons neighbor rest =>
        rw [cons_subset] at hns
        simp only [dfsNeighbors] at h
        split at h
        · rename_i hmem
          exact ⟨neighbor, .tail' (hgray neighbor (by simpa using hmem)) hns.1⟩
        split at h
        · exact ih.2 hgray hns.2 h
        split at h
        · rename_i heq
          have hgray' : ∀ g ∈ gray, ReflTransGen (fun a b => b ∈ next a) g neighbor :=
            fun g hg => (hgray g hg).tail hns.1
          exact ih.1 hgray' (by rw [heq])
        · exact ih.2 hgray hns.2 h

/-- Every agent that is done leads to agents that are done only, and lies on no cycle. -/
structure Done (next : String → List String) (black : List String) : Prop where
  closed : ∀ b ∈ black, ∀ y ∈ next b, y ∈ black
  acyclic : ∀ b ∈ black, ¬ TransGen (fun a b => b ∈ next a) b b

/-- What a search that reports no cycle leaves behind. -/
structure Searched (next : String → List String) (gray black black' ns : List String) : Prop where
  done : Done next black'
  grown : black ⊆ black'
  covers : ns ⊆ black'
  apart : ∀ g ∈ gray, g ∉ black'

theorem Done.path {a b : String} (h : Done next black) (ha : a ∈ black)
    (hpath : ReflTransGen (fun a b => b ∈ next a) a b) : b ∈ black := by
  induction hpath with
  | refl => exact ha
  | tail _ hstep ih => exact h.closed _ ih _ hstep

/-- An agent all of whose targets are done, and which is not itself among them, is done. -/
theorem Done.cons (h : Done next black) (hnext : next agent ⊆ black) (hout : agent ∉ black) :
    Done next (agent :: black) where
  closed b hb y hy := by
    rcases mem_cons.mp hb with rfl | hb
    · exact mem_cons_of_mem _ (hnext hy)
    · exact mem_cons_of_mem _ (h.closed b hb y hy)
  acyclic b hb hcycle := by
    rcases mem_cons.mp hb with rfl | hb
    · obtain ⟨y, hy, hback⟩ := TransGen.head'_iff.mp hcycle
      exact hout (h.path (hnext hy) hback)
    · exact h.acyclic b hb hcycle

/-- With fuel for every agent that is not on the stack, the search finishes its agents. -/
theorem dfs_complete (U : Finset String) (E : ℕ) (hU : ∀ a, ∀ b ∈ next a, b ∈ U)
    (hE : ∀ a, (next a).length ≤ E) (fuel : ℕ) :
    (∀ {gray black black' agent}, Done next black → (∀ g ∈ gray, g ∉ black) → agent ∈ U →
      agent ∉ gray → agent ∉ black → (U \ gray.toFinset).card * (E + 2) ≤ fuel →
      dfs next fuel gray black agent = (false, black') →
        Searched next gray black black' [agent]) ∧
    ∀ {gray black black' ns}, Done next black → (∀ g ∈ gray, g ∉ black) → (∀ x ∈ ns, x ∈ U) →
      (U \ gray.toFinset).card * (E + 2) + ns.length ≤ fuel →
      dfsNeighbors next fuel gray black ns = (false, black') →
        Searched next gray black black' ns := by
  induction fuel with
  | zero =>
    refine ⟨fun {gray _ _ agent} _ _ hagent hgray _ hfuel => ?_,
      fun {gray black black' ns} hdone hapart _ hfuel h => ?_⟩
    · have hmem : agent ∈ U \ gray.toFinset := by simp [hagent, hgray]
      have hpos := Finset.card_pos.mpr ⟨agent, hmem⟩
      have := Nat.mul_pos hpos (by omega : 0 < E + 2)
      omega
    · cases ns with
      | nil =>
        simp only [dfsNeighbors, Prod.mk.injEq, true_and] at h
        subst h
        exact ⟨hdone, List.Subset.refl _, nil_subset _, hapart⟩
      | cons => simp at hfuel
  | succ fuel ih =>
    refine ⟨fun {gray black black' agent} hdone hapart hagent hgray hblack hfuel h => ?_,
      fun {gray black black' ns} hdone hapart hns hfuel h => ?_⟩
    · -- the agent goes on the stack, which leaves one agent less to go
      have hcard : (U \ gray.toFinset).card = (U \ (agent :: gray).toFinset).card + 1 := by
        have hmem : agent ∈ U \ gray.toFinset := by simp [hagent, hgray]
        rw [← Finset.card_erase_add_one hmem]
        congr 2
        ext x
        simp only [toFinset_cons, Finset.mem_sdiff, Finset.mem_insert, Finset.mem_erase]
        tauto
      have hlen := hE agent
      simp only [dfs] at h
      split at h
      · simp at h
      rename_i black₁ heq
      simp only [Prod.mk.injEq, true_and] at h
      subst h
      have hrec := ih.2 hdone (by simpa using ⟨hblack, hapart⟩) (hU agent)
        (by rw [hcard, Nat.add_mul] at hfuel; omega) heq
      have hout : agent ∉ black₁ := hrec.apart agent mem_cons_self
      refine ⟨hrec.done.cons hrec.covers hout, ?_, by simp, ?_⟩
      · exact fun x hx => mem_cons_of_mem _ (hrec.grown hx)
      · intro g hg
        have hne : g ≠ agent := fun heq => hgray (heq ▸ hg)
        simpa [hne] using hrec.apart g (mem_cons_of_mem _ hg)
    · cases ns with
      | nil =>
        simp only [dfsNeighbors, Prod.mk.injEq, true_and] at h
        subst h
        exact ⟨hdone, List.Subset.refl _, nil_subset _, hapart⟩
      | cons neighbor rest =>
        simp only [mem_cons, forall_eq_or_imp, length_cons] at hns hfuel
        simp only [dfsNeighbors] at h
        split at h
        · simp at h
        rename_i hgray
        split at h
        · rename_i hmem
          have hrec := ih.2 hdone hapart hns.2 (by omega) h
          have hneighbor := hrec.grown (by simpa using hmem)
          exact ⟨hrec.done, hrec.grown, by simp [hneighbor, hrec.covers], hrec.apart⟩
        · rename_i hblack
          split at h
          · simp at h
          rename_i black₁ heq
          have hfirst := ih.1 hdone hapart hns.1 (by simpa using hgray) (by simpa using hblack)
            (by omega) heq
          have hrec := ih.2 hfirst.done hfirst.apart hns.2 (by omega) h
          have hneighbor := hrec.grown (hfirst.covers mem_cons_self)
          exact ⟨hrec.done, fun x hx => hrec.grown (hfirst.grown hx),
            by simp [hneighbor, hrec.covers], hrec.apart⟩

/-- The outer loop reports a cycle, or leaves every start done. -/
theorem dfsStarts_spec (U : Finset String) (E : ℕ) (hU : ∀ a, ∀ b ∈ next a, b ∈ U)
    (hE : ∀ a, (next a).length ≤ E) {fuel : ℕ} (hfuel : U.card * (E + 2) ≤ fuel)
    {starts : List String} (hstarts : ∀ a ∈ starts, a ∈ U) (hdone : Done next black) :
    if dfsStarts next fuel black starts then ∃ a, TransGen (fun a b => b ∈ next a) a a
    else ∀ a ∈ starts, ¬ TransGen (fun a b => b ∈ next a) a a := by
  induction starts generalizing black with
  | nil => simp [dfsStarts]
  | cons start rest ih =>
    simp only [mem_cons, forall_eq_or_imp] at hstarts ⊢
    simp only [dfsStarts]
    split
    · rename_i hblack
      have hrec := ih hstarts.2 hdone
      split at hrec
      · rwa [if_pos ‹_›]
      · rw [if_neg ‹_›]
        exact ⟨hdone.acyclic start (by simpa using hblack), hrec⟩
    · rename_i hblack
      cases hrun : dfs next fuel [] black start with
      | mk cycle black₁ =>
        cases cycle with
        | true =>
          have hgray : ∀ g ∈ [], ReflTransGen (fun a b => b ∈ next a) g start := by simp
          simpa using (dfs_sound fuel).1 hgray (by rw [hrun])
        | false =>
          have hsearched := (dfs_complete U E hU hE fuel).1 hdone (by simp) hstarts.1 (by simp)
            (by simpa using hblack) (by simpa using hfuel) hrun
          have hstart := hsearched.done.acyclic start (hsearched.covers mem_cons_self)
          have hrec := ih hstarts.2 hsearched.done
          split at hrec
          · rwa [if_pos ‹_›]
          · rw [if_neg ‹_›]
            exact ⟨hstart, hrec⟩

theorem length_eraseDups_le (l : List String) : l.eraseDups.length ≤ l.length := by
  induction hlen : l.length using Nat.strong_induction_on generalizing l with
  | h n ih =>
    cases l with
    | nil => simp
    | cons a rest =>
      have hle := length_filter_le (fun b => !b == a) rest
      simp only [length_cons] at hlen
      have := ih _ (by omega) (rest.filter fun b => !b == a) rfl
      rw [eraseDups_cons, length_cons]
      omega

theorem mem_instructEdges {a b : String} : (a, b) ∈ instructEdges d ↔ d.Instructs a b := by
  simp only [instructEdges, mem_filterMap, Definition.Instructs]
  refine exists_congr fun n => and_congr_right fun _ => ?_
  by_cases hn : n.type = .instruct
  · cases n.config.getStr? "issuer_agent_id" <;> cases n.config.getStr? "target_agent_id" <;>
      simp [hn]
    grind
  · simp [hn]

theorem mem_instructTargets {a b : String} : b ∈ instructTargets d a ↔ d.Instructs a b := by
  rw [← mem_instructEdges]
  simp [instructTargets]

end Linter

/-- **Rule 10 reports an error exactly when the instructions form a cycle.** -/
theorem instruct_cycle_exact (d : Definition) :
    (∃ i ∈ rule10InstructCycle d, i.level = .error) ↔
      ∃ agent, TransGen d.Instructs agent agent := by
  have hrel : (fun a b => b ∈ instructTargets d a) = d.Instructs := by
    ext
    exact mem_instructTargets
  set edges := instructEdges d with hedges
  set agents := (edges.map Prod.fst ++ edges.map Prod.snd).eraseDups with hagents
  have hmem {a b : String} (h : d.Instructs a b) : a ∈ agents ∧ b ∈ agents := by
    have hab := mem_instructEdges.mpr h
    simp only [hagents, mem_eraseDups, mem_append, mem_map]
    exact ⟨.inl ⟨_, hab, rfl⟩, .inr ⟨_, hab, rfl⟩⟩
  have hU : ∀ a, ∀ b ∈ instructTargets d a, b ∈ agents.toFinset := fun a b hb => by
    simpa using (hmem (mem_instructTargets.mp hb)).2
  have hE : ∀ a, (instructTargets d a).length ≤ edges.length := fun a =>
    (length_eraseDups_le _).trans (by simpa using length_filter_le (fun e => e.1 == a) edges)
  have hfuel : agents.toFinset.card * (edges.length + 2) ≤
      (agents.length + 1) * (edges.length + 2) :=
    Nat.mul_le_mul_right _ (agents.toFinset_card_le.trans (Nat.le_succ _))
  have hstarts : ∀ a ∈ agents, a ∈ agents.toFinset := by simp
  have hnone : Done (instructTargets d) [] := ⟨by simp, by simp⟩
  have hspec := dfsStarts_spec agents.toFinset edges.length hU hE hfuel hstarts hnone
  rw [hrel] at hspec
  simp only [rule10InstructCycle, ← hedges, ← hagents]
  split at hspec
  · rename_i hfound
    simpa [hfound, issue] using hspec
  rename_i hfound
  simp only [hfound, Bool.false_eq_true, if_false, not_mem_nil, false_and, exists_false,
    false_iff, not_exists]
  intro agent hcycle
  -- an agent on a cycle issues an instruction, so the search has started from it
  obtain ⟨b, hb, -⟩ := TransGen.head'_iff.mp hcycle
  exact hspec agent (hmem hb).1 hcycle

end Smap.Workflow
