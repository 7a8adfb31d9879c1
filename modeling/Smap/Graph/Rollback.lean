import Smap.Graph.Locks

/-!
# Builds that are taken back

`delete_by_build` and `restore_from_snapshot` undo what a build has made of the subgraph of its
config, however far it has come.  `_rollback` leaves the points that the build has written, and
those may name entities that are gone.
-/

namespace Smap.Graph

open Smap.Program Smap.PropertyGraph Program World

/-! ## The subgraph -/

/-- A graph, and what a build has made of it. -/
abbrev Built (b : BuildId) (g₀ g : Subgraph) : Prop :=
  Graph.Within (Node.ofBuild b) (Rel.ofBuild b) g₀ g

section Built

variable {b : BuildId} {g₀ g : Subgraph}

variable (h : Built b g₀ g)

include h

theorem Built.upsert (replace : Bool) (pid : ProjectId) (t : Triple) :
    Built b g₀ (upsert replace b pid g t) := by
  refine h.mergeLink (fun e => ?_) ⟨?_, ?_⟩ fun v hv => ⟨?_, ?_⟩
  · simp [Rel.ofBuild, mergeRelation]
  · simp [Node.ofBuild, mergeEntity]
  · simp [Node.ofBuild, mergeEntity]
  · exact hv
  · exact hv

theorem Built.foldl_upsert (replace : Bool) (pid : ProjectId) (triples : List Triple) :
    Built b g₀ (triples.foldl (Graph.upsert replace b pid) g) := by
  induction triples generalizing g with
  | nil => exact h
  | cons t ts ih => exact ih (h.upsert replace pid t)

/-- A build changes what it has marked as its own. -/
theorem Built.writeTriples (replace : Bool) (pid : ProjectId) (triples : List Triple) :
    Built b g₀ ((if replace then replaceTriples else applyTriples) b pid triples g) := by
  cases replace with
  | true => exact ((h.foldl_upsert true pid triples).dropEdges _).dropIsolated _
  | false => exact h.foldl_upsert false pid triples

theorem Built.deleteByBuild (b' : BuildId) : Built b g₀ (Graph.deleteByBuild b' g) :=
  (h.dropEdges _).dropIsolated _

end Built

/-- What is compared of a node: a missing type is the empty one. -/
def Node.shown (n : Node) : Option BuildId × String := (n.buildId, n.type.getD "")

/-- What is compared of an edge: missing members are none. -/
def Rel.shown (r : Rel) : Option BuildId × Option ℚ × Option (List String) × List String ×
    Option Time × Option Time :=
  (r.buildId, r.confidence, r.evidenceRefs, r.sourceMemberIds.getD [], r.firstSeenAt, r.lastSeenAt)

/-- The same nodes, and the same edges between them. -/
def SameShown (g g' : Subgraph) : Prop :=
  (∀ n, (g'.node n).map Node.shown = (g.node n).map Node.shown) ∧
    ∀ k, (g'.edge k).map Rel.shown = (g.edge k).map Rel.shown

/-- **A rollback shows the graph the build found.** -/
theorem Built.rollback {b : BuildId} {g₀ g : Subgraph} (h : Built b g₀ g) :
    SameShown g₀ (restoreFromSnapshot g₀ (Graph.deleteByBuild b g)) :=
  Graph.Within.rollback h (fun v₀ v => by simp [Node.shown, restoreNode])
    fun e₀ e => by simp [Rel.shown, restoreRel]

/-- A call that goes through. -/
def World.call (w : World) (c : ConfigId) (k : Call) : World :=
  w.setSite c (callAct {} k (w.site c)).2

theorem World.site_call_self (w : World) (c : ConfigId) (k : Call) :
    (w.call c k).site c = (callAct {} k (w.site c)).2 := by
  simp [call, site_setSite]

theorem World.site_call_of_ne {w : World} {c c' : ConfigId} (k : Call) (h : c' ≠ c) :
    (w.call c k).site c' = w.site c' := by
  simp [call, site_setSite, h]

/-- `delete_by_build` and `restore_from_snapshot`, as `_rollback` calls them. -/
def World.rollbackBuild (w : World) (c : ConfigId) (b : BuildId) (snapshot : Subgraph) : World :=
  (w.call c (.deleteByBuild b)).call c (.restoreFromSnapshot snapshot)

section Compensate

variable {p : Procs} {i : ℕ} {t : Task Op Res Notes} {c : ConfigId} (ht : p.tasks[i]? = some t)
  (halive : i ∉ p.world.dead)

include ht halive

/-- One call of a process that is alive. -/
theorem step_call {k : Call} {f : Except String (Answer k) → Process Unit}
    (hprog : t.prog = .op (.call c k) f) :
    step machine (.step i {}) p = some ⟨p.world.call c k,
      p.tasks.set i ⟨t.loc, f (.ok (callAct {} k (p.world.site c)).1)⟩⟩ := by
  simp only [step, stepTask, ht, hprog, machine, halive, if_false]
  rfl

/-- That is what becomes of the world when the compensation of `_rollback` goes through. -/
theorem run_compensate {b : BuildId} {snapshot : Subgraph} {f : Except String Unit → Process Unit}
    (hprog : t.prog = (compensate c b snapshot).run >>= f) :
    run machine [.step i {}, .step i {}] p =
      some ⟨p.world.rollbackBuild c b snapshot, p.tasks.set i ⟨t.loc, f (.ok ())⟩⟩ := by
  have hi := (List.getElem?_eq_some_iff.mp ht).1
  -- the second of the two calls is left
  let rest : Process Unit := (tryCall c (.restoreFromSnapshot snapshot)).run >>= f
  let q : Procs := ⟨p.world.call c (.deleteByBuild b), p.tasks.set i ⟨t.loc, rest⟩⟩
  have hdeleted : step machine (.step i {}) p = some q := step_call ht halive hprog
  have hrestored := step_call (p := q) (t := ⟨t.loc, rest⟩) (List.getElem?_set_self hi) halive
    (k := .restoreFromSnapshot snapshot) rfl
  rw [List.set_set] at hrestored
  simp only [run, hdeleted, hrestored]
  rfl

end Compensate

theorem World.site_rollbackBuild (w : World) (c : ConfigId) (b : BuildId) (snapshot : Subgraph) :
    (w.rollbackBuild c b snapshot).site c =
      { w.site c with
        graph := Graph.restoreFromSnapshot snapshot (Graph.deleteByBuild b (w.site c).graph) } := by
  simp only [World.rollbackBuild, site_call_self, callAct]

/-- **The rollback restores the subgraph** that the snapshot was taken of, whatever the build has
written, and touches no other. -/
theorem rollback_restores_graph (w : World) (c : ConfigId) (b : BuildId) (replace : Bool)
    (pid : ProjectId) (triples : List Triple) (read : List Message) :
    let snapshot := (callAct {} .snapshotSubgraph (w.site c)).1
    let written := (w.call c .snapshotSubgraph).call c (.writeTriples replace pid b triples read)
    let w' := written.rollbackBuild c b snapshot
    SameShown (w.site c).graph (w'.site c).graph ∧
      ∀ c', c' ≠ c → (w'.site c').graph = (w.site c').graph := by
  intro snapshot written w'
  have hbuilt : Built b (w.site c).graph (written.site c).graph := by
    simp only [written, site_call_self, callAct]
    exact Built.writeTriples (.refl _) replace pid triples
  constructor
  · rw [site_rollbackBuild]
    exact hbuilt.rollback
  · intro c' hc'
    simp only [w', written, World.rollbackBuild, World.site_call_of_ne _ hc']

/-! ## The points -/

/-- The calls for a build with the snapshot `g₀`: of what the others do, none writes here. -/
def Call.forBuild (b : BuildId) (g₀ : Subgraph) : Call → Prop
  | .writeTriples _ _ b' _ _ | .upsertEntities b' _ | .deleteByBuild b' => b' = b
  | .restoreFromSnapshot snapshot => snapshot = g₀
  | _ => True

def Op.forBuild (c : ConfigId) (b : BuildId) (g₀ : Subgraph) : Op → Prop
  | .call c' k => c' = c → k.forBuild b g₀
  | _ => True

/-- Whoever calls for the config does so for the build. -/
def alone (c : ConfigId) (b : BuildId) (g₀ : Subgraph) (_i : ℕ) (_l : Notes) (o : Op)
    (_w : World) : Prop :=
  Op.forBuild c b g₀ o

/-- Every point names a node. -/
def Site.Covered (s : Site) : Prop :=
  ∀ b entity, (s.points b entity).isSome = true → (s.graph.node entity).isSome = true

/-- A config, and what a build has made of it. -/
structure Underway (b : BuildId) (s₀ s : Site) : Prop where
  graph : Built b s₀.graph s.graph
  points : ∀ b' entity, (s.points b' entity).isSome = true →
    b' = b ∨ (s₀.points b' entity).isSome = true

section Underway

variable {b : BuildId} {s₀ s : Site} {c : ConfigId} {w w' : World}

/-- A call of the build leaves it underway. -/
theorem Underway.call {input : Input} {k : Call} (h : Underway b s₀ s)
    (hk : k.forBuild b s₀.graph) : Underway b s₀ (callAct input k s).2 := by
  cases k with
  | writeTriples replace pid b' triples read =>
    cases hk
    exact ⟨h.graph.writeTriples replace pid triples, h.points⟩
  | upsertEntities b' points =>
    cases hk
    refine ⟨h.graph, fun b' entity hp => ?_⟩
    by_cases hb : b' = b
    · exact .inl hb
    · exact h.points b' entity (by simpa [callAct, hb] using hp)
  | deleteSupersededEntities keep entities =>
    refine ⟨h.graph, fun b' entity hp => ?_⟩
    simp only [callAct] at hp
    split at hp
    · cases hp
    · exact h.points b' entity hp
  | deletePointsNotInBuild keep =>
    refine ⟨h.graph, fun b' entity hp => ?_⟩
    simp only [callAct] at hp
    split at hp
    · cases hp
    · exact h.points b' entity hp
  | deleteByBuild b' => exact ⟨h.graph.deleteByBuild b', h.points⟩
  | restoreFromSnapshot snapshot =>
    cases hk
    exact ⟨Graph.Within.restore h.graph, h.points⟩
  | _ => exact ⟨h.graph, h.points⟩

theorem Underway.congr {s' : Site} (h : Underway b s₀ s)
    (hs : s.sameStores s' ∧ s'.points = s.points) : Underway b s₀ s' where
  graph := hs.1.2.1 ▸ h.graph
  points := hs.2 ▸ h.points

/-- What is for the build keeps it underway. -/
theorem Underway.step {i : ℕ} {o : Op} {input : Input} {r : Res o} (h : Underway b s₀ (w.site c))
    (ho : Op.forBuild c b s₀.graph o) (hact : act i o input w = some (r, w')) :
    Underway b s₀ (w'.site c) := by
  obtain hsame | ⟨-, rfl⟩ | ⟨k, rfl, hsite⟩ := stores_of_act c hact
  · exact h.congr hsame
  · exact ⟨h.graph, h.points⟩
  · rw [hsite]
    exact h.call (ho rfl)

theorem Underway.outside {e : Outside} {new : List (Notes × Process Unit)}
    (h : Underway b s₀ (w.site c)) (henv : machine.env e w = some (w', new)) :
    Underway b s₀ (w'.site c) := by
  cases e with
  | die i =>
    cases henv
    have hreleased := h.congr ((w.site c).sameStores_releasedBy i)
    exact ⟨hreleased.graph, hreleased.points⟩
  | post c' m =>
    simp only [machine, post, Option.map_eq_some_iff] at henv
    obtain ⟨w'', hpost, henv⟩ := henv
    cases henv
    split at hpost
    · cases hpost
      exact h.congr (sameStores_setSite ⟨⟨rfl, rfl, rfl, rfl⟩, rfl⟩)
    · cases hpost

/-- What a run makes of a config whose calls are all for one build. -/
theorem Underway.run {p p' : Procs} {ms : List (Move Input Outside)}
    (hall : AllSteps machine (atTasks (alone c b (p.world.site c).graph)) ms p)
    (hrun : run machine ms p = some p') :
    Underway b (p.world.site c) (p'.world.site c) := by
  refine run_invariant (fun q => Underway b (p.world.site c) (q.world.site c)) ?_ ms p p' hall
    ⟨.refl _, fun _ _ => .inr⟩ hrun
  intro m q q' hq hcond hstep
  obtain ⟨i, input, t, o, k, r, w', ht, hprog, hact⟩ | ⟨e, w', new, henv⟩ := isStep_of_step hstep
  · simp only [machine] at hact
    split at hact
    · cases hact
    · exact hq.step (hcond t o k ht hprog) hact
  · exact hq.outside henv

end Underway

/-- **When a rolled-back build leaves no point behind**: every entity that it has a point for was
a node before it, whoever has carried out which part of it. -/
theorem covered_rollback_iff (p p' : Procs) (c : ConfigId) (b : BuildId)
    (hcovered : (p.world.site c).Covered) (ms : List (Move Input Outside))
    (hall : AllSteps machine (atTasks (alone c b (p.world.site c).graph)) ms p)
    (hrun : run machine ms p = some p') :
    ((p'.world.rollbackBuild c b (p.world.site c).graph).site c).Covered ↔
      ∀ entity, ((p'.world.site c).points b entity).isSome = true →
        ((p.world.site c).graph.node entity).isSome = true := by
  have hunderway := Underway.run hall hrun
  have hnode : ∀ entity, (((p'.world.rollbackBuild c b (p.world.site c).graph).site c).graph.node
      entity).isSome = ((p.world.site c).graph.node entity).isSome := by
    intro entity
    have hsame := congrArg Option.isSome (hunderway.graph.rollback.1 entity)
    simpa only [site_rollbackBuild, Option.isSome_map] using hsame
  have hpoints : ((p'.world.rollbackBuild c b (p.world.site c).graph).site c).points =
      (p'.world.site c).points := by
    rw [site_rollbackBuild]
  simp only [Site.Covered, hnode, hpoints]
  constructor
  · exact fun h entity => h b entity
  · intro h b' entity hp
    obtain rfl | hbefore := hunderway.points b' entity hp
    · exact h entity hp
    · exact hcovered b' entity hbefore

/-- A test for `alone` on runs that do not restore. -/
def aloneB (b : BuildId) (_i : ℕ) (_l : Notes) (o : Op) (_w : World) : Bool :=
  match o with
  | .call _ (.writeTriples _ _ b' _ _) | .call _ (.upsertEntities b' _)
  | .call _ (.deleteByBuild b') => b' == b
  | .call _ (.restoreFromSnapshot _) => false
  | _ => true

theorem alone_of_aloneB (c : ConfigId) (b : BuildId) (g₀ : Subgraph) (i : ℕ) (l : Notes) (o : Op)
    (w : World) (h : aloneB b i l o w = true) : alone c b g₀ i l o w := by
  cases o with
  | call c' k =>
    intro _
    cases k with
    | writeTriples | upsertEntities | deleteByBuild => simpa [aloneB, Call.forBuild] using h
    | restoreFromSnapshot => cases h
    | _ => trivial
  | _ => trivial

theorem covered_resting (messages : List Message) : ((resting messages).site 0).Covered := nofun

/-- A build of one message, up to its points. -/
def writingPoints (b : BuildId) : List Input :=
  starting b ++ proceed 4 ++ [{ triples := [fact] }] ++ proceed 8

theorem not_covered_rollback :
    ∃ p', run machine (goes 0 (writingPoints 1)) (start (resting [hello]) oneBuild) =
        some p' ∧
      ¬ ((p'.world.rollbackBuild 0 1 ((resting [hello]).site 0).graph).site 0).Covered := by
  have hcheck : checkSteps machine (checkTasks (aloneB 1)) (goes 0 (writingPoints 1))
      (start (resting [hello]) oneBuild) = true := by decide +kernel
  have hall := allSteps_of_checkSteps (atTasks_of_checkTasks (alone_of_aloneB 0 1 .empty)) _ _
    hcheck
  obtain ⟨p', hp', hpoint⟩ :
      ∃ p' ∈ run machine (goes 0 (writingPoints 1)) (start (resting [hello]) oneBuild),
        ((p'.world.site 0).points 1 "a").isSome = true := by
    decide +kernel
  refine ⟨p', hp', fun hcovered => ?_⟩
  have hnode := (covered_rollback_iff (start (resting [hello]) oneBuild) p' 0 1
    (covered_resting [hello]) _ hall hp').mp hcovered "a" hpoint
  cases hnode

/-- The build dies when it has written its points; then Neo4j cannot be read for the retries. -/
def rollingBack : List (Move Input Outside) :=
  goes 0 (writingPoints 1) ++ [.env (.die 0)] ++
    goes 1 (proceed 5 ++ List.replicate 5 { fault := some "neo4j down" } ++ proceed 8)

/-- **A point of a build that was rolled back**: the config is `failed`, its graph is empty again,
and the point of an entity is left. -/
theorem point_left_behind :
    ∃ p, run machine rollingBack (start (resting [hello]) buildAndCycle) = some p ∧
      ((resting [hello]).site 0).Covered ∧ (p.world.site 0).storedState = some .failed ∧
      ¬ (p.world.site 0).Covered := by
  obtain ⟨p, hp, hstate, hpoint, hnode⟩ :
      ∃ p ∈ run machine rollingBack (start (resting [hello]) buildAndCycle),
        (p.world.site 0).storedState = some .failed ∧
        ((p.world.site 0).points 1 "a").isSome = true ∧
        ((p.world.site 0).graph.node "a") = none := by
    decide +kernel
  refine ⟨p, hp, covered_resting _, hstate, fun hcovered => ?_⟩
  simpa [hnode] using hcovered 1 "a" hpoint

end Smap.Graph
