import Mathlib.Data.Prod.Lex
import Smap.Lib.RowVersions
import Smap.Lib.Roles
import Smap.Graph.Triples

/-!
# Builds of graphs, and their reconciliation

`GraphRagBuilder.run` (`contexts/knowledge/application/graphrag_builder.py`) with the feed of
messages it reads (`_DbDeltaLoader` in `app/workers/tasks/graphrag.py`), and
`ReconciliationLoop.run_once` (`contexts/knowledge/application/graphrag_reconciler.py`) with
the retry of phase 2 it is given (`app/workers/graphrag_reconciler.py`).

A config has a row in Postgres, a subgraph in Neo4j, points in Qdrant, and in Redis a lock,
snapshots by build and a pointer to the current build.  A statement of Postgres, a call of
another store, a call of the extractor or the embedder is one atomic step.  A call may raise,
and has no effect then.  An error of Postgres, or of a call outside of every `try`, ends a
build; `run_once` rolls back and goes on with the next config.

The lock does not expire while it is held.  A process that dies loses its lock and what it has
not committed.

Left out are embedding pins, vectors, metrics, audit and published events, and the sweep of
orphans: all configs are live, and the sweep finds none of them.  The messages of a config are
those its scope selects.
-/

namespace Smap.Graph

open Smap.Program Smap.PropertyGraph Smap.RowVersions

abbrev ConfigId := ℕ

inductive BuildState where
  | idle
  | running
  | neo4jCommitted
  | qdrantCommitted
  | failedCompensating
  | failed
  | recoveryUnavailable
  deriving DecidableEq

namespace BuildState

def value : BuildState → String
  | idle => "idle"
  | running => "running"
  | neo4jCommitted => "neo4j_committed"
  | qdrantCommitted => "qdrant_committed"
  | failedCompensating => "failed_compensating"
  | failed => "failed"
  | recoveryUnavailable => "recovery_unavailable"

/-- A build may start from it. -/
def startable (s : BuildState) : Bool :=
  decide (s = idle) || decide (s = failed) || decide (s = recoveryUnavailable)

/-- One of `_STUCK_STATES`. -/
def stuck (s : BuildState) : Bool :=
  decide (s = failedCompensating) || decide (s = neo4jCommitted) || decide (s = running)

end BuildState

/-- A row of the configurations, as far as builds use it. -/
structure ConfigRow where
  projectId : ProjectId
  builderKeyGroupId : ℕ := 0
  lastBuildState : BuildState
  lastBuildError : Option String := none
  lastBuildAt : Option Time := none
  buildStartedAt : Option Time := none
  deriving DecidableEq

/-- A row of the transcript. -/
structure Message where
  id : ℕ
  role : String
  content : String
  createdAt : Time
  sourceMemberIds : List ℕ := []
  deriving DecidableEq

/-- The order of the feed. -/
def Message.key (m : Message) : ℕ ×ₗ ℕ := toLex (m.createdAt, m.id)

/-- What a build wrote to Neo4j, and the messages it had read. -/
structure Entry where
  build : BuildId
  read : List Message
  triples : List Triple

/-- What is stored for one config. -/
structure Site where
  row : Versioned ConfigRow fun _ => false
  graph : Subgraph
  /-- The description of an entity's point, by build. -/
  points : BuildId → String → Option String
  snapshots : List (BuildId × Subgraph)
  current : Option BuildId
  lock : Option ℕ
  /-- The messages that can be seen, in the order in which they became visible. -/
  messages : List Message
  /-- The builds that have written to Neo4j. -/
  log : List Entry
  /-- The stored state when the lock was taken last. -/
  lockedIn : Option BuildState

/-- The configurations there are, and the stores of each. -/
structure World where
  configs : List ConfigId
  site : ConfigId → Site
  /-- The latest instant that has been read from the clock. -/
  clock : Time
  /-- The processes that have died. -/
  dead : List ℕ := []

/-! ## Steps -/

/-- The values of `set_state`. -/
structure StateUpdate where
  state : BuildState
  error : Option String := none
  stampBuiltAt : Bool := false
  builtAt : Option Time := none
  stampStartedAt : Bool := false

def StateUpdate.apply (u : StateUpdate) (now : Time) (r : ConfigRow) : ConfigRow :=
  { r with
    lastBuildState := u.state
    lastBuildError := u.error
    lastBuildAt := if u.builtAt.isSome then u.builtAt
      else if u.stampBuiltAt then some now else r.lastBuildAt
    buildStartedAt := if u.stampStartedAt then some now else r.buildStartedAt }

/-- Calls that may raise. -/
inductive Call where
  | snapshotSubgraph
  | put (b : BuildId) (snapshot : Subgraph)
  | setCurrent (b : BuildId)
  | get (b : BuildId)
  | delete (b : BuildId)
  | getCurrent
  | scanCurrent
  | clearCurrent
  /-- A page of the feed, after an instant and after a cursor. -/
  | readPage (since : Option Time) (cursor : Option (ℕ ×ₗ ℕ))
  | extract (messages : List Message)
  /-- `apply_triples` or `replace_triples`; the messages are kept for the log. -/
  | writeTriples (replace : Bool) (projectId : ProjectId) (b : BuildId) (triples : List Triple)
      (read : List Message)
  | listTriplesForBuild (b : BuildId)
  | embedBatch (descriptions : List String)
  | ensureCollection
  | upsertEntities (b : BuildId) (points : List (String × String))
  | deleteSupersededEntities (keep : BuildId) (entities : List String)
  | deletePointsNotInBuild (keep : BuildId)
  | deleteByBuild (b : BuildId)
  | restoreFromSnapshot (snapshot : Subgraph)

@[reducible] def Answer : Call → Type
  | .snapshotSubgraph => Subgraph
  | .get _ => Option Subgraph
  | .getCurrent | .scanCurrent => Option BuildId
  | .readPage .. => List Message
  | .extract _ => List Triple
  | .listTriplesForBuild _ => List (Link String String)
  | .put .. | .setCurrent _ | .delete _ | .clearCurrent | .writeTriples .. | .embedBatch _
  | .ensureCollection | .upsertEntities .. | .deleteSupersededEntities ..
  | .deletePointsNotInBuild _ | .deleteByBuild _ | .restoreFromSnapshot _ => Unit

/-- What a process asks of the stores. -/
inductive Op where
  | get (c : ConfigId)
  | listInState (state : BuildState)
  | now
  | uuid4
  | acquire (c : ConfigId)
  | refresh (c : ConfigId)
  | release (c : ConfigId)
  /-- `resolve_live_builder_group_project_id`. -/
  | builderGroupProject (c : ConfigId)
  | setState (c : ConfigId) (u : StateUpdate)
  | commit
  | rollback
  /-- The session is closed. -/
  | close
  | call (c : ConfigId) (k : Call)

@[reducible] def Res : Op → Type
  | .get _ => Option ConfigRow
  | .listInState _ => List (ConfigId × ConfigRow)
  | .now => Time
  | .uuid4 => BuildId
  | .acquire _ | .refresh _ => Bool
  | .builderGroupProject _ => Option ProjectId
  | .release _ | .setState .. | .commit | .rollback | .close => Unit
  | .call _ k => Except String (Answer k)

/-- What the schedule chooses at a step. -/
structure Input where
  /-- What the call raises. -/
  fault : Option String := none
  /-- How much later the clock is read. -/
  elapsed : ℕ := 0
  buildId : BuildId := 0
  groupProject : Option ProjectId := none
  triples : List Triple := []
  /-- The key that a scan finds first. -/
  scan : ℕ := 0

def batchSize : ℕ := 2000

/-- A page of `iter_windows`. -/
def page (messages : List Message) (since : Option Time) (cursor : Option (ℕ ×ₗ ℕ)) :
    List Message :=
  ((messages.filter fun m => since.all (fun t => decide (t < m.createdAt)) &&
    cursor.all fun k => decide (k < m.key)).insertionSort fun a b => a.key ≤ b.key).take batchSize

/-- A call that does not raise. -/
def callAct (input : Input) : (k : Call) → Site → Answer k × Site
  | .snapshotSubgraph, s => (s.graph, s)
  | .put b snapshot, s =>
    ((), { s with
      snapshots := s.snapshots.filter (fun p => decide (p.1 ≠ b)) ++ [(b, snapshot)] })
  | .setCurrent b, s => ((), { s with current := some b })
  | .get b, s => ((s.snapshots.find? fun p => decide (p.1 = b)).map Prod.snd, s)
  | .delete b, s => ((), { s with snapshots := s.snapshots.filter fun p => decide (p.1 ≠ b) })
  | .getCurrent, s => (s.current, s)
  | .scanCurrent, s => (s.snapshots[input.scan % s.snapshots.length]?.map Prod.fst, s)
  | .clearCurrent, s => ((), { s with current := none })
  | .readPage since cursor, s => (page s.messages since cursor, s)
  | .extract _, s => (input.triples, s)
  | .writeTriples replace projectId b triples read, s =>
    ((), { s with
      graph := (if replace then replaceTriples else applyTriples) b projectId triples s.graph
      log := s.log ++ [⟨b, read, triples⟩] })
  | .listTriplesForBuild b, s => (listTriplesForBuild b s.graph, s)
  | .embedBatch _, s | .ensureCollection, s => ((), s)
  | .upsertEntities b points, s =>
    ((), { s with
      points := fun b' entity => if b' = b
        then (points.lookup entity).or (s.points b' entity) else s.points b' entity })
  | .deleteSupersededEntities keep entities, s =>
    ((), { s with
      points := fun b entity => if b ≠ keep ∧ entity ∈ entities then none
        else s.points b entity })
  | .deletePointsNotInBuild keep, s =>
    ((), { s with points := fun b entity => if b ≠ keep then none else s.points b entity })
  | .deleteByBuild b, s => ((), { s with graph := deleteByBuild b s.graph })
  | .restoreFromSnapshot snapshot, s =>
    ((), { s with graph := restoreFromSnapshot snapshot s.graph })

namespace World

def setSite (w : World) (c : ConfigId) (s : Site) : World :=
  { w with site := Function.update w.site c s }

def commit (w : World) (i : ℕ) : World :=
  { w with site := fun c => { w.site c with row := (w.site c).row.commit i } }

def rollback (w : World) (i : ℕ) : World :=
  { w with site := fun c => { w.site c with row := (w.site c).row.rollback i } }

end World

/-- The token in the lock is the process's own. -/
def Site.releasedBy (s : Site) (i : ℕ) : Site :=
  if s.lock = some i then { s with lock := none } else s

/-- A step of process `i`. -/
def act (i : ℕ) : (o : Op) → Input → World → Option (Res o × World)
  | .get c, _, w => some ((w.site c).row.seenBy i, w)
  | .listInState state, _, w =>
    some (w.configs.filterMap fun c => ((w.site c).row.seenBy i).bind fun r =>
      if r.lastBuildState = state then some (c, r) else none, w)
  | .now, input, w => some (w.clock + input.elapsed, { w with clock := w.clock + input.elapsed })
  | .uuid4, input, w => some (input.buildId, w)
  | .acquire c, _, w =>
    let s := w.site c
    if s.lock.isSome then some (false, w)
    else
      some (true, w.setSite c { s with
        lock := some i
        lockedIn := s.row.committed.map ConfigRow.lastBuildState })
  | .refresh c, _, w => some (decide ((w.site c).lock = some i), w)
  | .release c, _, w => some ((), w.setSite c ((w.site c).releasedBy i))
  | .builderGroupProject _, input, w => some (input.groupProject, w)
  | .setState c u, input, w =>
    let s := w.site c
    let now := w.clock + input.elapsed
    match s.row.update i (fun _ => true) (u.apply now) fun _ _ => rfl with
    | none => none
    | some (_, row) => some ((), { w.setSite c { s with row := row } with clock := now })
  | .commit, _, w => some ((), w.commit i)
  | .rollback, _, w | .close, _, w => some ((), w.rollback i)
  | .call c k, input, w =>
    match input.fault with
    | some e => some (.error e, w)
    | none =>
      let r := callAct input k (w.site c)
      some (.ok r.1, w.setSite c r.2)

/-! ## The feed -/

def windowTokenBudget : ℕ := 24000

def windowMsgCap : ℕ := 500

/-- `_estimate_tokens`. -/
def estimateTokens (text : String) : ℕ := max 1 (text.length / 4)

/-- Why the feed of a build stops. -/
inductive Stop where
  | raised (error : String)
  /-- The job runs into its timeout, which no handler of the build catches. -/
  | timedOut

/-- How far the feed has come: the window that is being filled, what has been read in the
windows before it, and the triples they gave. -/
structure Loading where
  window : List Message := []
  windowTokens : ℕ := 0
  read : List Message := []
  triples : List Triple := []

abbrev Process := Prog Op Res

def perform (o : Op) : Process (Res o) := Prog.perform o

/-- A call that the program may catch. -/
def tryCall (c : ConfigId) (k : Call) : ExceptT String Process (Answer k) :=
  ExceptT.mk (perform (.call c k))

def refresh (c : ConfigId) : Process Bool := perform (.refresh c)

/-- A window is extracted, and the lock refreshed. -/
def flushWindow (c : ConfigId) (st : Loading) : ExceptT String Process Loading := do
  let triples ← tryCall c (.extract st.window)
  if !(← ExceptT.lift (refresh c)) then throw s!"lock lost during phase-1 for {c}"
  return { read := st.read ++ st.window, triples := st.triples ++ triples }

/-- A row of a page. -/
def loadRow (c : ConfigId) (st : Loading) (m : Message) : ExceptT String Process Loading := do
  let tokens := estimateTokens m.content
  let st ← if st.window ≠ [] ∧
      (windowMsgCap ≤ st.window.length ∨ windowTokenBudget < st.windowTokens + tokens)
    then flushWindow c st else pure st
  return { st with window := st.window ++ [m], windowTokens := st.windowTokens + tokens }

def loadRows (c : ConfigId) : Loading → List Message → ExceptT String Process Loading
  | st, [] => pure st
  | st, m :: ms => do loadRows c (← loadRow c st m) ms

/-- `iter_windows` and the loop over its windows, with the number of pages that the job's
timeout leaves time for. -/
def loadPages (c : ConfigId) (since : Option Time) :
    ℕ → Option (ℕ ×ₗ ℕ) → Loading → ExceptT Stop Process Loading
  | 0, _, _ => throw .timedOut
  | n + 1, cursor, st => do
    let rows ← (tryCall c (.readPage since cursor)).adapt .raised
    let st ← (loadRows c st rows).adapt .raised
    if rows.length < batchSize then
      if st.window = [] then return st else (flushWindow c st).adapt .raised
    else loadPages c since n (rows.getLast?.map Message.key) st

/-- The instants of the messages by their ids. -/
def msgCreatedAt (read : List Message) (ref : String) : Option Time :=
  (read.reverse.find? fun m => decide (toString m.id = ref)).map Message.createdAt

/-- The members the messages are attributed to, by their ids. -/
def msgMembers (read : List Message) (ref : String) : List String :=
  ((read.reverse.find? fun m => decide (toString m.id = ref)).map fun m =>
    m.sourceMemberIds.map toString).getD []

/-- The triples of a build with their provenance. -/
def attachProvenance (read : List Message) (triples : List Triple) : List Triple :=
  let triples := if read = [] then triples
    else triples.map fun t => attachTemporalProvenance t (msgCreatedAt read)
  if read.all (fun m => m.sourceMemberIds.isEmpty) then triples
  else triples.map fun t => attachMemberProvenance t (msgMembers read)

/-! ## Builds -/

/-- What a build is asked for. -/
structure Job where
  config : ConfigId
  /-- `mode == "full"`. -/
  full : Bool := false
  replace : Bool := false
  /-- How many pages of the feed there is time for. -/
  pages : ℕ

/-- How a build fails. -/
inductive BuildError where
  | buildFailed (message : String)
  | buildBusy (message : String)
  | builderKeyGroupProjectMismatch (message : String)
  /-- What a call raises outside of every `try`. -/
  | raised (message : String)
  | timedOut

structure BuildResult where
  buildId : BuildId
  state : BuildState
  triplesWritten : ℕ
  entitiesWritten : ℕ
  error : Option String

def setState (c : ConfigId) (u : StateUpdate) : Process Unit := perform (.setState c u)

def commit : Process Unit := perform .commit

/-- A call that nothing catches. -/
def call (c : ConfigId) (k : Call) : ExceptT BuildError Process (Answer k) :=
  (tryCall c k).adapt .raised

/-- `_fail_preflight`. -/
def failPreflight (c : ConfigId) (error : String) : Process Unit := do
  setState c { state := .failed, error := some error }
  commit

/-- `_fail_phase1`. -/
def failPhase1 (c : ConfigId) (b : BuildId) (error : String) :
    ExceptT BuildError Process Unit := do
  ExceptT.lift (setState c { state := .failed, error := some error })
  call c (.delete b)
  call c .clearCurrent
  ExceptT.lift commit

/-- The snapshot of the prior subgraph, and the pointer. -/
def takeSnapshot (c : ConfigId) (b : BuildId) : ExceptT String Process Unit := do
  let prior ← tryCall c .snapshotSubgraph
  tryCall c (.put b prior)
  tryCall c (.setCurrent b)

/-- Phase 1: extract triples and upsert Neo4j. -/
def phase1 (j : Job) (cfg : ConfigRow) (b : BuildId) : ExceptT Stop Process (List Triple) := do
  let st ← loadPages j.config (if j.full then none else cfg.lastBuildAt) j.pages none {}
  let triples := attachProvenance st.read st.triples
  (tryCall j.config (.writeTriples j.replace cfg.projectId b triples st.read)).adapt .raised
  return triples

/-- Phase 2: embed and upsert Qdrant; the entities that were embedded. -/
def phase2 (c : ConfigId) (b : BuildId) (triples : List Triple) :
    ExceptT String Process (List String) := do
  let pairs := buildEntityDescriptions (triples.map Triple.link)
  if pairs = [] then return []
  tryCall c (.embedBatch (pairs.map Prod.snd))
  if !(← ExceptT.lift (refresh c)) then throw s!"lock lost before qdrant upsert for {c}"
  tryCall c .ensureCollection
  tryCall c (.upsertEntities b pairs)
  return pairs.map Prod.fst

/-- Points that the build supersedes; what goes wrong here is only logged. -/
def sweepPoints (j : Job) (b : BuildId) (embedded : List String) : Process Unit := do
  if j.replace then
    let _ ← (tryCall j.config (.deletePointsNotInBuild b)).run
  else if embedded ≠ [] then
    let _ ← (tryCall j.config (.deleteSupersededEntities b embedded)).run

/-- The end of a build both phases of which are through. -/
def finishBuild (j : Job) (b : BuildId) (startedAt : Time) (triples : List Triple)
    (embedded : List String) : ExceptT BuildError Process BuildResult := do
  ExceptT.lift (setState j.config { state := .qdrantCommitted })
  ExceptT.lift (sweepPoints j b embedded)
  ExceptT.lift (setState j.config { state := .idle, builtAt := some startedAt })
  ExceptT.lift commit
  call j.config (.delete b)
  call j.config .clearCurrent
  return ⟨b, .idle, triples.length, embedded.length, none⟩

/-- `_run_locked` from phase 2 on. -/
def runPhase2 (j : Job) (b : BuildId) (startedAt : Time) (triples : List Triple) :
    ExceptT BuildError Process BuildResult := do
  ExceptT.lift (setState j.config { state := .neo4jCommitted })
  ExceptT.lift commit
  match ← ExceptT.lift (phase2 j.config b triples).run with
  | .error e =>
    ExceptT.lift (setState j.config
      { state := .failedCompensating, error := some ("phase2: " ++ e) })
    ExceptT.lift commit
    return ⟨b, .failedCompensating, triples.length, 0, some e⟩
  | .ok embedded => finishBuild j b startedAt triples embedded

/-- `_run_locked` once the build has been started. -/
def runStarted (j : Job) (cfg : ConfigRow) (b : BuildId) (startedAt : Time) :
    ExceptT BuildError Process BuildResult := do
  match ← ExceptT.lift (takeSnapshot j.config b).run with
  | .error e =>
    failPhase1 j.config b ("snapshot: " ++ e)
    return ⟨b, .failed, 0, 0, some e⟩
  | .ok () =>
    match ← ExceptT.lift (phase1 j cfg b).run with
    | .error .timedOut => throw .timedOut
    | .error (.raised e) =>
      failPhase1 j.config b e
      return ⟨b, .failed, 0, 0, some e⟩
    | .ok triples => runPhase2 j b startedAt triples

/-- `_run_locked`. -/
def runLocked (j : Job) (cfg : ConfigRow) (b : BuildId) (startedAt : Time) :
    ExceptT BuildError Process BuildResult := do
  if !cfg.lastBuildState.startable then
    throw (.buildBusy (s!"config {j.config} in non-resumable state " ++ cfg.lastBuildState.value))
  if (← ExceptT.lift (perform (.builderGroupProject j.config))) ≠ some cfg.projectId then
    let error := "builder_key_group_id " ++ toString cfg.builderKeyGroupId ++
      " does not belong to project " ++ toString cfg.projectId
    ExceptT.lift (failPreflight j.config error)
    throw (.builderKeyGroupProjectMismatch error)
  ExceptT.lift (setState j.config { state := .running, stampStartedAt := true })
  ExceptT.lift commit
  runStarted j cfg b startedAt

/-- `run`. -/
def GraphRagBuilder.run (j : Job) : ExceptT BuildError Process BuildResult := do
  match ← ExceptT.lift (perform (.get j.config)) with
  | none => throw (.buildFailed s!"config {j.config} missing")
  | some cfg =>
    let startedAt ← ExceptT.lift (perform .now)
    if !(← ExceptT.lift (perform (.acquire j.config))) then
      throw (.buildBusy (toString j.config))
    let b ← ExceptT.lift (perform .uuid4)
    let result ← ExceptT.lift (runLocked j cfg b startedAt).run
    ExceptT.lift (perform (.release j.config))
    ExceptT.mk (pure result)

/-- `_run_build`, which commits what is left and closes the session. -/
def build (j : Job) : Process Unit := do
  match ← (GraphRagBuilder.run j).run with
  | .ok _ => commit
  | .error _ => pure ()
  perform .close

/-! ## Reconciliation -/

/-- `_make_phase2_retry`. -/
def phase2Retry (c : ConfigId) (b : BuildId) : ExceptT String Process Unit := do
  let rows ← tryCall c (.listTriplesForBuild b)
  if rows = [] then return ()
  let pairs := buildEntityDescriptions rows
  tryCall c (.embedBatch (pairs.map Prod.snd))
  tryCall c .ensureCollection
  tryCall c (.upsertEntities b pairs)

/-- `_finalize_failed`. -/
def finalizeFailed (c : ConfigId) (b : Option BuildId) (error : String) (state : BuildState) :
    ExceptT String Process Unit := do
  ExceptT.lift (setState c { state := state, error := some error })
  match b with
  | some b => tryCall c (.delete b)
  | none => pure ()
  tryCall c .clearCurrent

/-- Drop what the build has written and merge the snapshot in. -/
def compensate (c : ConfigId) (b : BuildId) (snapshot : Subgraph) :
    ExceptT String Process Unit := do
  tryCall c (.deleteByBuild b)
  tryCall c (.restoreFromSnapshot snapshot)

/-- `_rollback`. -/
def rollbackBuild (c : ConfigId) (cfg : ConfigRow) (b : BuildId) :
    ExceptT String Process Unit := do
  match ← tryCall c (.get b) with
  | none =>
    finalizeFailed c (some b) "no snapshot available for compensation" .recoveryUnavailable
  | some snapshot =>
    match ← ExceptT.lift (compensate c b snapshot).run with
    | .error _ =>
      ExceptT.lift (setState c
        { state := cfg.lastBuildState, error := some "compensation failed; will retry" })
    | .ok () => finalizeFailed c (some b) "phase2 retries exhausted; rolled back" .failed

/-- One retry of phase 2, with the sweep that belongs to a replacement. -/
def retry (replaceOnRecovery : Bool) (c : ConfigId) (b : BuildId) :
    ExceptT String Process Unit := do
  phase2Retry c b
  if replaceOnRecovery then tryCall c (.deletePointsNotInBuild b)

/-- The retries of phase 2, and whether one of them went through. -/
def retries (replaceOnRecovery : Bool) (c : ConfigId) (b : BuildId) : ℕ → Process Bool
  | 0 => return false
  | n + 1 => do
    match ← (retry replaceOnRecovery c b).run with
    | .ok () => return true
    | .error _ => retries replaceOnRecovery c b n

/-- The length of `RETRY_BACKOFF_S`. -/
def maxRetries : ℕ := 5

/-- `_resolve_build_id`. -/
def resolveBuildId (c : ConfigId) : ExceptT String Process (Option BuildId) := do
  match ← tryCall c .getCurrent with
  | some b => return some b
  | none => tryCall c .scanCurrent

/-- The end of a recovery. -/
def finishRecovery (c : ConfigId) (b : BuildId) : ExceptT String Process Unit := do
  ExceptT.lift (setState c { state := .qdrantCommitted })
  ExceptT.lift (setState c { state := .idle, stampBuiltAt := true })
  tryCall c (.delete b)
  tryCall c .clearCurrent

/-- `_reconcile_one`. -/
def reconcileOne (replaceOnRecovery : Bool) (c : ConfigId) (cfg : ConfigRow) :
    ExceptT String Process Unit := do
  match ← resolveBuildId c with
  | none => finalizeFailed c none "no snapshot available for compensation" .recoveryUnavailable
  | some b =>
    if cfg.lastBuildState = .running then rollbackBuild c cfg b
    else if ← ExceptT.lift (retries replaceOnRecovery c b maxRetries) then finishRecovery c b
    else rollbackBuild c cfg b

/-- One entry of the list of `run_once`. -/
def reconcileEntry (replaceOnRecovery : Bool) (c : ConfigId) (cfg : ConfigRow) :
    Process Unit := do
  if ← perform (.acquire c) then
    match ← (reconcileOne replaceOnRecovery c cfg).run with
    | .ok () => commit
    | .error _ => perform .rollback
    perform (.release c)

def reconcileEntries (replaceOnRecovery : Bool) : List (ConfigId × ConfigRow) → Process Unit
  | [] => pure ()
  | (c, cfg) :: es => do
    reconcileEntry replaceOnRecovery c cfg
    reconcileEntries replaceOnRecovery es

/-- `run_once`. -/
def reconcile (replaceOnRecovery : Bool) : Process Unit := do
  let compensating ← perform (.listInState .failedCompensating)
  let committed ← perform (.listInState .neo4jCommitted)
  let running ← perform (.listInState .running)
  reconcileEntries replaceOnRecovery (compensating ++ committed ++ running)
  perform .close

/-! ## Any number of processes -/

/-- Moves from outside. -/
inductive Outside where
  | die (i : ℕ)
  | post (c : ConfigId) (m : Message)

/-- What is left when a process is gone. -/
def World.without (w : World) (i : ℕ) : World :=
  { w with
    site := fun c =>
      { (w.site c).releasedBy i with row := (w.site c).row.rollback i } }

/-- Messages become visible in the order of their instants. -/
def World.post (w : World) (c : ConfigId) (m : Message) : Option World :=
  let s := w.site c
  if s.messages.all (fun m' => decide (m'.createdAt ≤ m.createdAt) && decide (m'.id ≠ m.id)) then
    some (w.setSite c { s with messages := s.messages ++ [m] })
  else none

end Smap.Graph
