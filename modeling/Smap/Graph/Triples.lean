import Mathlib.Data.List.Sort
import Mathlib.Data.Rat.Init
import Smap.Lib.PropertyGraph

/-!
# Triples in Neo4j

The subgraph of one config, and what `Neo4jAsyncDriver`
(`contexts/knowledge/infrastructure/neo4j_driver.py`) does to it: `apply_triples`,
`replace_triples`, `snapshot_subgraph`, `delete_by_build`, `restore_from_snapshot` and
`list_triples_for_build`.  Each is one transaction.  Beside it the pure parts of
`graphrag_builder.py`: the provenance of triples, and the descriptions that are embedded.

Every property may be missing in a graph that older versions have written.
-/

namespace Smap.Graph

open Smap.PropertyGraph

abbrev Time := ℕ

abbrev BuildId := ℕ

abbrev ProjectId := ℕ

/-- A node of the label `Entity`. -/
structure Node where
  buildId : Option BuildId
  type : Option String
  projectId : Option ProjectId
  deriving DecidableEq

/-- A relationship of the type `REL`; `evidenceMsgIds` is the key older versions wrote. -/
structure Rel where
  buildId : Option BuildId
  confidence : Option ℚ
  evidenceRefs : Option (List String)
  evidenceMsgIds : Option (List String)
  sourceMemberIds : Option (List String)
  firstSeenAt : Option Time
  lastSeenAt : Option Time
  deriving DecidableEq

/-- The subgraph of a config. -/
abbrev Subgraph := Graph String String Node Rel

/-- What the extractor returns. -/
structure Triple where
  subject : String
  relation : String
  object : String
  confidence : ℚ
  evidenceRefs : List String := []
  subjectType : String := ""
  objectType : String := ""
  sourceMemberIds : List String := []
  firstSeenAt : Option Time := none
  lastSeenAt : Option Time := none
  deriving DecidableEq

def Triple.link (t : Triple) : Link String String := ⟨t.subject, t.relation, t.object⟩

/-! ## Provenance -/

/-- `attach_temporal_provenance`, with the instants of the build's messages by their ids. -/
def attachTemporalProvenance (t : Triple) (msgCreatedAt : String → Option Time) : Triple :=
  match t.evidenceRefs.filterMap msgCreatedAt with
  | [] => t
  | stamp :: stamps =>
    { t with
      firstSeenAt := some (stamps.foldl min stamp)
      lastSeenAt := some (stamps.foldl max stamp) }

/-- `attach_member_provenance`, with the members the build's messages are attributed to. -/
def attachMemberProvenance (t : Triple) (msgMembers : String → List String) : Triple :=
  match (t.evidenceRefs.flatMap msgMembers).dedup.insertionSort (· ≤ ·) with
  | [] => t
  | members => { t with sourceMemberIds := members }

/-! ## Upserts -/

/-- The type of a node: nothing and the catch-all never replace a type. -/
def mergeType (new : String) (stored : Option String) : String :=
  if new = "" then stored.getD ""
  else if new = "other" ∧ stored.getD "" ≠ "" then stored.getD ""
  else new

/-- `MERGE (n:Entity …) ON CREATE SET n.build_id = $bid SET …`. -/
def mergeEntity (b : BuildId) (pid : ProjectId) (type : String) (stored : Option Node) : Node where
  buildId := match stored with
    | none => some b
    | some n => n.buildId
  type := some (mergeType type (stored.bind Node.type))
  projectId := some pid

/-- The elements of the one list, then those of the other that it lacks. -/
def union (stored new : List String) : List String :=
  stored ++ new.filter fun x => decide (x ∉ stored)

/-- The better of two instants, where a missing one never replaces another. -/
def mergeStamp (better : Time → Time → Bool) (stored new : Option Time) : Option Time :=
  match stored, new with
  | none, new => new
  | some s, none => some s
  | some s, some n => if better n s then some n else some s

/-- `MERGE (s)-[r:REL …]->(o) SET …`.  With `replace`, a relation that is touched for the first
time in a build forgets its evidence and its members. -/
def mergeRelation (replace : Bool) (b : BuildId) (t : Triple) (stored : Option Rel) : Rel :=
  let fresh := replace && decide (stored.bind Rel.buildId ≠ some b)
  let evidence := ((stored.bind Rel.evidenceRefs).or (stored.bind Rel.evidenceMsgIds)).getD []
  let members := (stored.bind Rel.sourceMemberIds).getD []
  { buildId := some b
    confidence := match stored.bind Rel.confidence with
      | none => some t.confidence
      | some c => some (if c < t.confidence then t.confidence else c)
    evidenceRefs := some (if fresh then t.evidenceRefs else union evidence t.evidenceRefs)
    evidenceMsgIds := none
    sourceMemberIds := some (if fresh then t.sourceMemberIds else union members t.sourceMemberIds)
    firstSeenAt := mergeStamp (fun n s => decide (n < s)) (stored.bind Rel.firstSeenAt)
      t.firstSeenAt
    lastSeenAt := mergeStamp (fun n s => decide (s < n)) (stored.bind Rel.lastSeenAt) t.lastSeenAt }

/-- One row of the `UNWIND`. -/
def upsert (replace : Bool) (b : BuildId) (pid : ProjectId) (g : Subgraph) (t : Triple) :
    Subgraph :=
  g.mergeLink t.link (mergeEntity b pid t.subjectType) (mergeEntity b pid t.objectType)
    (mergeRelation replace b t)

/-- `apply_triples`. -/
def applyTriples (b : BuildId) (pid : ProjectId) (triples : List Triple) (g : Subgraph) :
    Subgraph :=
  triples.foldl (upsert false b pid) g

/-- `replace_triples`: what the build did not touch is pruned. -/
def replaceTriples (b : BuildId) (pid : ProjectId) (triples : List Triple) (g : Subgraph) :
    Subgraph :=
  ((triples.foldl (upsert true b pid) g).dropEdges
    fun r => decide (r.buildId ≠ some b)).dropIsolated
    fun _ => true

/-! ## Compensation -/

def Node.ofBuild (b : BuildId) (n : Node) : Bool := decide (n.buildId = some b)

def Rel.ofBuild (b : BuildId) (r : Rel) : Bool := decide (r.buildId = some b)

/-- `delete_by_build`. -/
def deleteByBuild (b : BuildId) (g : Subgraph) : Subgraph :=
  (g.dropEdges (Rel.ofBuild b)).dropIsolated (Node.ofBuild b)

/-- A node of the snapshot is merged in. -/
def restoreNode (row : Node) (stored : Option Node) : Node where
  buildId := row.buildId
  type := some (row.type.getD "")
  projectId := row.projectId.or (stored.bind Node.projectId)

/-- An edge of the snapshot is merged in; the snapshot has not read the older key. -/
def restoreRel (row : Rel) (_stored : Option Rel) : Rel :=
  { row with
    evidenceMsgIds := none
    sourceMemberIds := some (row.sourceMemberIds.getD []) }

/-- `restore_from_snapshot`. -/
def restoreFromSnapshot (snapshot : Subgraph) (g : Subgraph) : Subgraph :=
  g.restore snapshot restoreNode restoreRel

/-- `list_triples_for_build`. -/
def listTriplesForBuild (b : BuildId) (g : Subgraph) : List (Link String String) :=
  g.linksWith (Rel.ofBuild b)

/-! ## Descriptions -/

def maxDescFragments : ℕ := 40

/-- `entities.setdefault(name, []).append(fragment)`. -/
def addFragment (fragment name : String) :
    List (String × List String) → List (String × List String)
  | [] => [(name, [fragment])]
  | (n, frags) :: es =>
    if n = name then (n, frags ++ [fragment]) :: es
    else (n, frags) :: addFragment fragment name es

/-- Both ends of a link get its fragment. -/
def addLink (es : List (String × List String)) (k : Link String String) :
    List (String × List String) :=
  let fragment := k.subject ++ " " ++ k.relation ++ " " ++ k.object
  addFragment fragment k.object (addFragment fragment k.subject es)

/-- `build_entity_descriptions`. -/
def buildEntityDescriptions (links : List (Link String String)) : List (String × String) :=
  ((links.foldl addLink []).insertionSort fun a b => a.1 ≤ b.1).map fun e =>
    (e.1, " | ".intercalate (e.2.take maxDescFragments))

end Smap.Graph
