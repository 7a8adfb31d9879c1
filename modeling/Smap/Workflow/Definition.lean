import Mathlib.Data.Rat.Defs
import Mathlib.Data.List.Dedup

/-!
# Workflow definitions

The document an author saves in `workflows.definition`, and the views the engine
parses out of it (`contexts/workflow/domain/models.py` and the parsing helpers of
`run_engine.py`).  The top level has the shape the JSON schema fixes; a node's
`config` stays the raw JSON object, because the linter and the executors each read
it with their own keys and defaults.
-/

namespace Smap.Workflow

/-- A JSON value.  Numbers without a fraction are Python integers, the others
floats; only their exact value matters here. -/
inductive Json where
  | null
  | bool (b : Bool)
  | int (n : ℤ)
  | float (q : ℚ)
  | str (s : String)
  | arr (items : List Json)
  | obj (fields : List (String × Json))
  deriving Inhabited

/-- Python truth of a JSON value. -/
def Json.truthy : Json → Bool
  | .null => false
  | .bool b => b
  | .int n => n != 0
  | .float q => q != 0
  | .str s => s != ""
  | .arr items => !items.isEmpty
  | .obj fields => !fields.isEmpty

/-- A JSON object.  Keys are looked up from the left. -/
abbrev JsonObject := List (String × Json)

namespace JsonObject

/-- `obj.get(key)`: the value under a key, if it is there. -/
def get? (o : JsonObject) (key : String) : Option Json := o.lookup key

/-- `obj.get(key)` where the caller wants a string. -/
def getStr? (o : JsonObject) (key : String) : Option String :=
  match o.get? key with
  | some (.str s) => some s
  | _ => none

/-- `obj.get(key, [])` where the caller iterates over objects. -/
def getObjects (o : JsonObject) (key : String) : List JsonObject :=
  match o.get? key with
  | some (.arr items) => items.filterMap fun
      | .obj fields => some fields
      | _ => none
  | _ => []

/-- `obj.get(key, [])` where the caller iterates over strings. -/
def getStrings (o : JsonObject) (key : String) : List String :=
  match o.get? key with
  | some (.arr items) => items.filterMap fun
      | .str s => some s
      | _ => none
  | _ => []

/-- `int(obj.get(key, default))`.  The schema admits only numbers under the keys
read this way, so the text forms of `int` are left out. -/
def getInt (o : JsonObject) (key : String) (default : ℤ) : ℤ :=
  match o.get? key with
  | some (.int n) => n
  | some (.float q) => if 0 ≤ q then q.floor else -(-q).floor
  | some (.bool b) => if b then 1 else 0
  | _ => default

/-- `obj.get(key, default)` used as a condition on a JSON boolean. -/
def getBool (o : JsonObject) (key : String) (default : Bool) : Bool :=
  match o.get? key with
  | some (.bool b) => b
  | _ => default

end JsonObject

/-! ## Enumerations -/

inductive NodeType where
  | trigger
  | agentInvocation
  | approvalGate
  | condition
  | instruct
  | subagentSpawn
  | waitForEvent
  | parallel
  | join
  | setVariable
  | «end»
  deriving DecidableEq, Repr

inductive JoinMode where
  | all
  | any
  | count
  deriving DecidableEq, Repr

inductive OnErrorStrategy where
  | fail
  | continue
  | retry
  | fallback
  deriving DecidableEq, Repr

/-- The wire names of the node types. -/
def NodeType.value : NodeType → String
  | .trigger => "trigger"
  | .agentInvocation => "agent_invocation"
  | .approvalGate => "approval_gate"
  | .condition => "condition"
  | .instruct => "instruct"
  | .subagentSpawn => "subagent_spawn"
  | .waitForEvent => "wait_for_event"
  | .parallel => "parallel"
  | .join => "join"
  | .setVariable => "set_variable"
  | .end => "end"

def JoinMode.value : JoinMode → String
  | .all => "all"
  | .any => "any"
  | .count => "count"

/-- `JoinMode(text)`; `none` where Python raises `ValueError`. -/
def JoinMode.ofValue? : String → Option JoinMode
  | "all" => some .all
  | "any" => some .any
  | "count" => some .count
  | _ => none

/-- `OnErrorStrategy(text)`; `none` where Python raises `ValueError`. -/
def OnErrorStrategy.ofValue? : String → Option OnErrorStrategy
  | "fail" => some .fail
  | "continue" => some .continue
  | "retry" => some .retry
  | "fallback" => some .fallback
  | _ => none

/-! ## The stored document -/

structure NodeDef where
  id : String
  type : NodeType
  /-- The raw `config` object, empty when the key is absent. -/
  config : JsonObject := []

structure EdgeDef where
  id : String
  fromNode : String
  toNode : String
  fromPort : Option String := none
  guard : Option String := none
  deriving DecidableEq, Repr, Inhabited

/-- The port an edge leaves from, with the default every reader applies. -/
def EdgeDef.port (e : EdgeDef) : String := e.fromPort.getD "default"

structure Definition where
  entryNodeId : String
  nodes : List NodeDef
  edges : List EdgeDef
  /-- Declared variables with their definition objects (`type`, `default`, …). -/
  vars : List (String × JsonObject) := []
  /-- The `loop_guard` object, empty when the key is absent. -/
  loopGuard : JsonObject := []

namespace Definition

/-- `{n["id"]: n for n in nodes}` read at one key: the last node of that id. -/
def nodesById (d : Definition) (id : String) : Option NodeDef :=
  d.nodes.reverse.find? fun n => n.id == id

/-- The edges leaving a node, in document order (`_build_outgoing`). -/
def outgoing (d : Definition) (id : String) : List EdgeDef :=
  d.edges.filter fun e => e.fromNode == id

/-- The edges entering a node, in document order. -/
def incoming (d : Definition) (id : String) : List EdgeDef :=
  d.edges.filter fun e => e.toNode == id

/-- `RunContext.max_visits_per_node`: the loop guard, clamped to `1..1000`. -/
def maxVisitsPerNode (d : Definition) : ℕ :=
  (max 1 (min (d.loopGuard.getInt "max_visits_per_node" 200) 1000)).toNat

variable {d : Definition} {id : String} {e : EdgeDef} {n : NodeDef}

@[simp] theorem mem_incoming : e ∈ d.incoming id ↔ e ∈ d.edges ∧ e.toNode = id := by
  simp [incoming]

@[simp] theorem mem_outgoing : e ∈ d.outgoing id ↔ e ∈ d.edges ∧ e.fromNode = id := by
  simp [outgoing]

/-- A node found by its id carries that id. -/
theorem id_of_nodesById (h : d.nodesById id = some n) : n.id = id := by
  simpa using List.find?_some h

theorem mem_of_nodesById (h : d.nodesById id = some n) : n ∈ d.nodes :=
  List.mem_reverse.mp (List.mem_of_find?_eq_some h)

end Definition

/-! ## Parsed views -/

structure OnErrorConfig where
  strategy : OnErrorStrategy := .fail
  retryMax : ℤ := 0
  retryBackoffMs : ℤ := 500
  fallbackNodeId : Option String := none
  deriving DecidableEq, Repr

/-- Parsed view of one node of the definition. -/
structure NodeSpec where
  id : String
  type : NodeType
  config : JsonObject
  onError : OnErrorConfig

/-- `config.get("on_error") or {}`. -/
def NodeDef.onErrorRaw (n : NodeDef) : JsonObject :=
  match n.config.get? "on_error" with
  | some (.obj fields) => fields
  | _ => []

/-- `_parse_node`: split the `on_error` block off the node's config.  A strategy
name outside the enumeration, which the schema rejects, reads as the default. -/
def parseNode (raw : NodeDef) : NodeSpec where
  id := raw.id
  type := raw.type
  config := raw.config.filter fun kv => kv.1 != "on_error"
  onError :=
    { strategy := ((raw.onErrorRaw.getStr? "strategy").bind OnErrorStrategy.ofValue?).getD .fail
      retryMax := raw.onErrorRaw.getInt "retry_max" 0
      retryBackoffMs := raw.onErrorRaw.getInt "retry_backoff_ms" 500
      fallbackNodeId := raw.onErrorRaw.getStr? "fallback_node_id" }

end Smap.Workflow
