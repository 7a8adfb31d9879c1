import Smap.Workflow.Definition

/-!
# The JSON schema of workflow definitions

`docs/workflow.schema.json` as an executable check on the parts of a document the
engine and the linter read.  Every `$defs` entry of the schema that constrains a
node's `config` is one definition here, under the schema's own name.  The formats
(`uuid`) are annotations for the validator in use, so they constrain nothing.

The `if`/`then` blocks keep the validator's reading: an `if` that only constrains a
property is satisfied when the property is absent.
-/

namespace Smap.Workflow.Schema

/-! ## Keywords -/

/-- Python's `\s` on text. -/
def isSpace (c : Char) : Bool :=
  let n := c.toNat
  (9 ≤ n && n ≤ 13) || (28 ≤ n && n ≤ 32) || n == 0x85 || n == 0xA0 || n == 0x1680 ||
    (0x2000 ≤ n && n ≤ 0x200A) || n == 0x2028 || n == 0x2029 || n == 0x202F ||
    n == 0x205F || n == 0x3000

/-- `$` also matches before one trailing line feed. -/
def dropFinalNewline (cs : List Char) : List Char :=
  if cs.getLast? = some '\n' then cs.dropLast else cs

def isLetter (c : Char) : Bool := ('a' ≤ c && c ≤ 'z') || ('A' ≤ c && c ≤ 'Z')

def isDigit (c : Char) : Bool := '0' ≤ c && c ≤ '9'

/-- A name that starts with a character of one class and goes on with another. -/
def isName (first rest : Char → Bool) (maxLength : Option ℕ) (s : String) : Bool :=
  match dropFinalNewline s.toList with
  | [] => false
  | c :: cs => first c && cs.all rest && maxLength.all fun m => decide (cs.length + 1 ≤ m)

/-- `^[a-zA-Z][a-zA-Z0-9_-]{0,63}$`. -/
def nodeId : String → Bool :=
  isName isLetter (fun c => isLetter c || isDigit c || c == '_' || c == '-') (some 64)

/-- `^[a-zA-Z][a-zA-Z0-9_]{0,31}$`. -/
def portName : String → Bool :=
  isName isLetter (fun c => isLetter c || isDigit c || c == '_') (some 32)

/-- `^[a-zA-Z_][a-zA-Z0-9_]*$`. -/
def variableName : String → Bool :=
  isName (fun c => isLetter c || c == '_') (fun c => isLetter c || isDigit c || c == '_') none

/-- `^([^\s]+\s+){4,5}[^\s]+$`: five or six blank-separated fields. -/
def cronExpression (s : String) : Bool :=
  let cs := dropFinalNewline s.toList
  let fields := (cs.splitOnP isSpace).filter fun f => !f.isEmpty
  (cs.head?.all fun c => !isSpace c) && (cs.getLast?.all fun c => !isSpace c) &&
    (fields.length == 5 || fields.length == 6)

abbrev Check := Json → Bool

def string (ok : String → Bool := fun _ => true) : Check
  | .str s => ok s
  | _ => false

def shortString (maxLength : ℕ) : Check := string fun s => decide (s.length ≤ maxLength)

def enum (names : List String) : Check := string fun s => names.contains s

def boolean : Check
  | .bool _ => true
  | _ => false

/-- `"type": "integer"` with bounds; a float without a fraction is an integer. -/
def integer (lo hi : ℤ) : Check
  | .int n => decide (lo ≤ n ∧ n ≤ hi)
  | .float q => decide (q.den = 1 ∧ lo ≤ q.num ∧ q.num ≤ hi)
  | _ => false

def array (items : Check) (minItems : ℕ := 0) (maxItems : Option ℕ := none) : Check
  | .arr xs => xs.all items && decide (minItems ≤ xs.length) &&
      maxItems.all fun m => decide (xs.length ≤ m)
  | _ => false

/-- An object: each listed property passes its check, the required ones are there,
and when `closed` no other property is. -/
def object (properties : List (String × Check)) (required : List String) (closed : Bool)
    (o : JsonObject) : Bool :=
  (o.all fun kv => match properties.lookup kv.1 with
    | some check => check kv.2
    | none => !closed) &&
  required.all fun key => (o.get? key).isSome

def asObject (check : JsonObject → Bool) : Check
  | .obj o => check o
  | _ => false

/-- `"if": {"properties": {key: {"const": value}}, "required": [key]}`. -/
def ifIs (o : JsonObject) (key value : String) : Bool := o.getStr? key == some value

/-- `"if": {"properties": {key: {"const": value}}}`, true when the key is absent. -/
def ifConst (o : JsonObject) (key value : String) : Bool :=
  match o.get? key with
  | none => true
  | some (.str s) => s == value
  | some _ => false

/-! ## `$defs` -/

def expression : Check := shortString 1000

def templateString : Check := shortString 20000

def onError : Check := asObject fun o =>
  object [("strategy", enum ["fail", "continue", "retry", "fallback"]),
    ("retry_max", integer 0 10), ("retry_backoff_ms", integer 0 60000),
    ("fallback_node_id", string nodeId)] [] true o &&
  (!ifConst o "strategy" "retry" || (o.get? "retry_max").isSome) &&
  (!ifConst o "strategy" "fallback" || (o.get? "fallback_node_id").isSome)

def triggerConfig (o : JsonObject) : Bool :=
  object [("trigger_type", enum ["manual", "cron", "message_received", "a2a_event",
    "wakeup_signal", "activity_event"])] ["trigger_type"] false o &&
  (!ifIs o "trigger_type" "manual" ||
    object [("allowed_roles", array (enum ["Admin", "OrgOwner", "OrgMember", "ProjectOwner",
      "ProjectMember"]) 1)] ["allowed_roles"] false o) &&
  (!ifIs o "trigger_type" "cron" ||
    object [("cron_expression", string cronExpression), ("timezone", string)]
      ["cron_expression"] false o) &&
  (!ifIs o "trigger_type" "message_received" ||
    object [("chatroom_id", string), ("sender_filter", enum ["any", "user", "agent", "guest"]),
      ("content_regex", shortString 500)] ["chatroom_id"] false o) &&
  (!ifIs o "trigger_type" "a2a_event" ||
    object [("agent_id", string),
      ("event_types", array (enum ["call", "reply", "notify", "instruct"]) 1)]
      ["agent_id", "event_types"] false o) &&
  (!ifIs o "trigger_type" "wakeup_signal" ||
    object [("agent_id", string)] ["agent_id"] false o) &&
  (!ifIs o "trigger_type" "activity_event" ||
    object [("chatroom_id", string), ("activity_type_key", shortString 128),
      ("activity_type_keys", array (shortString 128) 1),
      ("validation_status", enum ["any", "pending", "validated", "error"]),
      ("activity_type_scope", enum ["any", "project", "platform"])] ["chatroom_id"] false o)

def agentInvocationConfig : JsonObject → Bool :=
  object [("agent_id", string), ("input_template", templateString),
    ("output_variable", string variableName), ("target_chatroom_id", string),
    ("stream_to_chatroom", boolean), ("timeout_seconds", integer 1 600),
    ("on_error", onError)] ["agent_id", "input_template"] true

/-- `"uniqueItems": true` on an array of strings. -/
def uniqueStrings (o : JsonObject) (key : String) : Bool := decide (o.getStrings key).Nodup

def approvalGateConfig (o : JsonObject) : Bool :=
  object [("mode", enum ["single", "majority", "consensus"]), ("leader_agent_id", string),
    ("approvers", array string 1 (some 20)), ("timeout_seconds", integer 1 86400),
    ("question_template", templateString), ("on_error", onError)]
    ["mode", "leader_agent_id", "approvers", "timeout_seconds", "question_template"] true o &&
  uniqueStrings o "approvers"

def conditionConfig : JsonObject → Bool :=
  object [("branches", array (asObject (object [("when", expression), ("port", string portName)]
      ["when", "port"] true)) 1 (some 20)),
    ("default_port", string portName)] ["branches"] true

def instructConfig : JsonObject → Bool :=
  object [("issuer_agent_id", string), ("target_agent_id", string),
    ("instruction_template", templateString), ("wait_for_completion", boolean),
    ("completion_timeout_seconds", integer 1 600), ("output_variable", string variableName),
    ("on_error", onError)] ["issuer_agent_id", "target_agent_id", "instruction_template"] true

def subagentSpawnConfig : JsonObject → Bool :=
  object [("parent_agent_id", string), ("task_template", templateString),
    ("max_alive_simultaneously", integer 1 20), ("wait_for_all", boolean),
    ("output_variable", string variableName), ("timeout_seconds", integer 1 600),
    ("on_error", onError)] ["parent_agent_id", "task_template"] true

def waitForEventConfig (o : JsonObject) : Bool :=
  object [("event_type", enum ["message_in_room", "a2a_message", "timer", "variable_matches",
      "activity_in_room"]), ("timeout_seconds", integer 1 86400)]
    ["event_type", "timeout_seconds"] false o &&
  (!ifIs o "event_type" "message_in_room" ||
    object [("chatroom_id", string), ("sender_filter", enum ["any", "user", "agent", "guest"]),
      ("content_regex", shortString 500)] ["chatroom_id"] false o) &&
  (!ifIs o "event_type" "a2a_message" ||
    object [("target_agent_id", string),
      ("types", array (enum ["call", "reply", "notify", "instruct"]))]
      ["target_agent_id"] false o) &&
  (!ifIs o "event_type" "timer" ||
    object [("delay_seconds", integer 1 86400)] ["delay_seconds"] false o) &&
  (!ifIs o "event_type" "variable_matches" ||
    object [("expression", expression)] ["expression"] false o) &&
  (!ifIs o "event_type" "activity_in_room" ||
    object [("chatroom_id", string), ("activity_type_key", shortString 128),
      ("activity_type_keys", array (shortString 128) 1),
      ("validation_status", enum ["any", "pending", "validated", "error"]),
      ("activity_type_scope", enum ["any", "project", "platform"])] ["chatroom_id"] false o)

def parallelConfig : JsonObject → Bool :=
  object [("description", shortString 500)] [] true

def joinConfig (o : JsonObject) : Bool :=
  object [("mode", enum ["all", "any", "count"]), ("count", integer 1 50),
    ("timeout_seconds", integer 1 86400)] ["mode"] true o &&
  (!ifConst o "mode" "count" || (o.get? "count").isSome)

def setVariableConfig : JsonObject → Bool :=
  object [("assignments", array (asObject (object
    [("variable", string variableName), ("expression", expression)]
    ["variable", "expression"] true)) 1 (some 20))] ["assignments"] true

def endConfig : JsonObject → Bool :=
  object [("status", enum ["success", "failure"]),
    ("return_variables", array (string variableName) 0 (some 20)),
    ("failure_reason", shortString 500)] [] true

/-! ## The document -/

def nodeConfig : NodeType → JsonObject → Bool
  | .trigger => triggerConfig
  | .agentInvocation => agentInvocationConfig
  | .approvalGate => approvalGateConfig
  | .condition => conditionConfig
  | .instruct => instructConfig
  | .subagentSpawn => subagentSpawnConfig
  | .waitForEvent => waitForEventConfig
  | .parallel => parallelConfig
  | .join => joinConfig
  | .setVariable => setVariableConfig
  | .end => endConfig

def node (n : NodeDef) : Bool := nodeId n.id && nodeConfig n.type n.config

def edge (e : EdgeDef) : Bool :=
  nodeId e.id && nodeId e.fromNode && nodeId e.toNode && e.fromPort.all portName &&
    e.guard.all fun g => decide (g.length ≤ 1000)

def variableDef : JsonObject → Bool :=
  object [("type", enum ["string", "number", "boolean", "object", "array"]),
    ("default", fun _ => true), ("description", shortString 500)] ["type"] true

/-- The definition is accepted by the schema. -/
def accepts (d : Definition) : Bool :=
  nodeId d.entryNodeId && d.nodes.all node && decide (1 ≤ d.nodes.length ∧ d.nodes.length ≤ 500) &&
    d.edges.all edge && decide (d.edges.length ≤ 2000) &&
    (d.vars.all fun v => variableDef v.2) &&
    object [("max_visits_per_node", integer 1 10000)] [] true d.loopGuard

variable {d : Definition} {properties : List (String × Check)} {required : List String}
  {closed : Bool} {o : JsonObject} {v : Json}

theorem nodeConfig_of_accepts (h : accepts d = true) {n : NodeDef} (hn : n ∈ d.nodes) :
    nodeConfig n.type n.config = true := by
  simp only [accepts, Bool.and_eq_true, List.all_eq_true] at h
  have hnode := h.1.1.1.1.1.2 n hn
  simp only [node, Bool.and_eq_true] at hnode
  exact hnode.2

theorem edge_of_accepts (h : accepts d = true) {e : EdgeDef} (he : e ∈ d.edges) :
    edge e = true := by
  simp only [accepts, Bool.and_eq_true, List.all_eq_true] at h
  exact h.1.1.1.2 e he

/-! ## What an accepted object satisfies -/

theorem object_get (h : object properties required closed o = true) (key : String) {check : Check}
    (hp : properties.lookup key = some check) (hv : o.get? key = some v) : check v = true := by
  simp only [object, Bool.and_eq_true, List.all_eq_true] at h
  have hmem : (key, v) ∈ o := by
    obtain ⟨l₁, l₂, rfl, -⟩ := List.lookup_eq_some_iff.mp hv
    simp
  simpa [hp] using h.1 (key, v) hmem

theorem object_required (h : object properties required closed o = true) (key : String)
    (hkey : key ∈ required) : ∃ v, o.get? key = some v := by
  simp only [object, Bool.and_eq_true, List.all_eq_true] at h
  exact Option.isSome_iff_exists.mp (h.2 key hkey)

theorem integer_getInt {key : String} {lo hi : ℤ} (default : ℤ) (hv : o.get? key = some v)
    (h : integer lo hi v = true) : lo ≤ o.getInt key default ∧ o.getInt key default ≤ hi := by
  cases v with
  | int => simpa [JsonObject.getInt, hv, integer] using h
  | float q =>
    simp only [integer, decide_eq_true_eq] at h
    obtain ⟨hden, hlo, hhi⟩ := h
    have hq : q = (q.num : ℚ) := ((Rat.den_eq_one_iff q).mp hden).symm
    have hint : o.getInt key default = q.num := by
      simp only [JsonObject.getInt, hv]
      rw [hq]
      split
      · simp
      · rw [← Rat.intCast_neg, Rat.floor_intCast]
        simp
    rw [hint]
    exact ⟨hlo, hhi⟩
  | null | bool | str | arr | obj => simp [integer] at h

/-- The count a join's config states, or the reader's default, is at least one. -/
theorem joinConfig_count_pos (h : joinConfig o = true) : 1 ≤ o.getInt "count" 1 := by
  simp only [joinConfig, Bool.and_eq_true] at h
  cases hv : o.get? "count" with
  | none => simp [JsonObject.getInt, hv]
  | some => exact (integer_getInt 1 hv (object_get h.1 "count" rfl hv)).1

end Smap.Workflow.Schema
