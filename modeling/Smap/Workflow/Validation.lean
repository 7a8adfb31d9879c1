import Smap.Workflow.LintGraph

/-!
# Validating a definition

When `validate_definition` returns, and what `WorkflowService` (`workflow_service.py`) makes
of its result: `create` stores a definition it accepts, `dry_run` validates the stored
definition again before it starts a run.
-/

namespace Smap.Workflow

open Linter Schema

/-- A computation that raises nothing, and what it returns. -/
def NoRaise {α : Type} (P : α → Prop) (x : Except PyError α) : Prop := ∃ a, x = .ok a ∧ P a

namespace NoRaise

variable {α β : Type} {P : α → Prop} {Q : β → Prop} {x : Except PyError α} {a : α} {xs : List α}
  {f : α → Except PyError β}

@[simp] theorem ok_iff : NoRaise P (.ok a) ↔ P a := by simp [NoRaise]

@[simp] theorem pure_iff : NoRaise P (pure a) ↔ P a := ok_iff

@[simp] theorem error_iff {e : PyError} : ¬NoRaise P (.error e) := by simp [NoRaise]

theorem mono {P' : α → Prop} (h : NoRaise P x) (hP : ∀ a, P a → P' a) : NoRaise P' x := by
  obtain ⟨a, ha, hPa⟩ := h
  exact ⟨a, ha, hP a hPa⟩

@[simp] theorem bind_iff : NoRaise Q (x >>= f) ↔ NoRaise (fun a => NoRaise Q (f a)) x := by
  cases x with
  | error e => exact iff_of_false error_iff error_iff
  | ok a => simp [Bind.bind, Except.bind]

theorem bind (h : NoRaise P x) (hf : ∀ a, P a → NoRaise Q (f a)) : NoRaise Q (x >>= f) :=
  bind_iff.mpr (h.mono hf)

theorem mapM_iff :
    NoRaise (fun ys => ∀ y ∈ ys, Q y) (xs.mapM f) ↔ ∀ x ∈ xs, NoRaise Q (f x) := by
  induction xs with
  | nil => simp
  | cons x rest ih =>
    rw [List.mapM_cons, List.forall_mem_cons, ← ih]
    simp only [bind_iff, pure_iff, List.forall_mem_cons]
    constructor
    · rintro ⟨y, hy, ys, hys, hQ, hall⟩
      exact ⟨⟨y, hy, hQ⟩, ys, hys, hall⟩
    · rintro ⟨⟨y, hy, hQ⟩, ys, hys, hall⟩
      exact ⟨y, hy, ys, hys, hQ, hall⟩

/-- The reports of a loop, put together. -/
theorem reports_iff {P : LintIssue → Prop} {f : α → Issues} :
    NoRaise (fun is => ∀ i ∈ is, P i) (do return (← xs.mapM f).flatten) ↔
      ∀ x ∈ xs, NoRaise (fun is => ∀ i ∈ is, P i) (f x) := by
  rw [← mapM_iff]
  simp only [bind_iff, pure_iff, List.mem_flatten, forall_exists_index, and_imp]
  exact ⟨fun h => h.mono fun ys hys is his i hi => hys i is his hi,
    fun h => h.mono fun ys hys i is his hi => hys is his i hi⟩

theorem returns_reports_iff {f : α → Issues} :
    NoRaise (fun _ => True) (do return (← xs.mapM f).flatten) ↔
      ∀ x ∈ xs, NoRaise (fun _ => True) (f x) := by
  simpa using reports_iff (P := fun _ => True)

end NoRaise

/-! ## Fields the rules can read -/

def hashable : Json → Bool
  | .arr _ | .obj _ => false
  | _ => true

/-- Rule 6 can go through the approvers. -/
def readableApprovers (v : Json) : Bool :=
  match iterate v with
  | .ok items => items.all hashable
  | .error _ => false

/-- Rule 16 can look into the error block. -/
def readableOnError : Json → Bool
  | .obj fields =>
    let fid := (JsonObject.get? fields "fallback_node_id").getD .null
    JsonObject.getStr? fields "strategy" != some "fallback" || !fid.truthy || hashable fid
  | v => !v.truthy

def agentKeys : List String :=
  ["agent_id", "target_agent_id", "issuer_agent_id", "leader_agent_id", "parent_agent_id"]

def chatroomKeys : List String := ["chatroom_id", "target_chatroom_id"]

/-- No rule raises on this field of a config. -/
def readable (key : String) (v : Json) : Bool :=
  if key ∈ agentKeys then hashable v
  else if key ∈ chatroomKeys then !v.truthy || hashable v
  else if key = "approvers" then readableApprovers v
  else if key = "on_error" then readableOnError v
  else true

/-- The rules can read these fields. -/
def Readable (keys : List String) (o : JsonObject) : Prop :=
  ∀ key ∈ keys, (o.get? key).all (readable key) = true

instance decidableReadable (keys : List String) (o : JsonObject) : Decidable (Readable keys o) :=
  inferInstanceAs (Decidable (∀ key ∈ keys, _))

/-- What the linter needs beside the schema in order to return.  The schema leaves the
configs of triggers and waits open, and does not look at the ids an edge names. -/
structure Lintable (env : LintEnv) (d : Definition) : Prop where
  graph : endNodes d = [] ∨ ∀ id ∈ reachable d, (d.nodesById id).isSome
  openConfigs : ∀ n ∈ d.nodes, n.type = .trigger ∨ n.type = .waitForEvent →
    Readable (agentKeys ++ ["approvers"]) n.config ∧ Readable chatroomKeys n.config ∧
      Readable ["on_error"] n.config
  expressions : ∀ n ∈ d.nodes, ∀ expr ∈ selExpressions n,
    expr.toList.all Schema.isSpace = true ∨ NoRaise (fun _ => True) (env.validateSel expr)

variable {env env' : LintEnv} {d : Definition} {n : NodeDef} {o : JsonObject} {v : Json}
  {keys : List String}

theorem hashable_of_string {ok : String → Bool} (h : string ok v = true) : hashable v = true := by
  cases v <;> simp_all [string, hashable]

theorem readableApprovers_of_array (h : array string 1 (some 20) v = true) :
    readableApprovers v = true := by
  cases v with
  | arr items =>
    simp only [array, Bool.and_eq_true, List.all_eq_true] at h
    simpa [readableApprovers, iterate] using fun x hx => hashable_of_string (h.1.1 x hx)
  | _ => simp [array] at h

theorem readableOnError_of_onError (h : onError v = true) : readableOnError v = true := by
  cases v with
  | obj fields =>
    simp only [onError, asObject, Bool.and_eq_true] at h
    cases hfid : JsonObject.get? fields "fallback_node_id" with
    | none => simp [readableOnError, hfid, hashable]
    | some fid =>
      have hstring := object_get h.1.1 "fallback_node_id" rfl hfid
      simp [readableOnError, hfid, hashable_of_string hstring]
  | _ => simp [onError, asObject] at h

/-- A closed config is readable when its properties are. -/
theorem readable_of_object {properties : List (String × Schema.Check)} {required : List String}
    (hp : ∀ p ∈ properties, ∀ v, p.2 v = true → readable p.1 v = true)
    (h : object properties required true o = true) : Readable keys o := by
  intro key _
  cases hv : o.get? key with
  | none => rfl
  | some v =>
    simp only [object, Bool.and_eq_true, List.all_eq_true] at h
    obtain ⟨l₁, l₂, rfl, -⟩ := List.lookup_eq_some_iff.mp hv
    have hcheck := h.1 (key, v) (by simp)
    split at hcheck
    · rename_i check hlookup
      obtain ⟨l₁, l₂, rfl, -⟩ := List.lookup_eq_some_iff.mp hlookup
      exact hp (key, check) (by simp) v hcheck
    · simp at hcheck

theorem readable_config (h : accepts d = true) (hn : n ∈ d.nodes)
    (hopen : n.type = .trigger ∨ n.type = .waitForEvent → Readable keys n.config) :
    Readable keys n.config := by
  have hconfig := nodeConfig_of_accepts h hn
  cases htype : n.type with
  | trigger | waitForEvent => exact hopen (by simp [htype])
  | approvalGate =>
    simp only [htype, nodeConfig, approvalGateConfig, Bool.and_eq_true] at hconfig
    refine readable_of_object ?_ hconfig.1
    simp [readable, agentKeys, chatroomKeys]
    grind [hashable_of_string, readableApprovers_of_array, readableOnError_of_onError]
  | join =>
    simp only [htype, nodeConfig, joinConfig, Bool.and_eq_true] at hconfig
    exact readable_of_object (by simp [readable, agentKeys, chatroomKeys]) hconfig.1
  | condition | parallel | setVariable | «end» =>
    rw [htype] at hconfig
    exact readable_of_object (by simp [readable, agentKeys, chatroomKeys]) hconfig
  | agentInvocation | instruct | subagentSpawn =>
    rw [htype] at hconfig
    refine readable_of_object ?_ hconfig
    simp [readable, agentKeys, chatroomKeys]
    grind [hashable_of_string, readableOnError_of_onError]

/-! ## When each rule returns -/

/-- A look-up in a set, whatever is made of its result. -/
theorem memStrings_returns {names : Finset String} {f : Bool → Issues}
    (hf : ∀ found, NoRaise (fun _ => True) (f found)) :
    NoRaise (fun _ => True) (memStrings v names >>= f) ↔ hashable v = true := by
  rw [NoRaise.bind_iff]
  cases v <;> simp [memStrings, hashable, hf]

theorem isSome_nodesById {id : String} : (d.nodesById id).isSome ↔ id ∈ nodeIds d := by
  rw [nodeIds, List.mem_eraseDups, ← not_iff_not, ← nodesById_eq_none,
    Option.not_isSome_iff_eq_none]

theorem terminationIssue_returns {id : String} :
    NoRaise (fun _ => True) (terminationIssue d id) ↔ (d.nodesById id).isSome := by
  simp only [terminationIssue]
  split
  · rename_i hreaches
    simp only [Bool.or_eq_true, List.contains_iff_mem] at hreaches
    have hid : id ∈ nodeIds d := by
      rcases hreaches with hend | hreaches
      · exact List.mem_of_mem_filter hend
      · exact (outgoing_of_canReachLoop _ hreaches).elim List.mem_of_mem_filter And.left
    simp [isSome_nodesById.mpr hid]
  · cases d.nodesById id with
    | none => simp
    | some n =>
      simp only [Option.isSome_some, iff_true]
      split <;> simp

theorem rule05_returns : NoRaise (fun _ => True) (rule05Termination d) ↔
    endNodes d = [] ∨ ∀ id ∈ reachable d, (d.nodesById id).isSome := by
  simp only [rule05Termination]
  split
  · simp_all
  · rename_i hends
    rw [or_iff_right (by simpa using hends)]
    exact NoRaise.returns_reports_iff.trans
      (forall₂_congr fun id _ => terminationIssue_returns)

theorem collectAgentIds_returns :
    NoRaise (fun ids => ∀ id ∈ ids, hashable id = true) (collectAgentIds n) ↔
      Readable (agentKeys ++ ["approvers"]) n.config := by
  have hsingle : (∀ id ∈ agentKeys.filterMap n.config.get?, hashable id = true) ↔
      Readable agentKeys n.config := by
    simp only [List.mem_filterMap, forall_exists_index, and_imp, Readable, Option.all_eq_true]
    constructor
    · intro h key hkey v hv
      simpa [readable, hkey] using h v key hkey hv
    · intro h v key hkey hv
      simpa [readable, hkey] using h key hkey v hv
  have happend : Readable (agentKeys ++ ["approvers"]) n.config ↔ Readable agentKeys n.config ∧
      (n.config.get? "approvers").all readableApprovers = true := by
    have happrovers : readable "approvers" = readableApprovers := rfl
    simp [Readable, or_imp, forall_and, happrovers]
  rw [happend, ← hsingle]
  simp only [collectAgentIds]
  cases hv : n.config.get? "approvers" with
  | none => simp [agentKeys]
  | some v =>
    cases hitems : iterate v <;>
      simp [hitems, readableApprovers, or_imp, forall_and, agentKeys]

theorem rule06_returns : NoRaise (fun _ => True) (rule06AgentsExist env d) ↔
    ∀ n ∈ d.nodes, Readable (agentKeys ++ ["approvers"]) n.config := by
  refine NoRaise.returns_reports_iff.trans (forall₂_congr fun n _ => ?_)
  rw [← collectAgentIds_returns, NoRaise.bind_iff]
  refine exists_congr fun ids => and_congr_right fun _ => ?_
  refine NoRaise.returns_reports_iff.trans (forall₂_congr fun id _ => ?_)
  exact memStrings_returns fun found => by cases found <;> simp

theorem rule08_returns : NoRaise (fun _ => True) (rule08ChatroomScope env d) ↔
    ∀ n ∈ d.nodes, Readable chatroomKeys n.config := by
  refine NoRaise.returns_reports_iff.trans (forall₂_congr fun n _ => ?_)
  refine NoRaise.returns_reports_iff.trans (forall₂_congr fun key hkey => ?_)
  have hroom : readable key = fun v => !v.truthy || hashable v := by
    simp only [List.mem_cons, List.not_mem_nil, or_false] at hkey
    rcases hkey with rfl | rfl <;> rfl
  cases hv : n.config.get? key with
  | none => simp
  | some cid =>
    rw [Option.all_some, hroom]
    by_cases ht : cid.truthy = true
    · simp only [ht, Bool.not_true, Bool.false_or]
      exact memStrings_returns fun found => by cases found <;> simp
    · simp [ht]

theorem rule15_returns : NoRaise (fun _ => True) (rule15SelExpressions env d) ↔
    ∀ n ∈ d.nodes, ∀ expr ∈ selExpressions n,
      expr.toList.all Schema.isSpace = true ∨ NoRaise (fun _ => True) (env.validateSel expr) := by
  refine NoRaise.returns_reports_iff.trans (forall₂_congr fun n _ => ?_)
  refine NoRaise.returns_reports_iff.trans (forall₂_congr fun expr _ => ?_)
  split
  · simp_all
  · rename_i hblank
    rw [or_iff_right (by simpa using hblank), NoRaise.bind_iff]
    refine exists_congr fun exc => and_congr_right fun _ => ?_
    cases exc <;> simp

theorem rule16_returns : NoRaise (fun _ => True) (rule16FallbackNodeExists env d) ↔
    ∀ n ∈ d.nodes, Readable ["on_error"] n.config := by
  refine NoRaise.returns_reports_iff.trans (forall₂_congr fun n _ => ?_)
  have hkey : readable "on_error" = readableOnError := rfl
  rw [Readable, List.forall_mem_singleton, hkey]
  cases n.config.get? "on_error" with
  | none => simp
  | some v =>
    cases v with
    | obj onError =>
      simp only [fallbackIssue, Option.all_some, readableOnError]
      by_cases hs : JsonObject.getStr? onError "strategy" = some "fallback"
      · simp only [hs, not_true_eq_false, ne_eq, if_false]
        split
        · simp_all
        · rename_i hfid
          simp only [bne_self_eq_false, hfid, Bool.false_or]
          split
          · rename_i hself
            have hstr : JsonObject.get? onError "fallback_node_id" = some (.str n.id) := by
              grind [JsonObject.getStr?]
            simp [hstr, hashable]
          · exact memStrings_returns fun found => by cases found <;> simp
      · simp [hs]
    | _ =>
      simp only [Option.all_some, readableOnError]
      split <;> simp_all

theorem warnAbove_returns {lo hi bound : ℤ} {message : String} {id : Option String}
    (h : integer lo hi v = true) :
    NoRaise (fun is => ∀ i ∈ is, i.level = .warning) (warnAbove v bound message id) := by
  refine NoRaise.bind (P := fun _ => True) ?_ fun found _ => by cases found <;> simp [warning]
  cases v <;> simp_all [exceeds, integer]

section Schema

variable (h : accepts d = true)

include h

theorem nodeWarnings_returns (hn : n ∈ d.nodes) :
    NoRaise (fun is => ∀ i ∈ is, i.level = .warning) (nodeWarnings env d n) := by
  have hconfig := nodeConfig_of_accepts h hn
  cases htype : n.type with
  | agentInvocation =>
    simp only [nodeWarnings, htype]
    rw [htype] at hconfig
    cases hts : n.config.get? "timeout_seconds" with
    | none =>
      have hdefault : integer 120 120 (.int 120) = true := by decide
      exact warnAbove_returns hdefault
    | some ts => exact warnAbove_returns (object_get hconfig "timeout_seconds" rfl hts)
  | approvalGate =>
    simp only [nodeWarnings, htype]
    simp only [htype, nodeConfig, approvalGateConfig, Bool.and_eq_true] at hconfig
    obtain ⟨ts, hts⟩ := object_required hconfig.1 "timeout_seconds" (by simp)
    have htimeout : integer 1 86400 ((n.config.get? "timeout_seconds").getD (.int 0)) := by
      simpa [hts] using object_get hconfig.1 "timeout_seconds" rfl hts
    refine (warnAbove_returns htimeout).bind fun slow hslow => ?_
    simp only [NoRaise.pure_iff, List.mem_append, List.mem_map]
    rintro i (hi | ⟨a, -, rfl⟩)
    · exact hslow i hi
    · rfl
  | waitForEvent | join | trigger | subagentSpawn | instruct =>
    simp only [nodeWarnings, htype, warnLacking, NoRaise.ok_iff]
    grind [warning]
  | condition | parallel | setVariable | «end» => simp [nodeWarnings, htype]

theorem advisory_returns :
    NoRaise (fun is => ∀ i ∈ is, i.level = .warning) (advisoryWarnings env d) := by
  refine (NoRaise.mapM_iff.mpr fun n hn => nodeWarnings_returns h hn).bind fun onNodes hnodes => ?_
  refine NoRaise.bind (P := fun is => ∀ i ∈ is, i.level = .warning) ?_ fun guardHigh hhigh => ?_
  · simp only [accepts, Bool.and_eq_true] at h
    cases hlg : d.loopGuard.get? "max_visits_per_node" with
    | none =>
      have hdefault : integer 200 200 (.int 200) = true := by decide
      exact warnAbove_returns hdefault
    | some lg => exact warnAbove_returns (object_get h.2 "max_visits_per_node" rfl hlg)
  · simp only [NoRaise.pure_iff, List.mem_append, List.mem_map, List.mem_flatten]
    rintro i ((⟨v, -, rfl⟩ | ⟨is, his, hi⟩) | hi)
    · rfl
    · exact hnodes is his i hi
    · exact hhigh i hi

/-! ## The validator returns -/

theorem allIssues_returns : NoRaise (fun _ => True) (allIssues env d) ↔ Lintable env d := by
  constructor
  · rintro ⟨all, h, -⟩
    obtain ⟨r05, h05, h⟩ := exists_ok_of_bind h
    obtain ⟨r06, h06, h⟩ := exists_ok_of_bind h
    obtain ⟨r08, h08, h⟩ := exists_ok_of_bind h
    obtain ⟨r15, h15, h⟩ := exists_ok_of_bind h
    obtain ⟨r16, h16, -⟩ := exists_ok_of_bind h
    refine ⟨rule05_returns.mp ⟨r05, h05, trivial⟩, fun n hn _ => ?_,
      rule15_returns.mp ⟨r15, h15, trivial⟩⟩
    exact ⟨rule06_returns.mp ⟨r06, h06, trivial⟩ n hn, rule08_returns.mp ⟨r08, h08, trivial⟩ n hn,
      rule16_returns.mp ⟨r16, h16, trivial⟩ n hn⟩
  · rintro ⟨hgraph, hopen, hexpr⟩
    refine (rule05_returns.mpr hgraph).bind fun _ _ => ?_
    refine (rule06_returns.mpr fun n hn => ?_).bind fun _ _ => ?_
    · exact readable_config h hn fun ht => (hopen n hn ht).1
    refine (rule08_returns.mpr fun n hn => ?_).bind fun _ _ => ?_
    · exact readable_config h hn fun ht => (hopen n hn ht).2.1
    refine (rule15_returns.mpr hexpr).bind fun _ _ => ?_
    refine (rule16_returns.mpr fun n hn => ?_).bind fun _ _ => ?_
    · exact readable_config h hn fun ht => (hopen n hn ht).2.2
    exact (advisory_returns h).bind fun _ _ => by simp

end Schema

/-- An error among the issues of a rule on the structure of the graph reaches the result. -/
theorem validateDefinition_of_issue {all : List LintIssue} (hall : allIssues env d = .ok all)
    {i : LintIssue} (hi : i ∈ all) (herr : i.level = .error) {r : ValidationResult}
    (hr : validateDefinition env d = .ok r) : r.valid = false ∧ i ∈ r.errors := by
  have hmem : i ∈ all.filter fun i => i.level == .error := by simp [hi, herr]
  simp only [validateDefinition, hall, bind, Except.bind, pure, Except.pure, Except.ok.injEq] at hr
  subst hr
  exact ⟨by simpa using List.ne_nil_of_mem hmem, hmem⟩

/-- A dangling edge is an error of rule 3, and a missing entry one of rule 1. -/
theorem validateDefinition_reports {r : ValidationResult} (hr : validateDefinition env d = .ok r) :
    (∀ e ∈ d.edges, e.fromNode ∉ d.nodes.map NodeDef.id → r.valid = false ∧
      issue 3 s!"Edge references unknown from node '{e.fromNode}'" none e.id ∈ r.errors) ∧
    (∀ e ∈ d.edges, e.toNode ∉ d.nodes.map NodeDef.id → r.valid = false ∧
      issue 3 s!"Edge references unknown to node '{e.toNode}'" none e.id ∈ r.errors) ∧
    (d.entryNodeId ∉ d.nodes.map NodeDef.id → r.valid = false ∧ ∃ i ∈ r.errors, i.rule = 1) := by
  obtain ⟨all, hall, -⟩ := exists_ok_of_bind hr
  obtain ⟨r05, -, hmem⟩ := mem_allIssues hall
  have hedge {e : EdgeDef} (he : e ∈ d.edges) {i : LintIssue} (hi : i ∈ edgeIssues d e)
      (herr : i.level = .error) : r.valid = false ∧ i ∈ r.errors :=
    validateDefinition_of_issue hall
      (hmem (rule03EdgesValid d) (by simp) i (mem_rule03Loop hi he)) herr hr
  refine ⟨fun e he hout => ?_, fun e he hout => ?_, fun hout => ?_⟩
  · exact hedge he (by simp [edgeIssues, nodesById_eq_none.mpr hout]) rfl
  · exact hedge he (by simp [edgeIssues, nodesById_eq_none.mpr hout]) rfl
  have hissue : ∃ i ∈ rule01SingleTrigger d, i.level = .error ∧ i.rule = 1 := by
    simp only [rule01SingleTrigger]
    split
    · simp [issue]
    · rename_i t rest htriggers
      have ht : t ∈ d.nodes := (List.mem_filter.mp (htriggers ▸ List.mem_cons_self)).1
      have hne : d.entryNodeId ≠ t.id := fun heq => hout (heq ▸ List.mem_map_of_mem ht)
      rw [if_neg hne]
      exact ⟨_, List.mem_append_right _ List.mem_cons_self, rfl, rfl⟩
  obtain ⟨i, hi, herr, hrule⟩ := hissue
  obtain ⟨hvalid, hin⟩ := validateDefinition_of_issue hall
    (hmem (rule01SingleTrigger d) (by simp) i hi) herr hr
  exact ⟨hvalid, i, hin, hrule⟩

/-- **On a schema-valid definition the linter returns exactly if the definition is lintable**,
and then a dangling edge or a missing entry is an error of rule 3 or rule 1. -/
theorem validateDefinition_returns (env : LintEnv) (d : Definition) (h : accepts d = true) :
    (∃ r, validateDefinition env d = .ok r ∧
      (∀ e ∈ d.edges, e.fromNode ∉ d.nodes.map NodeDef.id → r.valid = false ∧
        issue 3 s!"Edge references unknown from node '{e.fromNode}'" none e.id ∈ r.errors) ∧
      (∀ e ∈ d.edges, e.toNode ∉ d.nodes.map NodeDef.id → r.valid = false ∧
        issue 3 s!"Edge references unknown to node '{e.toNode}'" none e.id ∈ r.errors) ∧
      (d.entryNodeId ∉ d.nodes.map NodeDef.id → r.valid = false ∧ ∃ i ∈ r.errors, i.rule = 1)) ↔
      Lintable env d := by
  rw [← allIssues_returns h]
  constructor
  · rintro ⟨r, hr, -⟩
    obtain ⟨all, hall, -⟩ := exists_ok_of_bind hr
    exact ⟨all, hall, trivial⟩
  · rintro ⟨all, hall, -⟩
    obtain ⟨r, hr⟩ : ∃ r, validateDefinition env d = .ok r :=
      ⟨_, by rw [validateDefinition, hall]; rfl⟩
    exact ⟨r, hr, validateDefinition_reports hr⟩

/-- A trigger, an end, and one edge from the trigger to the given target. -/
def twoNodes (entry target : String) : Definition where
  entryNodeId := entry
  nodes := [⟨"start", .trigger, [("trigger_type", .str "wakeup_signal"), ("agent_id", .str "g")]⟩,
    ⟨"done", .end, []⟩]
  edges := [{ id := "e1", fromNode := "start", toNode := target },
    { id := "e2", fromNode := "ghost", toNode := "done" }]

/-- Every agent is known and every expression is accepted. -/
def quietEnv : LintEnv where
  validAgentIds := {"g"}
  validateSel := fun _ => .ok none
  extractVarRefs := fun _ => []
  reprStr := id
  strOf := fun _ => ""

/-- The edge from nowhere is reported while nothing reachable is missing. -/
theorem returns_at_two_nodes :
    ∃ r, validateDefinition quietEnv (twoNodes "start" "done") = .ok r ∧ r.valid = false ∧
      issue 3 "Edge references unknown from node 'ghost'" none (some "e2") ∈ r.errors := by
  have hl : Lintable quietEnv (twoNodes "start" "done") :=
    ⟨.inr (by decide +kernel), by decide +kernel, fun _ _ _ _ => .inr ⟨none, rfl, trivial⟩⟩
  obtain ⟨r, hr, hfrom, -⟩ := (validateDefinition_returns quietEnv (twoNodes "start" "done")
    (by decide +kernel)).mpr hl
  exact ⟨r, hr, hfrom ⟨"e2", "ghost", "done", none, none⟩ (by decide) (by decide)⟩

/-- Rule 5 looks up every id it has reached: with an edge from the trigger to a node that does
not exist, or an entry that does not exist, the linter raises instead of reporting it. -/
theorem linter_raises_on_dangling :
    (accepts (twoNodes "start" "lost") = true ∧
      validateDefinition quietEnv (twoNodes "start" "lost") = .error (.keyError "lost")) ∧
    accepts (twoNodes "lost" "done") = true ∧
      validateDefinition quietEnv (twoNodes "lost" "done") = .error (.keyError "lost") := by
  refine ⟨⟨by decide +kernel, ?_⟩, by decide +kernel, ?_⟩ <;> rfl

/-! ## Saving and dry runs -/

/-- What `jsonschema` answers on a document: the error `validate` raises with, and all of them. -/
structure SchemaValidator where
  bestError : Definition → Option String
  iterErrors : Definition → List String
  bestError_eq_none : ∀ d, bestError d = none ↔ accepts d = true
  iterErrors_eq_nil : ∀ d, iterErrors d = [] ↔ accepts d = true

inductive WorkflowError where
  | validationFailed (errors warnings : List LintIssue)
  | notFound (message : String)
  | raised (exception : PyError)
  deriving DecidableEq

/-- What `dry_run` hands to `RunEngine.start_run`. -/
structure RunStart where
  projectId : String
  workflowId : String
  definition : Definition
  triggerType : String
  isDryRun : Bool

namespace WorkflowService

/-- `create`: the definition the new row holds. -/
def create (js : SchemaValidator) (env : LintEnv) (d : Definition) :
    Except WorkflowError Definition :=
  match js.bestError d with
  | some message => .error (.validationFailed [issue 0 message] [])
  | none =>
    match validateDefinition env d with
    | .error e => .error (.raised e)
    | .ok r => if r.valid then .ok d else .error (.validationFailed r.errors r.warnings)

/-- `validate`. -/
def validate (js : SchemaValidator) (env : LintEnv) (d : Definition) :
    Except PyError ValidationResult :=
  match js.iterErrors d with
  | [] => validateDefinition env d
  | errors => .ok { valid := false, errors := errors.map fun e => issue 0 e, warnings := [] }

/-- The defaults of the id sets, which are all empty. -/
def defaults (env : LintEnv) : LintEnv where
  validateSel := env.validateSel
  extractVarRefs := env.extractVarRefs
  reprStr := env.reprStr
  strOf := env.strOf

/-- `dry_run`, with the definition and the project its look-ups find.  It calls `validate` on the
definition alone. -/
def dryRun (js : SchemaValidator) (env : LintEnv) (workflowId : String)
    (stored : Option Definition) (project : Option String) : Except WorkflowError RunStart :=
  match stored with
  | none => .error (.notFound s!"Workflow {workflowId} not found")
  | some defn =>
    match validate js (defaults env) defn with
    | .error e => .error (.raised e)
    | .ok r =>
      if r.errors ≠ [] then .error (.validationFailed r.errors [])
      else match project with
        | none => .error (.notFound s!"Cannot resolve project for workflow {workflowId}")
        | some projectId => .ok ⟨projectId, workflowId, defn, "dry_run", true⟩

end WorkflowService

open WorkflowService

/-- No node names an agent or a chatroom. -/
def Unreferring (d : Definition) : Prop :=
  (∀ n ∈ d.nodes, collectAgentIds n = .ok []) ∧
    ∀ n ∈ d.nodes, ∀ key ∈ chatroomKeys, (n.config.get? key).all fun v => !v.truthy

/-- What is in no set is an error, or raises. -/
theorem memStrings_empty {i : LintIssue} (hi : i.level = .error) :
    ¬NoRaise (fun is => ∀ i ∈ is, i.level ≠ .error) (do
      if ← memStrings v ∅ then return []
      return [i]) := by
  rw [NoRaise.bind_iff]
  cases v <;> simp [memStrings, hi]

theorem rule06_unreferring :
    NoRaise (fun is => ∀ i ∈ is, i.level ≠ .error) (rule06AgentsExist (defaults env) d) ↔
      ∀ n ∈ d.nodes, collectAgentIds n = .ok [] := by
  refine NoRaise.reports_iff.trans (forall₂_congr fun n _ => ?_)
  rw [NoRaise.bind_iff]
  have hids (ids : List Json) : (∀ id ∈ ids, False) ↔ ids = [] := by
    simp [List.eq_nil_iff_forall_not_mem]
  have hreport : NoRaise (· = []) (collectAgentIds n) ↔ collectAgentIds n = .ok [] := by
    simp [NoRaise]
  rw [← hreport]
  refine exists_congr fun ids => and_congr_right fun _ => NoRaise.reports_iff.trans ?_
  exact (forall₂_congr fun id _ => iff_false_intro (memStrings_empty rfl)).trans (hids ids)

theorem rule08_unreferring :
    NoRaise (fun is => ∀ i ∈ is, i.level ≠ .error) (rule08ChatroomScope (defaults env) d) ↔
      ∀ n ∈ d.nodes, ∀ key ∈ chatroomKeys, (n.config.get? key).all fun v => !v.truthy := by
  refine NoRaise.reports_iff.trans (forall₂_congr fun n _ => ?_)
  refine NoRaise.reports_iff.trans (forall₂_congr fun key _ => ?_)
  cases hcid : n.config.get? key with
  | none => simp
  | some cid =>
    by_cases ht : cid.truthy = true
    · simp only [ht, Bool.not_true, Option.all_some, Bool.false_eq_true, iff_false]
      exact memStrings_empty rfl
    · simp [ht]

/-- The rules that read no id set report the same on every call. -/
theorem no_error_defaults (h : accepts d = true) (hvalid : lintValid env d = true) :
    NoRaise (fun all => ∀ i ∈ all, i.level ≠ .error) (allIssues (defaults env) d) ↔
      Unreferring d := by
  constructor
  · rintro ⟨all, hall, hok⟩
    obtain ⟨r05, -, hall⟩ := exists_ok_of_bind hall
    obtain ⟨r06, h06, hall⟩ := exists_ok_of_bind hall
    obtain ⟨r08, h08, hall⟩ := exists_ok_of_bind hall
    obtain ⟨r15, -, hall⟩ := exists_ok_of_bind hall
    obtain ⟨r16, -, hall⟩ := exists_ok_of_bind hall
    obtain ⟨advisory, -, hall⟩ := exists_ok_of_bind hall
    rw [← Except.ok.inj hall] at hok
    exact ⟨rule06_unreferring.mp ⟨r06, h06, fun i hi => hok i (by simp [hi])⟩,
      rule08_unreferring.mp ⟨r08, h08, fun i hi => hok i (by simp [hi])⟩⟩
  intro href
  obtain ⟨all, hall, hok⟩ := no_error_of_lintValid hvalid
  obtain ⟨r05, h05, hall⟩ := exists_ok_of_bind hall
  obtain ⟨r06, -, hall⟩ := exists_ok_of_bind hall
  obtain ⟨r08, -, hall⟩ := exists_ok_of_bind hall
  obtain ⟨r15, h15, hall⟩ := exists_ok_of_bind hall
  obtain ⟨r16, h16, hall⟩ := exists_ok_of_bind hall
  obtain ⟨advisory, -, hall⟩ := exists_ok_of_bind hall
  rw [← Except.ok.inj hall] at hok
  refine NoRaise.bind ⟨r05, h05, rfl⟩ fun _ h05 => ?_
  refine (rule06_unreferring.mpr href.1).bind fun r06' h06 => ?_
  refine (rule08_unreferring.mpr href.2).bind fun r08' h08 => ?_
  refine NoRaise.bind ⟨r15, h15, rfl⟩ fun _ h15 => ?_
  refine NoRaise.bind (P := fun r => r = r16) ⟨r16, h16, rfl⟩ fun _ h16 => ?_
  refine (advisory_returns h).bind fun ws hws => ?_
  subst h05 h15 h16
  rw [NoRaise.pure_iff]
  intro i hi herr
  have h09 : rule09SubagentDepth (defaults env) d = [] := by
    rw [rule09SubagentDepth, List.filterMap_eq_nil_iff]
    intro n _
    cases n.config.getStr? "parent_agent_id" <;> simp [defaults]
  have h12 : rule12VariableReferences (defaults env) d = rule12VariableReferences env d := rfl
  have hws : i ∉ ws := fun hi => by simp [hws i hi] at herr
  have h06 : i ∉ r06' := fun hi => h06 i hi herr
  have h08 : i ∉ r08' := fun hi => h08 i hi herr
  simp only [List.mem_append, h06, h08, h09, h12, hws, rule07AgentScope, List.not_mem_nil,
    or_false] at hi
  refine hok i ?_ herr
  simp only [List.mem_append]
  tauto

theorem lintValid_of_create {js : SchemaValidator} {stored : Definition}
    (h : create js env d = .ok stored) :
    stored = d ∧ accepts d = true ∧ lintValid env d = true := by
  simp only [create] at h
  split at h
  · cases h
  · rename_i hbest
    refine ⟨?_, (js.bestError_eq_none d).mp hbest, ?_⟩
    all_goals grind [lintValid]

/-- **A definition `create` has accepted is started by `dry_run` exactly if it names no agent and
no chatroom.** -/
theorem dry_run_starts (js : SchemaValidator) (env : LintEnv) (d stored : Definition)
    (hcreate : create js env d = .ok stored) (workflowId projectId : String) :
    ((∃ r, validate js (defaults env) stored = .ok r ∧ r.errors = []) ∧
      dryRun js env workflowId stored projectId =
        .ok ⟨projectId, workflowId, stored, "dry_run", true⟩) ↔ Unreferring d := by
  obtain ⟨rfl, haccepts, hvalid⟩ := lintValid_of_create hcreate
  have hnil := (js.iterErrors_eq_nil stored).mpr haccepts
  have hvalidate :
      validate js (defaults env) stored = validateDefinition (defaults env) stored := by
    rw [validate, hnil]
  rw [← no_error_defaults haccepts hvalid]
  constructor
  · rintro ⟨⟨r, hr, herrors⟩, -⟩
    rw [hvalidate] at hr
    refine no_error_of_lintValid ?_
    obtain ⟨all, -, hr'⟩ := exists_ok_of_bind hr
    obtain rfl := Except.ok.inj hr'
    simpa [lintValid, hr] using herrors
  · rintro ⟨all, hall, hok⟩
    have hresult : ∃ r, validate js (defaults env) stored = .ok r ∧ r.errors = [] := by
      refine ⟨_, by rw [hvalidate, validateDefinition, hall]; rfl, ?_⟩
      simpa using hok
    obtain ⟨r, hr, herrors⟩ := hresult
    exact ⟨⟨r, hr, herrors⟩, by simp [dryRun, hr, herrors]⟩

/-- Only whether there is an error matters of what `jsonschema` says. -/
def plainValidator : SchemaValidator where
  bestError d := if accepts d then none else some "rejected"
  iterErrors d := if accepts d then [] else ["rejected"]
  bestError_eq_none d := by simp
  iterErrors_eq_nil d := by simp

/-- A trigger with the given config, and an end. -/
def triggered (config : JsonObject) : Definition where
  entryNodeId := "start"
  nodes := [⟨"start", .trigger, config⟩, ⟨"done", .end, []⟩]
  edges := [{ id := "e1", fromNode := "start", toNode := "done" }]

def manual : Definition := triggered
  [("trigger_type", .str "manual"), ("allowed_roles", .arr [.str "Admin"])]

theorem dry_run_starts_manual :
    ∃ stored, create plainValidator quietEnv manual = .ok stored ∧
      dryRun plainValidator quietEnv "w" stored "p" = .ok ⟨"p", "w", stored, "dry_run", true⟩ := by
  have hcreate : create plainValidator quietEnv manual = .ok manual := rfl
  have href : Unreferring manual := by
    simp only [Unreferring, manual, triggered, List.forall_mem_cons, List.not_mem_nil]
    exact ⟨⟨rfl, rfl, by simp⟩, by decide, by decide, by simp⟩
  exact ⟨manual, hcreate,
    ((dry_run_starts plainValidator quietEnv manual manual hcreate "w" "p").mpr href).2⟩

/-- A saved definition whose trigger names a known agent is refused by `dry_run`, which knows no
agent. -/
theorem dry_run_refuses_known_agent :
    ∃ d, create plainValidator quietEnv d = .ok d ∧
      dryRun plainValidator quietEnv "w" (some d) (some "p") = .error (.validationFailed
        [issue 6 "Referenced agent 'g' does not exist in the workflow's project" (some "start")]
        []) := by
  refine ⟨triggered [("trigger_type", .str "wakeup_signal"), ("agent_id", .str "g")], ?_, ?_⟩
  all_goals rfl

end Smap.Workflow
