import Mathlib.Data.List.DropRight

/-!
# The history an agent is shown

`load_model_history` of `contexts/agents/application/runtime/transcript.py`: the newest rows of a
room, where a row that one of the agent's own summaries has folded is left out and the summary
stands in front instead.  The rows stay as they are; a fold is only a row more.

Of a row are kept the fields that this and the compaction read.  Its text is there by its token
count (`estimate_tokens`, with the excerpt of its attachments).  Metadata are those of a live
summary or not; a voided summary is of the second kind.
-/

namespace Smap.Context

open List

abbrev MessageId := ℕ
abbrev AgentId := ℕ
abbrev SenderId := ℕ

inductive SenderType where
  | user
  | guest
  | agent
  | system
  deriving DecidableEq

inductive Role where
  | user
  | agent
  | notice
  | system
  deriving DecidableEq

inductive Metadata where
  | other
  | compactSummary (compactedIds : List MessageId) (producerAgentId : Option AgentId)
  deriving DecidableEq

def isCompactSummary : Metadata → Bool
  | .compactSummary .. => true
  | .other => false

def summaryProducer : Metadata → Option AgentId
  | .compactSummary _ producer => producer
  | .other => none

def compactedIds : Metadata → List MessageId
  | .compactSummary ids _ => ids
  | .other => []

def summaryMetadata (messageIds : List MessageId) (producerAgentId : AgentId) : Metadata :=
  .compactSummary messageIds (some producerAgentId)

structure Message where
  id : MessageId
  senderType : SenderType
  senderId : Option SenderId
  metadata : Metadata
  tokenCount : ℕ
  createdAt : ℕ
  deriving DecidableEq

structure HistoryMessage where
  id : MessageId
  senderId : Option SenderId
  role : Role
  metadata : Metadata
  tokenCount : ℕ
  createdAt : ℕ
  deriving DecidableEq

/-- `_ROLE_BY_SENDER`. -/
def roleBySender : SenderType → Role
  | .user | .guest => .user
  | .agent => .agent
  | .system => .notice

def toHistory (m : Message) : HistoryMessage where
  id := m.id
  senderId := m.senderId
  role := if isCompactSummary m.metadata then .system else roleBySender m.senderType
  metadata := m.metadata
  tokenCount := m.tokenCount
  createdAt := m.createdAt

/-- The newest rows first; `rows` are in the order of creation. -/
def listMessages (rows : List Message) (limit : ℕ) : List Message := rows.reverse.take limit

/-- The rows of a window in the order of creation. -/
def chronological (rows : List Message) (window : ℕ) : List Message :=
  (listMessages rows window).reverse

def isOwnSummary (reader : AgentId) (metadata : Metadata) : Bool :=
  isCompactSummary metadata && decide (summaryProducer metadata = some reader)

/-- The rows that the reader's own summaries have folded. -/
def compacted (reader : AgentId) (rows : List Message) : List MessageId :=
  rows.flatMap fun m => if isOwnSummary reader m.metadata then compactedIds m.metadata else []

/-- The reader's own summaries. -/
def summaries (reader : AgentId) (rows : List Message) : List Message :=
  rows.filter fun m => isOwnSummary reader m.metadata

/-- The rows that are no summaries and are not folded. -/
def survivors (reader : AgentId) (rows : List Message) : List Message :=
  rows.filter fun m => !isCompactSummary m.metadata && decide (m.id ∉ compacted reader rows)

def loadModelHistory (rows : List Message) (forAgentId : AgentId) (window : ℕ) :
    List HistoryMessage :=
  (summaries forAgentId (chronological rows window)).map toHistory ++
    (survivors forAgentId (chronological rows window)).map toHistory

/-- `DEFAULT_HISTORY_WINDOW`. -/
def defaultHistoryWindow : ℕ := 500

/-- An id that no row has. -/
def freshId (rows : List Message) : MessageId := (rows.map Message.id).foldr max 0 + 1

def insertMessage (rows : List Message) (senderType : SenderType) (senderId : Option SenderId)
    (metadata : Metadata) (tokenCount createdAt : ℕ) : List Message :=
  rows ++ [⟨freshId rows, senderType, senderId, metadata, tokenCount, createdAt⟩]

/-- `replace_range_with_summary`. -/
def replaceRangeWithSummary (rows : List Message) (agentId : AgentId)
    (messageIds : List MessageId) (tokenCount createdAt : ℕ) : List Message :=
  insertMessage rows .system none (summaryMetadata messageIds agentId) tokenCount createdAt

/-! ## The window -/

variable {m : Message}

section Window

variable (rows : List Message) (window : ℕ)

theorem chronological_eq_rtake : chronological rows window = rows.rtake window := by
  rw [chronological, listMessages, rtake_eq_reverse_take_reverse]

theorem chronological_suffix : chronological rows window <:+ rows := by
  rw [chronological_eq_rtake]
  exact drop_suffix _ _

/-- A row more shifts the window by one. -/
theorem chronological_concat (rows : List Message) (m : Message) (window : ℕ) :
    chronological (rows ++ [m]) (window + 1) = chronological rows window ++ [m] := by
  simp only [chronological_eq_rtake, rtake_concat_succ]

/-- A larger window has one row more in front, or is no larger. -/
theorem chronological_succ :
    chronological rows (window + 1) = chronological rows window ∨
      ∃ m, chronological rows (window + 1) = m :: chronological rows window := by
  simp only [chronological_eq_rtake, List.rtake]
  rcases Nat.lt_or_ge window rows.length with hlt | hge
  · have hidx : rows.length - (window + 1) < rows.length := by omega
    refine .inr ⟨rows[rows.length - (window + 1)], ?_⟩
    rw [drop_eq_getElem_cons hidx]
    congr 2
    omega
  · refine .inl ?_
    congr 1
    omega

theorem chronological_subset_succ :
    chronological rows window ⊆ chronological rows (window + 1) := by
  rcases chronological_succ rows window with heq | ⟨m, heq⟩
  · rw [heq]
    exact List.Subset.refl _
  · rw [heq]
    exact subset_cons_self m _

variable {rows window}

theorem chronological_subset {window' : ℕ} (h : window ≤ window') :
    chronological rows window ⊆ chronological rows window' := by
  induction h with
  | refl => exact List.Subset.refl _
  | step _ ih => exact List.Subset.trans ih (chronological_subset_succ rows _)

theorem mem_of_mem_chronological (h : m ∈ chronological rows window) : m ∈ rows :=
  (chronological_suffix rows window).subset h

theorem lt_freshId (h : m ∈ rows) : m.id < freshId rows := by
  have hle : m.id ≤ (rows.map Message.id).foldr max 0 := by
    induction rows with
    | nil => cases h
    | cons x xs ih =>
      rcases mem_cons.mp h with rfl | h
      · exact le_max_left _ _
      · exact (ih h).trans (le_max_right _ _)
  exact Nat.lt_succ_of_le hle

end Window

/-! ## What is shown -/

section Shown

variable {reader : AgentId} {rows : List Message} {h : HistoryMessage}

@[simp] theorem id_toHistory (m : Message) : (toHistory m).id = m.id := rfl

@[simp] theorem metadata_toHistory (m : Message) : (toHistory m).metadata = m.metadata := rfl

@[simp] theorem tokenCount_toHistory (m : Message) : (toHistory m).tokenCount = m.tokenCount := rfl

theorem mem_compacted {c : MessageId} :
    c ∈ compacted reader rows ↔ ∃ m ∈ summaries reader rows, c ∈ compactedIds m.metadata := by
  simp only [compacted, summaries, mem_flatMap, mem_filter]
  constructor
  · rintro ⟨m, hm, hc⟩
    split at hc
    · rename_i hown
      exact ⟨m, ⟨hm, hown⟩, hc⟩
    · cases hc
  · rintro ⟨m, ⟨hm, hown⟩, hc⟩
    exact ⟨m, hm, by rwa [if_pos hown]⟩

theorem compacted_append (rows rows' : List Message) :
    compacted reader (rows ++ rows') = compacted reader rows ++ compacted reader rows' :=
  flatMap_append

theorem compacted_subset {rows' : List Message} (hsub : rows ⊆ rows') :
    compacted reader rows ⊆ compacted reader rows' := by
  intro c hc
  obtain ⟨m, hm, hmem⟩ := mem_compacted.mp hc
  obtain ⟨hrow, hown⟩ := mem_filter.mp hm
  exact mem_compacted.mpr ⟨m, mem_filter.mpr ⟨hsub hrow, hown⟩, hmem⟩

theorem mem_survivors : m ∈ survivors reader rows ↔
    m ∈ rows ∧ isCompactSummary m.metadata = false ∧ m.id ∉ compacted reader rows := by
  simp [survivors, mem_filter]

theorem isCompactSummary_of_mem_summaries (h : m ∈ summaries reader rows) :
    isCompactSummary m.metadata = true := by
  simp only [summaries, mem_filter, isOwnSummary, Bool.and_eq_true] at h
  exact h.2.1

theorem isCompactSummary_of_mem_survivors (h : m ∈ survivors reader rows) :
    isCompactSummary m.metadata = false := (mem_survivors.mp h).2.1

theorem isCompactSummary_own (hh : h ∈ (summaries reader rows).map toHistory) :
    isCompactSummary h.metadata = true := by
  obtain ⟨m, hm, rfl⟩ := mem_map.mp hh
  exact isCompactSummary_of_mem_summaries hm

theorem isCompactSummary_rest (hh : h ∈ (survivors reader rows).map toHistory) :
    isCompactSummary h.metadata = false := by
  obtain ⟨m, hm, rfl⟩ := mem_map.mp hh
  exact isCompactSummary_of_mem_survivors hm

/-- The rows of a history that are no summaries are the survivors. -/
theorem filter_loadModelHistory (rows : List Message) (reader : AgentId) (window : ℕ) :
    ((loadModelHistory rows reader window).filter fun h => !isCompactSummary h.metadata) =
      (survivors reader (chronological rows window)).map toHistory := by
  rw [loadModelHistory, filter_append, filter_eq_nil_iff.mpr, filter_eq_self.mpr, nil_append]
  · intro h hh
    simp [isCompactSummary_rest hh]
  · intro h hh
    simp [isCompactSummary_own hh]

/-- The summaries of a history are the reader's own. -/
theorem filter_loadModelHistory_summaries (rows : List Message) (reader : AgentId)
    (window : ℕ) :
    ((loadModelHistory rows reader window).filter fun h => isCompactSummary h.metadata) =
      (summaries reader (chronological rows window)).map toHistory := by
  rw [loadModelHistory, filter_append, filter_eq_self.mpr, filter_eq_nil_iff.mpr, append_nil]
  · intro h hh
    simp [isCompactSummary_rest hh]
  · intro h hh
    exact isCompactSummary_own hh

end Shown

end Smap.Context
