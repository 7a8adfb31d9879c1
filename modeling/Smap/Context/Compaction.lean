import Mathlib.Data.List.Nodup
import Mathlib.Data.PNat.Defs
import Smap.Lib.Reach
import Smap.Context.Transcript

/-!
# One round of compaction

`contexts/agents/application/context.py`, and `_assemble_history` of the turn engine, which loads
the history of an agent and, if the next request would cross the cap, folds the oldest rows of it
into a summary and loads again.

`choose_range_to_compact` takes rows from the oldest on until they hold the tokens to shed, and
all of them if they do not.  What is to be shed is measured on the whole request, with all that
is not history, so it can exceed what the history holds; then the newest row is folded too, and
with it the message that the turn was to answer (`answer_folded`).  `answered_message_survives_iff`
says exactly when it is not.

Between the loads nobody else writes.  The claim of a forced `/compact` and its release are left
out, and so are audits and the beacon.
-/

namespace Smap.Context

open Smap.Reach List Message

/-! ## The range -/

structure CompactPlan where
  messageIds : List MessageId
  totalTokens : ℕ

/-- `default_cap_from_limit`; the limit of a provider is positive. -/
def defaultCapFromLimit (providerContextLimit : ℕ+) : ℕ := providerContextLimit * 3 / 4

/-- The cap of an agent, or the default. -/
def capOf (contextTokenCap : Option ℕ) (providerContextLimit : ℕ+) : ℕ :=
  contextTokenCap.getD (defaultCapFromLimit providerContextLimit)

inductive ContextMode where
  | general
  | compact
  deriving DecidableEq

def shouldCompact (mode : ContextMode) (projectedTokens : ℕ) (contextTokenCap : Option ℕ)
    (providerContextLimit : ℕ+) : Bool :=
  decide (mode = .compact) &&
    decide (capOf contextTokenCap providerContextLimit < projectedTokens)

/-- The loop of `choose_range_to_compact`. -/
def chooseLoop (target : ℕ) :
    List HistoryMessage → List MessageId → ℕ → Bool → List MessageId × ℕ
  | [], picked, running, _ => (picked, running)
  | msg :: messages, picked, running, started =>
    if isCompactSummary msg.metadata then
      if started then (picked, running) else chooseLoop target messages picked running started
    else
      let picked := picked ++ [msg.id]
      let running := running + msg.tokenCount
      if target ≤ running then (picked, running)
      else chooseLoop target messages picked running true

def chooseRangeToCompact (messages : List HistoryMessage) (targetTokensToShed : ℕ) :
    Option CompactPlan :=
  if targetTokensToShed = 0 then none
  else
    let (picked, running) := chooseLoop targetTokensToShed messages [] 0 false
    if picked.isEmpty then none else some ⟨picked, running⟩

/-- What a summariser returns. -/
structure Summary where
  /-- Nothing but whitespace. -/
  blank : Bool
  tokenCount : ℕ

/-- A summariser, which may raise. -/
abbrev Summariser := List HistoryMessage → Option Summary

/-- The range that a round folds, if it folds. -/
def planCompact (messages : List HistoryMessage) (projectedTokens : ℕ)
    (contextTokenCap : Option ℕ) (providerContextLimit : ℕ+) : Option CompactPlan :=
  if shouldCompact .compact projectedTokens contextTokenCap providerContextLimit then
    chooseRangeToCompact messages
      (max (projectedTokens - capOf contextTokenCap providerContextLimit) 1)
  else none

inductive Round where
  /-- `CompactFailed`. -/
  | failed
  /-- There was nothing to fold. -/
  | unneeded
  /-- The range and its summary. -/
  | folded (messageIds : List MessageId) (summary : Summary)

def runCompact (messages : List HistoryMessage) (projectedTokens : ℕ)
    (contextTokenCap : Option ℕ) (providerContextLimit : ℕ+) (summariser : Summariser) : Round :=
  match planCompact messages projectedTokens contextTokenCap providerContextLimit with
  | none => .unneeded
  | some plan =>
    match summariser (messages.filter fun m => decide (m.id ∈ plan.messageIds)) with
    | none => .failed
    | some summary => if summary.blank then .failed else .folded plan.messageIds summary

/-! ## The history of a turn -/

/-- The rows that become provider messages. -/
def streamRows (history : List HistoryMessage) : List HistoryMessage :=
  history.filter fun h => decide (h.role ≠ .system)

/-- `_GAP_NOTICE_MIN_SECONDS`. -/
def gapNoticeMinSeconds : ℕ := 60

/-- `_GAP_NOTICE_TOKENS`. -/
def tokensPerGapNotice : ℕ := 15

/-- `CODE_PREFIX_TOKENS`. -/
def tokensPerCodePrefix : ℕ := 3

def gapNoticeTokens (rows : List HistoryMessage) : ℕ :=
  (rows.zip rows.tail).countP
    (fun (prev, cur) => decide (prev.createdAt + gapNoticeMinSeconds ≤ cur.createdAt)) *
    tokensPerGapNotice

def codePrefixTokens (rows : List HistoryMessage) : ℕ :=
  tokensPerCodePrefix * rows.countP fun h => decide (h.role = .user) && h.senderId.isSome

/-- What the history costs in the next request. -/
def projectedTokens (history : List HistoryMessage) : ℕ :=
  (history.map HistoryMessage.tokenCount).sum + gapNoticeTokens (streamRows history) +
    codePrefixTokens history

structure Agent where
  id : AgentId
  contextMode : ContextMode
  contextTokenCap : Option ℕ

/-- What `_assemble_history` finds besides the rows. -/
structure Setting where
  agent : Agent
  contextLimit : ℕ+
  /-- The tokens of the request that are not history. -/
  extraProjectedTokens : ℕ
  /-- A `/compact` of the room, not yet claimed by the agent. -/
  armed : Bool
  /-- The compaction lock is free. -/
  acquired : Bool
  summariser : Summariser
  now : ℕ

namespace Setting

variable (s : Setting) (rows : List Message)

def history : List HistoryMessage := loadModelHistory rows s.agent.id defaultHistoryWindow

/-- `_consume_compact_flag`; only an agent that compacts claims. -/
def forced : Bool := decide (s.agent.contextMode = .compact) && s.armed

/-- What the round is measured with: half of the projection if it is forced. -/
def cap : Option ℕ :=
  if s.forced then some (max 1 (projectedTokens (s.history rows) / 2)) else s.agent.contextTokenCap

def compactProjected : ℕ :=
  if s.forced then projectedTokens (s.history rows)
  else projectedTokens (s.history rows) + s.extraProjectedTokens

/-- A round is due. -/
def due : Bool :=
  s.forced || shouldCompact s.agent.contextMode
    (projectedTokens (s.history rows) + s.extraProjectedTokens) s.agent.contextTokenCap
    s.contextLimit

end Setting

def assembleHistory (s : Setting) (rows : List Message) : List HistoryMessage × List Message :=
  if s.due rows && s.acquired then
    match runCompact (s.history rows) (s.compactProjected rows) (s.cap rows) s.contextLimit
        s.summariser with
    | .failed | .unneeded => (s.history rows, rows)
    | .folded messageIds summary =>
      let rows' := replaceRangeWithSummary rows s.agent.id messageIds summary.tokenCount s.now
      (s.history rows', rows')
  else (s.history rows, rows)

/-- The turn ends as `no_input`: it has no row to send, no input and no notice. -/
def noInput (history : List HistoryMessage) (inputText platformNotice : Option String) : Bool :=
  (streamRows history).isEmpty && inputText.all String.isEmpty &&
    platformNotice.all String.isEmpty

/-! ## What a round folds -/

section Range

variable {target : ℕ} {own rest : List HistoryMessage}

/-- Over rows that are no summaries, the loop takes the shortest range that reaches the target. -/
theorem chooseLoop_rest (hrest : ∀ h ∈ rest, isCompactSummary h.metadata = false)
    (picked : List MessageId) (running : ℕ) (started : Bool) (hrunning : running < target) :
    (chooseLoop target rest picked running started).1 =
      picked ++
        (reach HistoryMessage.tokenCount (target - running) rest).map HistoryMessage.id := by
  induction rest generalizing picked running started with
  | nil => simp [chooseLoop, reach]
  | cons h rest ih =>
    rw [chooseLoop, if_neg (by simp [hrest h mem_cons_self]), reach]
    by_cases hreach : target ≤ running + h.tokenCount
    · rw [if_pos hreach, if_pos (by omega)]
      rfl
    · have htail : ∀ h ∈ rest, isCompactSummary h.metadata = false :=
        fun h hh => hrest h (mem_cons_of_mem _ hh)
      rw [if_neg hreach, if_neg (by omega), ih htail _ _ _ (by omega)]
      simp [Nat.sub_sub]

variable (hown : ∀ h ∈ own, isCompactSummary h.metadata = true)

include hown

/-- Summaries in front are passed over. -/
theorem chooseLoop_own (picked : List MessageId) (running : ℕ) :
    chooseLoop target (own ++ rest) picked running false =
      chooseLoop target rest picked running false := by
  induction own with
  | nil => rfl
  | cons h own ih =>
    rw [cons_append, chooseLoop, if_pos (hown h mem_cons_self), if_neg Bool.false_ne_true]
    exact ih fun h hh => hown h (mem_cons_of_mem _ hh)

/-- **The range** of a history: the shortest one that reaches the target, from the oldest row on
that is no summary. -/
theorem chooseRangeToCompact_eq (hrest : ∀ h ∈ rest, isCompactSummary h.metadata = false)
    (hpos : 0 < target) :
    (chooseRangeToCompact (own ++ rest) target).map CompactPlan.messageIds =
      if rest = [] then none
      else some ((reach HistoryMessage.tokenCount target rest).map HistoryMessage.id) := by
  have hloop := chooseLoop_rest hrest [] 0 false hpos
  simp only [chooseRangeToCompact, if_neg (Nat.pos_iff_ne_zero.mp hpos), chooseLoop_own hown, hloop]
  by_cases hnil : rest = []
  · simp [hnil, reach]
  · have hne : reach HistoryMessage.tokenCount target rest ≠ [] := reach_ne_nil hnil
    simp [hnil, hne]

omit hown in
/-- **The plan of a round** takes the survivors from the oldest on, until they hold the tokens
that are over the cap. -/
theorem planCompact_load (rows : List Message) (a : AgentId) (window projected : ℕ)
    (cap : Option ℕ) (limit : ℕ+) :
    (planCompact (loadModelHistory rows a window) projected cap limit).map CompactPlan.messageIds =
      if capOf cap limit < projected ∧ survivors a (chronological rows window) ≠ [] then
        some ((reach tokenCount (max (projected - capOf cap limit) 1)
          (survivors a (chronological rows window))).map Message.id)
      else none := by
  have hown : ∀ h ∈ (summaries a (chronological rows window)).map toHistory,
      isCompactSummary h.metadata = true := fun _ => isCompactSummary_own
  have hrest : ∀ h ∈ (survivors a (chronological rows window)).map toHistory,
      isCompactSummary h.metadata = false := fun _ => isCompactSummary_rest
  have hchoose := chooseRangeToCompact_eq hown hrest
    (Nat.lt_of_lt_of_le Nat.one_pos (le_max_right (projected - capOf cap limit) 1))
  by_cases hcap : capOf cap limit < projected
  · have hshould : shouldCompact .compact projected cap limit = true := by
      simp [shouldCompact, hcap]
    rw [planCompact, if_pos hshould, loadModelHistory, hchoose, reach_map, map_map]
    by_cases hnil : survivors a (chronological rows window) = []
    · simp [hnil]
    · simp only [map_eq_nil_iff, hnil, if_false, hcap, ne_eq, not_false_eq_true, and_self, if_true]
      rfl
  · have hshould : ¬shouldCompact .compact projected cap limit = true := by
      simpa [shouldCompact] using Nat.not_lt.mp hcap
    rw [planCompact, if_neg hshould, if_neg (fun h => hcap h.1)]
    rfl

end Range

/-! ## The message that is answered -/

namespace Setting

variable (s : Setting) (rows : List Message)

/-- The tokens that a round has to shed. -/
def target : ℕ := max (s.compactProjected rows - capOf (s.cap rows) s.contextLimit) 1

/-- If a round runs over these rows, `before` being those before the newest, then those hold the
tokens that it has to shed. -/
def Spares (before : List HistoryMessage) (newest : HistoryMessage) : Prop :=
  s.due rows = true → s.acquired = true →
    capOf (s.cap rows) s.contextLimit < s.compactProjected rows →
    (∃ summary, s.summariser (before ++ [newest]) = some summary ∧ summary.blank = false) →
    s.target rows ≤ (before.map HistoryMessage.tokenCount).sum

end Setting

section Survival

variable {s : Setting} {rows : List Message} {before : List Message} {u : Message}

/-- The plan of a round over what is loaded. -/
theorem planCompact_history
    (hsurvivors : survivors s.agent.id (chronological rows defaultHistoryWindow) = before ++ [u])
    (hcap : capOf (s.cap rows) s.contextLimit < s.compactProjected rows) :
    (planCompact (s.history rows) (s.compactProjected rows) (s.cap rows) s.contextLimit).map
        CompactPlan.messageIds =
      some ((reach tokenCount (s.target rows) (before ++ [u])).map Message.id) := by
  rw [Setting.history, planCompact_load, hsurvivors, if_pos ⟨hcap, by simp⟩]
  rfl

/-- What the next window holds: the rows of this one but the oldest, and the new one. -/
theorem chronological_replaceRange (ids : List MessageId) (tokens : ℕ) :
    chronological (replaceRangeWithSummary rows s.agent.id ids tokens s.now) defaultHistoryWindow =
      chronological rows 499 ++
        [⟨freshId rows, .system, none, summaryMetadata ids s.agent.id, tokens, s.now⟩] :=
  chronological_concat rows _ 499

theorem compacted_replaceRange (ids : List MessageId) (tokens : ℕ) :
    compacted s.agent.id (chronological
        (replaceRangeWithSummary rows s.agent.id ids tokens s.now) defaultHistoryWindow) =
      compacted s.agent.id (chronological rows 499) ++ ids := by
  rw [chronological_replaceRange, compacted_append]
  simp [compacted, isOwnSummary, isCompactSummary, summaryMetadata, summaryProducer, compactedIds]

variable {ids : List MessageId} {plan : CompactPlan}

/-- A row that is not folded is still there after the round, if it is not the oldest. -/
theorem mem_history_of_not_folded
    (hsurvivors : survivors s.agent.id (chronological rows defaultHistoryWindow) = before ++ [u])
    (hbefore : before ≠ []) (hu : u.id ∉ ids) (tokens : ℕ) :
    toHistory u ∈ s.history (replaceRangeWithSummary rows s.agent.id ids tokens s.now) := by
  have hsurvivor : u ∈ survivors s.agent.id (chronological rows defaultHistoryWindow) := by
    simp [hsurvivors]
  obtain ⟨-, hplain, hcompacted⟩ := mem_survivors.mp hsurvivor
  -- a row before it is in the window, so it stays in when the window shifts
  have hwindow : u ∈ chronological rows 499 := by
    rcases chronological_succ rows 499 with heq | ⟨m, heq⟩
    · exact heq ▸ (mem_survivors.mp hsurvivor).1
    have hfilter := hsurvivors
    rw [survivors, defaultHistoryWindow, heq, filter_cons] at hfilter
    split at hfilter
    · obtain ⟨b, rest, rfl⟩ := exists_cons_of_ne_nil hbefore
      rw [cons_append] at hfilter
      have hmem : u ∈ rest ++ [u] := by simp
      rw [← (List.cons.inj hfilter).2] at hmem
      exact mem_of_mem_filter hmem
    · have hmem : u ∈ before ++ [u] := by simp
      rw [← hfilter] at hmem
      exact mem_of_mem_filter hmem
  refine mem_append_right _ (mem_map_of_mem (mem_survivors.mpr ⟨?_, hplain, ?_⟩))
  · rw [chronological_replaceRange]
    exact mem_append_left _ hwindow
  · rw [compacted_replaceRange, mem_append]
    rintro (hmem | hmem)
    · exact hcompacted (compacted_subset (chronological_subset_succ rows 499) hmem)
    · exact hu hmem

/-- A row that is folded is not sent any more. -/
theorem not_mem_streamRows_of_folded (hu : u.id ∈ ids) (hrole : (toHistory u).role = .user)
    (tokens : ℕ) : toHistory u ∉
      streamRows (s.history (replaceRangeWithSummary rows s.agent.id ids tokens s.now)) := by
  intro hmem
  obtain ⟨hhistory, -⟩ := mem_filter.mp hmem
  rcases mem_append.mp hhistory with hown | hrest
  · have hsummary := isCompactSummary_own hown
    rw [metadata_toHistory] at hsummary
    simp [toHistory, hsummary] at hrole
  · obtain ⟨m, hm, heq⟩ := mem_map.mp hrest
    refine (mem_survivors.mp hm).2.2 ?_
    rw [compacted_replaceRange, show m.id = u.id from congrArg HistoryMessage.id heq]
    exact mem_append_right _ hu

theorem mem_streamRows {h : HistoryMessage} {history : List HistoryMessage} (hh : h ∈ history)
    (hrole : h.role = .user) : h ∈ streamRows history :=
  mem_filter.mpr ⟨hh, by simp [hrole]⟩

/-- A round that folds this plan. -/
structure Folds (s : Setting) (rows : List Message) (plan : CompactPlan) (summary : Summary) :
    Prop where
  due : s.due rows = true
  acquired : s.acquired = true
  planned : planCompact (s.history rows) (s.compactProjected rows) (s.cap rows) s.contextLimit =
    some plan
  summarised : s.summariser ((s.history rows).filter fun m => decide (m.id ∈ plan.messageIds)) =
    some summary
  nonblank : summary.blank = false

theorem Folds.history_eq {summary : Summary} (h : Folds s rows plan summary) :
    (assembleHistory s rows).1 = s.history (replaceRangeWithSummary rows s.agent.id
      plan.messageIds summary.tokenCount s.now) := by
  simp [assembleHistory, h.due, h.acquired, runCompact, h.planned, h.summarised, h.nonblank]

/-- A turn is shown what was loaded, or a round has folded its plan. -/
theorem assembleHistory_cases (s : Setting) (rows : List Message) :
    (assembleHistory s rows).1 = s.history rows ∨ ∃ plan summary, Folds s rows plan summary := by
  by_cases hrun : (s.due rows && s.acquired) = true
  · obtain ⟨hdue, hacquired⟩ := Bool.and_eq_true_iff.mp hrun
    cases hplan : planCompact (s.history rows) (s.compactProjected rows) (s.cap rows)
        s.contextLimit with
    | none => exact .inl (by simp [assembleHistory, hrun, runCompact, hplan])
    | some plan =>
      cases hsummary : s.summariser
          ((s.history rows).filter fun m => decide (m.id ∈ plan.messageIds)) with
      | none => exact .inl (by simp [assembleHistory, hrun, runCompact, hplan, hsummary])
      | some summary =>
        cases hblank : summary.blank with
        | true =>
          exact .inl (by simp [assembleHistory, hrun, runCompact, hplan, hsummary, hblank])
        | false => exact .inr ⟨plan, summary, hdue, hacquired, hplan, hsummary, hblank⟩
  · exact .inl (by simp [assembleHistory, hrun])

variable
  (hplan : planCompact (s.history rows) (s.compactProjected rows) (s.cap rows) s.contextLimit =
    some plan)

include hplan

theorem cap_lt_of_plan : capOf (s.cap rows) s.contextLimit < s.compactProjected rows := by
  unfold planCompact at hplan
  split at hplan
  · rename_i hshould
    simpa [shouldCompact] using hshould
  · cases hplan

variable (hids : (rows.map Message.id).Nodup)

include hids

omit hplan in
/-- Rows are told apart by their ids. -/
theorem eq_of_id_eq {m m' : Message} (hm : m ∈ rows) (hm' : m' ∈ rows) (heq : m.id = m'.id) :
    m = m' :=
  inj_on_of_nodup_map hids hm hm' heq

omit hplan in
/-- The rows of a range that takes everything. -/
theorem filter_history_all :
    ((s.history rows).filter fun h => decide (h.id ∈
        (survivors s.agent.id (chronological rows defaultHistoryWindow)).map Message.id)) =
      (survivors s.agent.id (chronological rows defaultHistoryWindow)).map toHistory := by
  rw [Setting.history, loadModelHistory, filter_append, filter_eq_nil_iff.mpr,
    filter_eq_self.mpr, nil_append]
  · intro h hh
    obtain ⟨m, hm, rfl⟩ := mem_map.mp hh
    simpa using ⟨m, hm, rfl⟩
  · intro h hh
    obtain ⟨m, hm, rfl⟩ := mem_map.mp hh
    simp only [id_toHistory, mem_map, decide_eq_true_eq, not_exists, not_and]
    intro m' hm' heq
    have hrow : m ∈ rows := mem_of_mem_chronological (mem_of_mem_filter hm)
    have hrow' : m' ∈ rows := mem_of_mem_chronological (mem_of_mem_filter hm')
    have hsummary := isCompactSummary_of_mem_summaries hm
    rw [← eq_of_id_eq hids hrow' hrow heq, isCompactSummary_of_mem_survivors hm'] at hsummary
    cases hsummary

/-- The newest row is in the plan exactly if the rows before it do not hold what is to be shed. -/
theorem plan_spares
    (hsurvivors : survivors s.agent.id (chronological rows defaultHistoryWindow) = before ++ [u]) :
    if s.target rows ≤ (before.map tokenCount).sum then u.id ∉ plan.messageIds
    else plan.messageIds = (before ++ [u]).map Message.id := by
  have hmessageIds := planCompact_history hsurvivors (cap_lt_of_plan hplan)
  rw [hplan, Option.map_some, Option.some.injEq] at hmessageIds
  have hpos : 0 < s.target rows := Nat.lt_of_lt_of_le Nat.one_pos (le_max_right _ _)
  split
  · rename_i hle
    rw [hmessageIds, reach_concat_of_le u hle hpos]
    have hnodup : ((before ++ [u]).map Message.id).Nodup := by
      rw [← hsurvivors]
      refine hids.sublist (List.Sublist.map _ ?_)
      exact filter_sublist.trans (chronological_suffix rows defaultHistoryWindow).sublist
    rw [map_append, nodup_append] at hnodup
    intro hmem
    obtain ⟨m, hm, heq⟩ := mem_map.mp hmem
    exact hnodup.2.2 m.id (mem_map_of_mem ((reach_initial before).subset hm)) u.id (by simp) heq
  · rename_i hlt
    rw [hmessageIds, reach_concat_of_lt u (Nat.not_le.mp hlt)]

end Survival

/-- **The message that a turn is to answer** is still sent after `_assemble_history`, exactly if
no round runs or the rows before it hold the tokens that the round has to shed; and then the turn
has input. -/
theorem answered_message_survives_iff {s : Setting} {rows : List Message}
    (hids : (rows.map Message.id).Nodup) {before : List HistoryMessage} {newest : HistoryMessage}
    (hnewest : ((s.history rows).filter fun h => !isCompactSummary h.metadata) =
      before ++ [newest]) (hrole : newest.role = .user) :
    (newest ∈ streamRows (assembleHistory s rows).1 ↔ s.Spares rows before newest) ∧
      (s.Spares rows before newest →
        ∀ inputText notice, noInput (assembleHistory s rows).1 inputText notice = false) := by
  have hsurvivors : (survivors s.agent.id (chronological rows defaultHistoryWindow)).map toHistory =
      before ++ [newest] := by rw [← filter_loadModelHistory, ← hnewest, Setting.history]
  obtain ⟨bs, us, hsplit, rfl, hus⟩ := map_eq_append_iff.mp hsurvivors
  obtain ⟨u, rfl, rfl⟩ : ∃ u, us = [u] ∧ toHistory u = newest := by
    simpa [map_eq_singleton_iff] using hus
  have hloaded : toHistory u ∈ s.history rows :=
    mem_append_right _ (mem_map_of_mem (by simp [hsplit]))
  have hall : s.summariser ((s.history rows).filter fun h => decide (h.id ∈
      (bs ++ [u]).map Message.id)) = s.summariser (bs.map toHistory ++ [toHistory u]) := by
    rw [← hsplit, filter_history_all hids, hsplit]
    simp
  have hmem : toHistory u ∈ streamRows (assembleHistory s rows).1 ↔
      s.Spares rows (bs.map toHistory) (toHistory u) := by
    have hsum : ((bs.map toHistory).map HistoryMessage.tokenCount).sum =
        (bs.map tokenCount).sum := by simp [Function.comp_def]
    constructor
    · intro hsent hdue hacquired hcap ⟨summary, hsummary, hblank⟩
      by_contra hlt
      rw [hsum] at hlt
      -- the round takes everything
      cases hplan : planCompact (s.history rows) (s.compactProjected rows) (s.cap rows)
          s.contextLimit with
      | none => simpa [hplan] using planCompact_history hsplit hcap
      | some plan =>
        have hplan' := plan_spares hplan hids hsplit
        rw [if_neg hlt] at hplan'
        have hfolds : Folds s rows plan summary :=
          ⟨hdue, hacquired, hplan, by rw [hplan', hall, hsummary], hblank⟩
        rw [hfolds.history_eq] at hsent
        exact not_mem_streamRows_of_folded (by simp [hplan']) hrole _ hsent
    · intro hspares
      rcases assembleHistory_cases s rows with heq | ⟨plan, summary, hfolds⟩
      · rw [heq]
        exact mem_streamRows hloaded hrole
      have hplan' := plan_spares hfolds.planned hids hsplit
      by_cases hle : s.target rows ≤ (bs.map tokenCount).sum
      · rw [if_pos hle] at hplan'
        rw [hfolds.history_eq]
        refine mem_streamRows (mem_history_of_not_folded hsplit ?_ hplan' _) hrole
        rintro rfl
        have hpos : 0 < s.target rows := Nat.lt_of_lt_of_le Nat.one_pos (le_max_right _ _)
        simp only [map_nil, sum_nil] at hle
        omega
      · rw [if_neg hle] at hplan'
        refine absurd ?_ hle
        rw [← hsum]
        refine hspares hfolds.due hfolds.acquired (cap_lt_of_plan hfolds.planned)
          ⟨summary, ?_, hfolds.nonblank⟩
        rw [← hall, ← hplan', hfolds.summarised]
  refine ⟨hmem, fun hspares inputText notice => ?_⟩
  have hne := ne_nil_of_mem (hmem.mpr hspares)
  simp [noInput, hne]

/-- An agent that compacts at 4000 tokens, and a request with tokens that are no history. -/
def compacting (extra : ℕ) : Setting where
  agent := ⟨1, .compact, some 4000⟩
  contextLimit := 200000
  extraProjectedTokens := extra
  armed := false
  acquired := true
  summariser _ := some ⟨false, 20⟩
  now := 100

def longMessage : Message := ⟨1, .user, some 7, .other, 900, 0⟩

def question : Message := ⟨2, .user, some 7, .other, 10, 30⟩

theorem answered_message_survives_iff_question :
    toHistory question ∈ streamRows (assembleHistory (compacting 3600) [longMessage, question]).1 ∧
      ((toHistory question ∈
          streamRows (assembleHistory (compacting 3600) [longMessage, question]).1 ↔
        (compacting 3600).Spares [longMessage, question] [toHistory longMessage]
          (toHistory question)) ∧
      ((compacting 3600).Spares [longMessage, question] [toHistory longMessage]
          (toHistory question) →
        ∀ inputText notice, noInput (assembleHistory (compacting 3600) [longMessage, question]).1
          inputText notice = false)) :=
  ⟨by decide +kernel, answered_message_survives_iff (by decide) (by decide +kernel) rfl⟩

/-- A question alone, and a request whose other parts exceed the cap: all of the history is
folded, and the turn ends for want of input. -/
theorem answer_folded :
    (((compacting 4600).history [question]).filter fun h => !isCompactSummary h.metadata) =
        [toHistory question] ∧
      (toHistory question).role = .user ∧
      toHistory question ∉ streamRows (assembleHistory (compacting 4600) [question]).1 ∧
      noInput (assembleHistory (compacting 4600) [question]).1 none none = true := by
  decide +kernel

end Smap.Context
