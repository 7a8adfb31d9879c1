import Smap.Context.Compaction

/-!
# Every message once

A room into which messages are posted and in which agents compact, each agent one fold at a time:
a round reads the history, and inserts its summary later.  In between others may post and fold.

What an agent is shown of a window leaves no message out and shows none twice
(`history_covers_once`).  The reason is that a summary is later than what it folds: a window that
still has a folded row has the summary too, so no later round takes the row again.

The messages that are shown as they are form the end of the window, as far as the window is no
larger than the one a round reads.  In a larger one the rows before that window come first, which
no round has seen (`old_rows_survive`).
-/

namespace Smap.Context

open Smap.Reach List Function

structure Room where
  rows : List Message := []
  /-- The range that an agent is about to fold. -/
  folding : AgentId → Option (List MessageId) := fun _ => none

inductive Event where
  | post (senderType : SenderType) (senderId : Option SenderId) (tokenCount createdAt : ℕ)
  /-- A round reads the history and chooses its range. -/
  | beginFold (agentId : AgentId) (projectedTokens : ℕ) (contextTokenCap : Option ℕ)
      (providerContextLimit : ℕ+)
  /-- The round inserts its summary. -/
  | endFold (agentId : AgentId) (tokenCount createdAt : ℕ)
  /-- The round fails. -/
  | abandonFold (agentId : AgentId)

def step (r : Room) : Event → Option Room
  | .post senderType senderId tokenCount createdAt =>
    some { r with rows := insertMessage r.rows senderType senderId .other tokenCount createdAt }
  | .beginFold agentId projected cap limit =>
    match r.folding agentId with
    | some _ => none
    | none =>
      (planCompact (loadModelHistory r.rows agentId defaultHistoryWindow) projected cap
        limit).map fun plan =>
          { r with folding := update r.folding agentId (some plan.messageIds) }
  | .endFold agentId tokenCount createdAt =>
    (r.folding agentId).map fun ids =>
      { rows := replaceRangeWithSummary r.rows agentId ids tokenCount createdAt
        folding := update r.folding agentId none }
  | .abandonFold agentId =>
    some { r with folding := update r.folding agentId none }

def run : List Event → Room → Option Room
  | [], r => some r
  | e :: es, r => (step r e).bind (run es)

/-! ## Rows in the order of creation -/

variable {window : ℕ} {m : Message}

section Order

variable {rows : List Message}

/-- The rows are in the order of their ids. -/
def Ordered (rows : List Message) : Prop := rows.Pairwise fun m m' => m.id < m'.id

variable (h : Ordered rows)

include h

theorem Ordered.concat (m : Message) (hm : m.id = freshId rows) : Ordered (rows ++ [m]) := by
  refine pairwise_append.mpr ⟨h, pairwise_singleton _ _, fun x hx y hy => ?_⟩
  rw [mem_singleton.mp hy, hm]
  exact lt_freshId hx

theorem Ordered.nodup : (rows.map Message.id).Nodup :=
  pairwise_map.mpr (h.imp Nat.ne_of_lt)

theorem Ordered.sublist {rows' : List Message} (hsub : rows'.Sublist rows) :
    Ordered rows' := List.Pairwise.sublist hsub h

variable {m' : Message}

/-- A row later than one of the window is in the window. -/
theorem mem_chronological_of_lt (hm : m ∈ chronological rows window) (hm' : m' ∈ rows)
    (hlt : m.id < m'.id) : m' ∈ chronological rows window := by
  obtain ⟨old, hold⟩ := chronological_suffix rows window
  rw [← hold, mem_append] at hm'
  refine hm'.resolve_left fun hm' => ?_
  rw [← hold] at h
  exact Nat.lt_asymm hlt ((pairwise_append.mp h).2.2 m' hm' m hm)

/-- A prefix of ordered rows has all the rows before one that it has. -/
theorem mem_of_mem_prefix {pre : List Message} (hpre : pre <+: rows) (hm : m ∈ rows)
    (hm' : m' ∈ pre) (hlt : m.id < m'.id) : m ∈ pre := by
  obtain ⟨rest, rfl⟩ := hpre
  refine (mem_append.mp hm).resolve_right fun hm => ?_
  exact Nat.lt_asymm hlt ((pairwise_append.mp h).2.2 m' hm' m hm)

end Order

/-! ## The folds of an agent -/

/-- The range that the agent is about to fold. -/
def Room.range (r : Room) (a : AgentId) : List MessageId := (r.folding a).getD []

/-- What the folds of agent `a` are like. -/
structure Covered (a : AgentId) (r : Room) : Prop where
  ordered : Ordered r.rows
  /-- A summary is later than what it folds. -/
  older : ∀ s ∈ summaries a r.rows, ∀ c ∈ compactedIds s.metadata, c < s.id
  known : ∀ c ∈ r.range a, c < freshId r.rows
  /-- No row is folded twice. -/
  once : (compacted a r.rows ++ r.range a).Nodup
  /-- In the window of a round, the rows before a folded one are folded. -/
  closed : ∀ m ∈ chronological r.rows defaultHistoryWindow,
    ∀ m' ∈ chronological r.rows defaultHistoryWindow, isCompactSummary m.metadata = false →
    m.id < m'.id → m'.id ∈ compacted a r.rows → m.id ∈ compacted a r.rows
  /-- And they will be when the round ends. -/
  closing : ∀ m ∈ chronological r.rows defaultHistoryWindow,
    ∀ m' ∈ chronological r.rows defaultHistoryWindow, isCompactSummary m.metadata = false →
    m.id < m'.id → m'.id ∈ compacted a r.rows ++ r.range a →
    m.id ∈ compacted a r.rows ++ r.range a

variable {a : AgentId} {r : Room}

section Covered

theorem covered_start (a : AgentId) : Covered a {} where
  ordered := List.Pairwise.nil
  older _ hs := nomatch hs
  known _ hc := nomatch hc
  once := nodup_nil
  closed _ hm := nomatch hm
  closing _ hm := nomatch hm

/-- The rows of the window after a row more. -/
theorem mem_chronological_concat {rows : List Message} {x : Message}
    (hx : x ∈ chronological (rows ++ [m]) defaultHistoryWindow) :
    x ∈ chronological rows defaultHistoryWindow ∨ x = m := by
  have hshift : chronological (rows ++ [m]) defaultHistoryWindow =
      chronological rows 499 ++ [m] := chronological_concat rows m 499
  rw [hshift, mem_append, mem_singleton] at hx
  exact hx.imp_left fun hx => chronological_subset_succ rows 499 hx

variable (h : Covered a r)

include h

/-- What is folded is older than any row to come. -/
theorem Covered.lt_fresh {c : MessageId} (hc : c ∈ compacted a r.rows) : c < freshId r.rows := by
  obtain ⟨s, hs, hmem⟩ := mem_compacted.mp hc
  exact (h.older s hs c hmem).trans (lt_freshId (mem_of_mem_filter hs))

variable {r' : Room}

/-- A folded row of a window is folded by a summary of the window. -/
theorem Covered.mem_compacted_window (hm : m ∈ chronological r.rows window)
    (hc : m.id ∈ compacted a r.rows) : m.id ∈ compacted a (chronological r.rows window) := by
  obtain ⟨s, hs, hmem⟩ := mem_compacted.mp hc
  obtain ⟨hrow, hown⟩ := mem_filter.mp hs
  refine mem_compacted.mpr ⟨s, mem_filter.mpr ⟨?_, hown⟩, hmem⟩
  exact mem_chronological_of_lt h.ordered hm hrow (h.older s hs m.id hmem)

/-- A row more, which is no summary of the agent or is the one that folds its range. -/
theorem Covered.concat (hm : m.id = freshId r.rows) (hrows : r'.rows = r.rows ++ [m])
    (hrange : compacted a [m] ++ r'.range a = r.range a)
    (hfolds : compacted a [m] = [] ∨ compacted a [m] = r.range a) : Covered a r' := by
  have htotal : compacted a r'.rows ++ r'.range a = compacted a r.rows ++ r.range a := by
    rw [hrows, compacted_append, append_assoc, hrange]
  have hlt {c : MessageId} (hc : c ∈ compacted a r.rows ++ r.range a) : c < m.id := by
    rw [hm]
    exact (mem_append.mp hc).elim h.lt_fresh (h.known c)
  -- the new row is neither folded nor before any other
  have hwindow {P : List MessageId} (hP : P ⊆ compacted a r.rows ++ r.range a) {m₁ m₂ : Message}
      (h₁ : m₁ ∈ chronological r'.rows defaultHistoryWindow)
      (h₂ : m₂ ∈ chronological r'.rows defaultHistoryWindow) (hlt₁₂ : m₁.id < m₂.id)
      (hfolded : m₂.id ∈ P) : m₁ ∈ chronological r.rows defaultHistoryWindow ∧
        m₂ ∈ chronological r.rows defaultHistoryWindow := by
    rw [hrows] at h₁ h₂
    rcases mem_chronological_concat h₂ with hold₂ | rfl
    · rcases mem_chronological_concat h₁ with hold₁ | rfl
      · exact ⟨hold₁, hold₂⟩
      · rw [hm] at hlt₁₂
        exact absurd (lt_freshId (mem_of_mem_chronological hold₂)) (Nat.lt_asymm hlt₁₂)
    · exact absurd (hlt (hP hfolded)) (Nat.lt_irrefl _)
  refine ⟨?_, fun s hs c hc => ?_, fun c hc => ?_, ?_, ?_, ?_⟩
  · rw [hrows]
    exact h.ordered.concat m hm
  · rw [hrows, summaries, filter_append, mem_append] at hs
    rcases hs with hs | hs
    · exact h.older s hs c hc
    · obtain rfl := mem_singleton.mp (mem_of_mem_filter hs)
      refine hlt (mem_append_right _ ?_)
      rw [← hrange]
      exact mem_append_left _ (mem_compacted.mpr ⟨s, hs, hc⟩)
  · have hmem : c ∈ r.range a := hrange ▸ mem_append_right _ hc
    exact (hlt (mem_append_right _ hmem)).trans (lt_freshId (by simp [hrows]))
  · rw [htotal]
    exact h.once
  · intro m₁ h₁ m₂ h₂ hplain hlt₁₂ hfolded
    have hsub : compacted a r'.rows ⊆ compacted a r.rows ++ r.range a := by
      rw [← htotal]
      exact subset_append_left _ _
    obtain ⟨h₁, h₂⟩ := hwindow hsub h₁ h₂ hlt₁₂ hfolded
    rw [hrows, compacted_append] at hfolded ⊢
    rcases hfolds with hnil | hall
    · rw [hnil, append_nil] at hfolded ⊢
      exact h.closed m₁ h₁ m₂ h₂ hplain hlt₁₂ hfolded
    · rw [hall] at hfolded ⊢
      exact h.closing m₁ h₁ m₂ h₂ hplain hlt₁₂ hfolded
  · intro m₁ h₁ m₂ h₂ hplain hlt₁₂ hfolded
    rw [htotal] at hfolded ⊢
    obtain ⟨h₁, h₂⟩ := hwindow (List.Subset.refl _) h₁ h₂ hlt₁₂ hfolded
    exact h.closing m₁ h₁ m₂ h₂ hplain hlt₁₂ hfolded

/-- The round of another agent, or a round that fails, takes nothing. -/
theorem Covered.of_rows_eq (hrows : r'.rows = r.rows)
    (hrange : r'.range a = [] ∨ r'.range a = r.range a) : Covered a r' := by
  rcases hrange with hnil | hsame
  · refine ⟨hrows ▸ h.ordered, hrows ▸ h.older, by simp [hnil], ?_, hrows ▸ h.closed, ?_⟩
    · rw [hnil, append_nil, hrows]
      exact (nodup_append.mp h.once).1
    · rw [hnil, append_nil, hrows]
      exact h.closed
  · refine ⟨hrows ▸ h.ordered, hrows ▸ h.older, ?_, ?_, hrows ▸ h.closed, ?_⟩
    · rw [hsame, hrows]
      exact h.known
    · rw [hsame, hrows]
      exact h.once
    · rw [hsame, hrows]
      exact h.closing

/-- **A round takes rows that no summary of the agent has, and all of them up to its last.** -/
theorem Covered.beginFold {ids : List MessageId} {target : ℕ}
    (hids : ids = (reach Message.tokenCount target
      (survivors a (chronological r.rows defaultHistoryWindow))).map Message.id)
    (hrows : r'.rows = r.rows) (hrange : r'.range a = ids) : Covered a r' := by
  set taken := reach Message.tokenCount target
    (survivors a (chronological r.rows defaultHistoryWindow)) with htaken
  have hpre : taken <+: survivors a (chronological r.rows defaultHistoryWindow) :=
    reach_initial _
  have hordered : Ordered (survivors a (chronological r.rows defaultHistoryWindow)) :=
    h.ordered.sublist (filter_sublist.trans (chronological_suffix _ _).sublist)
  have hfresh {m : Message} (hm : m ∈ taken) : m.id ∉ compacted a r.rows := by
    obtain ⟨hrow, -, hnot⟩ := mem_survivors.mp (hpre.subset hm)
    exact fun hc => hnot (h.mem_compacted_window hrow hc)
  refine ⟨hrows ▸ h.ordered, hrows ▸ h.older, ?_, ?_, hrows ▸ h.closed, ?_⟩
  · rw [hrange, hrows, hids]
    intro c hc
    obtain ⟨m, hm, rfl⟩ := mem_map.mp hc
    exact lt_freshId (mem_of_mem_chronological (mem_survivors.mp (hpre.subset hm)).1)
  · rw [hrange, hrows, hids, nodup_append]
    refine ⟨(nodup_append.mp h.once).1, (hordered.sublist hpre.sublist).nodup, ?_⟩
    intro c hc c' hc' heq
    obtain ⟨m, hm, rfl⟩ := mem_map.mp hc'
    exact hfresh hm (heq ▸ hc)
  · rw [hrange, hrows, hids]
    intro m₁ h₁ m₂ h₂ hplain hlt hfolded
    by_cases hc : m₁.id ∈ compacted a r.rows
    · exact mem_append_left _ hc
    rcases mem_append.mp hfolded with hold | hnew
    · exact absurd (h.closed m₁ h₁ m₂ h₂ hplain hlt hold) hc
    · obtain ⟨m, hm, heq⟩ := mem_map.mp hnew
      refine mem_append_right _ (mem_map_of_mem ?_)
      refine mem_of_mem_prefix hordered hpre (mem_survivors.mpr ⟨h₁, hplain, ?_⟩) hm (heq ▸ hlt)
      exact fun hw => hc (compacted_subset (chronological_suffix _ _).subset hw)

theorem Covered.step {e : Event} (hstep : step r e = some r') : Covered a r' := by
  cases e with
  | post =>
    cases hstep
    exact h.concat rfl rfl (by simp [compacted, isOwnSummary, isCompactSummary, Room.range])
      (.inl (by simp [compacted, isOwnSummary, isCompactSummary]))
  | beginFold agentId projected cap limit =>
    simp only [Context.step] at hstep
    split at hstep
    · cases hstep
    obtain ⟨plan, hplan, rfl⟩ := Option.map_eq_some_iff.mp hstep
    by_cases hagent : agentId = a
    · subst hagent
      have hids := planCompact_load r.rows agentId defaultHistoryWindow projected cap limit
      rw [hplan, Option.map_some] at hids
      split at hids
      · exact h.beginFold (Option.some.inj hids) rfl (by simp [Room.range])
      · cases hids
    · refine h.of_rows_eq rfl (.inr ?_)
      simp [Room.range, update_of_ne (Ne.symm hagent)]
  | endFold agentId tokenCount createdAt =>
    obtain ⟨ids, hids, rfl⟩ := Option.map_eq_some_iff.mp hstep
    by_cases hagent : agentId = a
    · subst hagent
      have hfolds : compacted agentId [⟨freshId r.rows, .system, none,
          summaryMetadata ids agentId, tokenCount, createdAt⟩] = r.range agentId := by
        simp [compacted, isOwnSummary, isCompactSummary, summaryMetadata, summaryProducer,
          compactedIds, Room.range, hids]
      exact h.concat rfl rfl (by simpa [Room.range] using hfolds) (.inr hfolds)
    · have hfolds : compacted a [⟨freshId r.rows, .system, none,
          summaryMetadata ids agentId, tokenCount, createdAt⟩] = [] := by
        simp [compacted, isOwnSummary, summaryMetadata, summaryProducer, hagent]
      refine h.concat rfl rfl ?_ (.inl hfolds)
      rw [hfolds, nil_append]
      simp [Room.range, update_of_ne (Ne.symm hagent)]
  | abandonFold agentId =>
    cases hstep
    refine h.of_rows_eq rfl ?_
    by_cases hagent : agentId = a
    · subst hagent
      exact .inl (by simp [Room.range])
    · exact .inr (by simp [Room.range, update_of_ne (Ne.symm hagent)])

theorem Covered.run {es : List Event} (hrun : run es r = some r') : Covered a r' := by
  induction es generalizing r with
  | nil => exact Option.some.inj hrun ▸ h
  | cons e es ih =>
    obtain ⟨r₁, hstep, hrest⟩ := Option.bind_eq_some_iff.mp hrun
    exact ih (h.step hstep) hrest

end Covered

/-! ## What an agent is shown -/

/-- The messages of a history that are shown as they are. -/
def shown (history : List HistoryMessage) : List HistoryMessage :=
  history.filter fun h => !isCompactSummary h.metadata

/-- The ids that the summaries of a history stand for. -/
def summarised (history : List HistoryMessage) : List MessageId :=
  (history.filter fun h => isCompactSummary h.metadata).flatMap fun h => compactedIds h.metadata

/-- The rows of a window that are no summaries. -/
def posted (rows : List Message) (window : ℕ) : List Message :=
  (chronological rows window).filter fun m => !isCompactSummary m.metadata

theorem summarised_load (rows : List Message) (a : AgentId) (window : ℕ) :
    summarised (loadModelHistory rows a window) = compacted a (chronological rows window) := by
  rw [summarised, filter_loadModelHistory_summaries, flatMap_map, compacted, summaries]
  induction chronological rows window with
  | nil => rfl
  | cons =>
    rw [filter_cons, flatMap_cons]
    split <;> simp_all

theorem ids_shown (rows : List Message) (a : AgentId) (window : ℕ) :
    (shown (loadModelHistory rows a window)).map HistoryMessage.id =
      (survivors a (chronological rows window)).map Message.id := by
  rw [shown, filter_loadModelHistory, map_map]
  rfl

/-- A message of the window is shown, or one of the summaries stands for it. -/
theorem Covered.count_eq_one (h : Covered a r) (hm : m ∈ posted r.rows window) :
    ((shown (loadModelHistory r.rows a window)).map HistoryMessage.id ++
      summarised (loadModelHistory r.rows a window)).count m.id = 1 := by
  obtain ⟨hrow, hplain⟩ := mem_filter.mp hm
  have hwindow : Ordered (chronological r.rows window) :=
    h.ordered.sublist (chronological_suffix _ _).sublist
  have hsurvivors : ((survivors a (chronological r.rows window)).map Message.id).Nodup :=
    (hwindow.sublist filter_sublist).nodup
  have hcompacted : (compacted a (chronological r.rows window)).Nodup := by
    obtain ⟨old, hold⟩ := chronological_suffix r.rows window
    have honce := (nodup_append.mp h.once).1
    rw [← hold, compacted_append] at honce
    exact (nodup_append.mp honce).2.1
  rw [ids_shown, summarised_load, count_append, hsurvivors.count, hcompacted.count]
  by_cases hc : m.id ∈ compacted a (chronological r.rows window)
  · rw [if_neg, if_pos hc]
    intro hs
    obtain ⟨m', hm', heq⟩ := mem_map.mp hs
    exact (mem_survivors.mp hm').2.2 (heq ▸ hc)
  · rw [if_pos, if_neg hc]
    exact mem_map_of_mem (mem_survivors.mpr ⟨hrow, by simpa using hplain, hc⟩)

/-- What is shown is the end of the window. -/
theorem Covered.shown_suffix (h : Covered a r) (hwindow : window ≤ defaultHistoryWindow) :
    shown (loadModelHistory r.rows a window) <:+ (posted r.rows window).map toHistory := by
  have hfilter : survivors a (chronological r.rows window) = (posted r.rows window).filter
      fun m => decide (m.id ∉ compacted a (chronological r.rows window)) := by
    rw [posted, filter_filter, survivors]
    simp only [Bool.and_comm]
  rw [shown, filter_loadModelHistory, hfilter]
  refine List.IsSuffix.map _ (filter_suffix_of_pairwise ?_)
  have hordered : Ordered (posted r.rows window) := h.ordered.sublist
    (filter_sublist.trans (chronological_suffix _ _).sublist)
  refine List.Pairwise.imp_of_mem (fun {m₁ m₂} hm₁ hm₂ hlt hnot => ?_) hordered
  obtain ⟨h₁, hplain⟩ := mem_filter.mp hm₁
  have h₂ := mem_of_mem_filter hm₂
  simp only [decide_eq_true_eq] at hnot ⊢
  -- if the later row were folded, so would be the earlier, by a summary of the window
  refine fun hfolded => hnot (h.mem_compacted_window h₁ ?_)
  refine h.closed m₁ (chronological_subset hwindow h₁) m₂ (chronological_subset hwindow h₂)
    (by simpa using hplain) hlt ?_
  exact compacted_subset (chronological_suffix _ _).subset hfolded

/-- **A history covers every message once.**  After any posts and rounds of any agents, each
message of a window is shown to an agent as it is, or one summary that the agent is shown stands
for it, and not both.  The summaries are the agent's own.  In a window no larger than that of a
round, what is shown as it is forms the end of the window. -/
theorem history_covers_once {es : List Event} {r : Room} (hrun : run es {} = some r)
    (a : AgentId) (window : ℕ) :
    (∀ m ∈ posted r.rows window,
      ((shown (loadModelHistory r.rows a window)).map HistoryMessage.id ++
        summarised (loadModelHistory r.rows a window)).count m.id = 1) ∧
    (∀ h ∈ loadModelHistory r.rows a window,
      h ∈ (posted r.rows window).map toHistory ∨
        isCompactSummary h.metadata = true ∧ summaryProducer h.metadata = some a) ∧
    (window ≤ defaultHistoryWindow →
      shown (loadModelHistory r.rows a window) <:+ (posted r.rows window).map toHistory) := by
  have h := (covered_start a).run hrun
  refine ⟨fun m hm => h.count_eq_one hm, fun x hx => ?_, h.shown_suffix⟩
  rcases mem_append.mp hx with hx | hx
  · obtain ⟨m, hm, rfl⟩ := mem_map.mp hx
    simp only [summaries, mem_filter, isOwnSummary, Bool.and_eq_true, decide_eq_true_eq] at hm
    exact .inr hm.2
  · obtain ⟨m, hm, rfl⟩ := mem_map.mp hx
    obtain ⟨hrow, hplain, -⟩ := mem_survivors.mp hm
    exact .inl (mem_map_of_mem (mem_filter.mpr ⟨hrow, by simp [hplain]⟩))

/-- Three messages, and a fold of the oldest. -/
def threeAndFold : List Event :=
  List.replicate 3 (.post .user (some 7) 10 0) ++ [.beginFold 1 15 (some 10) 100, .endFold 1 4 0]

theorem history_covers_once_threeAndFold :
    ∃ r, run threeAndFold {} = some r ∧
    (∀ m ∈ posted r.rows 4,
      ((shown (loadModelHistory r.rows 1 4)).map HistoryMessage.id ++
        summarised (loadModelHistory r.rows 1 4)).count m.id = 1) ∧
    (∀ h ∈ loadModelHistory r.rows 1 4,
      h ∈ (posted r.rows 4).map toHistory ∨
        isCompactSummary h.metadata = true ∧ summaryProducer h.metadata = some 1) ∧
    (4 ≤ defaultHistoryWindow →
      shown (loadModelHistory r.rows 1 4) <:+ (posted r.rows 4).map toHistory) := by
  have hcheck : (run threeAndFold {}).isSome = true := by decide +kernel
  obtain ⟨r, hrun⟩ := Option.isSome_iff_exists.mp hcheck
  exact ⟨r, hrun, history_covers_once hrun 1 4⟩

/-- Messages of one user, and nothing else. -/
def messagesOnly (n : ℕ) : List Message :=
  (List.range n).map fun k => ⟨k + 1, .user, some 7, .other, 10, 0⟩

theorem freshId_messagesOnly (n : ℕ) : freshId (messagesOnly n) = n + 1 := by
  have hfold {l : List ℕ} {b : ℕ} (h : ∀ x ∈ l, x ≤ b) : l.foldr max b = b := by
    induction l with
    | nil => rfl
    | cons x l ih =>
      rw [foldr_cons, ih fun y hy => h y (mem_cons_of_mem x hy)]
      exact max_eq_right (h x mem_cons_self)
  cases n with
  | zero => rfl
  | succ =>
    rw [freshId, messagesOnly, range_succ, map_append, map_append, foldr_append]
    rw [hfold]
    · simp
    · intro x hx
      simp only [mem_map, mem_range] at hx
      obtain ⟨m, ⟨k, hk, rfl⟩, rfl⟩ := hx
      simp only [map_cons, map_nil, foldr_cons, foldr_nil]
      omega

theorem run_append (es es' : List Event) (r : Room) :
    run (es ++ es') r = (run es r).bind (run es') := by
  induction es generalizing r with
  | nil => rfl
  | cons e es ih =>
    rw [cons_append, run, run, Option.bind_assoc]
    congr 1
    funext r
    exact ih r

theorem run_posts (n : ℕ) : run (List.replicate n (.post .user (some 7) 10 0)) {} =
    some { rows := messagesOnly n } := by
  induction n with
  | zero => rfl
  | succ n ih =>
    rw [replicate_succ', run_append, ih]
    simp only [Option.bind_some, run, step, insertMessage, freshId_messagesOnly]
    rw [messagesOnly, messagesOnly, range_succ, map_append]
    rfl

/-- One message more than the window of a round, and a fold. -/
def moreThanWindow : List Event :=
  List.replicate 501 (.post .user (some 7) 10 0) ++
    [.beginFold 1 15 (some 10) 100, .endFold 1 4 0]

/-- The oldest message is shown as it is, though the one after it is folded. -/
theorem old_rows_survive :
    ∃ r, run moreThanWindow {} = some r ∧
      ¬shown (loadModelHistory r.rows 1 1000) <:+ (posted r.rows 1000).map toHistory := by
  rw [moreThanWindow, run_append, run_posts, Option.bind_some]
  decide +kernel

end Smap.Context
