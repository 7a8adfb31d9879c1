import Mathlib.Data.List.Sort

/-!
# The message cache of a chatroom

`slices/conversation` of the frontend: `mergeMessages.ts`, the page query of
`useChatroomMessages.ts` and the handlers of `useChatroomSocket.ts` that write the cached
messages of one room.  Requests are answered with the state of the server at some moment
between request and arrival.  Of a message its version is kept, and what the merge reads.
A tombstone's timer may fire at any moment.
-/

namespace Smap.Chat

open List Function

structure Message where
  id : String
  createdAt : String
  version : ℕ
  deriving DecidableEq

def pageSize : ℕ := 100

def backfillPageSize : ℕ := 200

/-- `Map.set` on a map from ids to messages. -/
def setMessage (ms : List Message) (m : Message) : List Message :=
  if m.id ∈ ms.map Message.id then ms.map fun x => if x.id = m.id then m else x else ms ++ [m]

/-- The oldest `created_at` of a page. -/
def windowStart (next : List Message) : Option String :=
  next.foldl (fun start m => if start.all (m.createdAt < ·) then some m.createdAt else start) none

/-- `mergeMessages`: the arriving rows win, and a cached row of their window that they lack is
dropped if it was cached when they were requested. -/
def mergeMessages (prev next : List Message) (knownAtRequest : List String) : List Message :=
  let kept := prev.filter fun m => !((windowStart next).any (· ≤ m.createdAt) &&
    m.id ∉ next.map Message.id && m.id ∈ knownAtRequest)
  (next.foldl setMessage (kept.foldl setMessage [])).insertionSort fun a b =>
    a.createdAt < b.createdAt ∨ a.createdAt = b.createdAt ∧ a.id < b.id

/-- The requests that write the cache when they are answered. -/
inductive Request where
  | page (knownAtRequest : List String)
  | reconcile (generation : ℕ) (knownAtRequest : List String)
  | backfill (generation : ℕ) (knownAtRequest : List String)
  | update (messageId : String) (generation : ℕ)

structure Client where
  cache : List Message := []
  deletedTombstones : List String := []
  reconcileGeneration : ℕ := 0
  messageUpdateGeneration : String → Option ℕ := fun _ => none

namespace Client

def setUpdateGeneration (c : Client) (id : String) (generation : Option ℕ) : Client :=
  { c with messageUpdateGeneration := update c.messageUpdateGeneration id generation }

/-- `appendMessages`: only rows the cache lacks. -/
def appendMessages (c : Client) (rows : List Message) : Client :=
  { c with cache := c.cache ++ rows.filter fun m =>
      m.id ∉ c.deletedTombstones && m.id ∉ c.cache.map Message.id }

/-- The refetch after `message.updated`: the row is replaced where it is cached. -/
def replaceMessage (c : Client) : List Message → Client
  | [fresh] => { c with cache := c.cache.map fun m => if m.id = fresh.id then fresh else m }
  | _ => c

/-- The guard a response passes before it is used. -/
def current (c : Client) : Request → Bool
  | .page _ => true
  | .reconcile generation _ | .backfill generation _ => generation == c.reconcileGeneration
  | .update id generation => c.messageUpdateGeneration id == some generation

/-- What a response does to the cache, and the request that follows it. -/
def receive (c : Client) (rows : List Message) : Request → Client × Option Request
  | .page known => ({ c with cache := mergeMessages c.cache rows known }, none)
  | .reconcile generation known =>
    let page := rows.filter fun m => m.id ∉ c.deletedTombstones
    ({ c with cache := mergeMessages c.cache page known },
      if known ≠ [] ∧ pageSize ≤ rows.length ∧ (page.getLast?.any fun m => m.id ∉ known) then
        some (.backfill generation known) else none)
  | .backfill generation known =>
    (c.appendMessages rows,
      if backfillPageSize ≤ rows.length ∧ (rows.getLast?.any fun m => m.id ∉ known) then
        some (.backfill generation known) else none)
  | .update id _ => ((c.replaceMessage rows).setUpdateGeneration id none, none)

/-- A refetch that fails forgets its generation. -/
def settle (c : Client) : Request → Client
  | .update id generation =>
    if c.current (.update id generation) then c.setUpdateGeneration id none else c
  | _ => c

/-- `message.deleted`. -/
def removeMessage (c : Client) (id : String) : Client :=
  { c with deletedTombstones := id :: c.deletedTombstones
           cache := c.cache.filter fun m => m.id ≠ id }

end Client

open Client

/-! ## The server and the room's events -/

/-- The server: a deleted message stays deleted and a version only grows. -/
structure Server where
  deleted : ℕ → String → Prop
  version : ℕ → String → ℕ
  deleted_mono : ∀ {t t' id}, t ≤ t' → deleted t id → deleted t' id
  version_mono : ∀ {t t'} id, t ≤ t' → version t id ≤ version t' id

/-- Rows the server may answer with at a moment. -/
def Server.Answers (server : Server) (t : ℕ) (rows : List Message) : Prop :=
  (rows.map Message.id).Nodup ∧
    ∀ m ∈ rows, ¬ server.deleted t m.id ∧ m.version = server.version t m.id

inductive Event where
  | tick
  | fetchPage (i : ℕ)
  | reconcileMessages (i : ℕ)
  | messageUpdated (i : ℕ) (id : String) (moment : ℕ)
  | messageDeleted (id : String) (moment : ℕ)
  | tombstoneEvicted (id : String)
  | response (i : ℕ) (moment : ℕ) (rows : List Message)
  | failure (i : ℕ)

/-- The client, its requests with the moment they were sent at, the server's clock, the moment of
the last frame, the ids removed by frames, and the latest server moment the cache reflects. -/
structure State where
  client : Client := {}
  requests : ℕ → Option (Request × ℕ) := fun _ => none
  clock : ℕ := 0
  lastFrame : ℕ := 0
  removed : List String := []
  seen : ℕ := 0

open State

namespace State

def send (s : State) (i : ℕ) (r : Request) : State :=
  { s with requests := update s.requests i (some (r, s.clock)) }

def known (s : State) : List String := s.client.cache.map Message.id

def step (s : State) : Event → State
  | .tick => { s with clock := s.clock + 1 }
  | .fetchPage i => s.send i (.page s.known)
  | .reconcileMessages i =>
    let generation := s.client.reconcileGeneration + 1
    { s with client := { s.client with reconcileGeneration := generation } }.send i
      (.reconcile generation s.known)
  | .messageUpdated i id moment =>
    let generation := (s.client.messageUpdateGeneration id).getD 0 + 1
    { s with lastFrame := moment, client := s.client.setUpdateGeneration id (some generation) }.send
      i (.update id generation)
  | .messageDeleted id moment =>
    { s with
      client := s.client.removeMessage id
      lastFrame := moment
      removed := id :: s.removed
      seen := max s.seen moment }
  | .tombstoneEvicted id =>
    let tombstones := s.client.deletedTombstones.filter fun x => x ≠ id
    { s with client := { s.client with deletedTombstones := tombstones } }
  | .response i moment rows =>
    match s.requests i with
    | none => s
    | some (r, _) =>
      if s.client.current r then
        let (client, next) := s.client.receive rows r
        { s with
          client := client
          requests := update s.requests i (next.map fun r => (r, s.clock))
          seen := max s.seen moment }
      else { s with requests := update s.requests i none }
  | .failure i =>
    match s.requests i with
    | none => s
    | some (r, _) =>
      { s with requests := update s.requests i none, client := s.client.settle r }

def run (s : State) (events : List Event) : State := events.foldl step s

end State

/-- What can happen: a response reflects a moment between its request and its arrival, frames
arrive in server order and report what has happened. -/
def Possible (server : Server) (s : State) : Event → Prop
  | .response i moment rows => moment ≤ s.clock ∧ server.Answers moment rows ∧
      ∃ r sent, s.requests i = some (r, sent) ∧ sent ≤ moment
  | .messageUpdated _ _ moment => s.lastFrame ≤ moment ∧ moment ≤ s.clock
  | .messageDeleted id moment => s.lastFrame ≤ moment ∧ moment ≤ s.clock ∧ server.deleted moment id
  | _ => True

/-- A response that is used is no older than what the cache already reflects. -/
def InOrder (s : State) : Event → Prop
  | .response i moment _ => ∀ r sent, s.requests i = some (r, sent) → s.client.current r = true →
      s.seen ≤ moment
  | _ => True

/-- Each event of a run meets the condition in the state it happens in. -/
def Throughout (P : State → Event → Prop) : State → List Event → Prop
  | _, [] => True
  | s, e :: rest => P s e ∧ Throughout P (s.step e) rest

/-! ## Merging -/

variable {ms prev next : List Message} {m x : Message} {known : List String}

theorem mem_setMessage (h : x ∈ setMessage ms m) : x = m ∨ x ∈ ms := by
  simp only [setMessage] at h
  grind

theorem ids_replace :
    (ms.map fun x => if x.id = m.id then m else x).map Message.id = ms.map Message.id := by
  rw [map_map]
  apply map_congr_left
  intro x _
  by_cases hx : x.id = m.id <;> simp [hx]

theorem nodup_setMessage (h : (ms.map Message.id).Nodup) :
    ((setMessage ms m).map Message.id).Nodup := by
  simp only [setMessage]
  split
  · rwa [ids_replace]
  · rename_i hm
    simpa [nodup_append] using ⟨h, by simpa using hm⟩

theorem mem_foldl_setMessage (h : x ∈ next.foldl setMessage ms) : x ∈ next ∨ x ∈ ms := by
  induction next generalizing ms with
  | nil => exact .inr h
  | cons m rest ih =>
    rcases ih h with hx | hx
    · exact .inl (mem_cons_of_mem _ hx)
    · rcases mem_setMessage hx with rfl | hx
      · exact .inl mem_cons_self
      · exact .inr hx

theorem nodup_foldl_setMessage (h : (ms.map Message.id).Nodup) :
    ((next.foldl setMessage ms).map Message.id).Nodup := by
  induction next generalizing ms with
  | nil => exact h
  | cons m rest ih => exact ih (nodup_setMessage h)

theorem mem_mergeMessages (h : x ∈ mergeMessages prev next known) : x ∈ next ∨ x ∈ prev := by
  simp only [mergeMessages, mem_insertionSort] at h
  rcases mem_foldl_setMessage h with hx | hx
  · exact .inl hx
  · rcases mem_foldl_setMessage hx with hx | hx
    · exact .inr (mem_filter.mp hx).1
    · simp at hx

theorem nodup_mergeMessages : ((mergeMessages prev next known).map Message.id).Nodup := by
  have h : ((next.foldl setMessage ((prev.filter fun m =>
      !((windowStart next).any (· ≤ m.createdAt) && m.id ∉ next.map Message.id &&
        m.id ∈ known)).foldl setMessage [])).map Message.id).Nodup :=
    nodup_foldl_setMessage (nodup_foldl_setMessage (by simp))
  exact ((perm_insertionSort _ _).map Message.id).nodup_iff.mpr h

/-! ## What the cache reflects -/

/-- Every cached row is as old as the latest moment the cache reflects or older, and no removed
message is cached. -/
structure Fresh (server : Server) (s : State) : Prop where
  nodup : (s.client.cache.map Message.id).Nodup
  rows : ∀ m ∈ s.client.cache, m.version ≤ server.version s.seen m.id
  removed : ∀ id ∈ s.removed, server.deleted s.seen id ∧ id ∉ s.client.cache.map Message.id

variable {server : Server} {s : State} {rows : List Message} {r : Request} {moment : ℕ}

@[simp] theorem cache_settle (c : Client) : (c.settle r).cache = c.cache := by
  fun_cases settle c r <;> rfl

/-- A response leaves cached rows where they are, or replaces and adds its own. -/
theorem receive_spec (hrows : (rows.map Message.id).Nodup)
    (hcache : (s.client.cache.map Message.id).Nodup) :
    (((s.client.receive rows r).1.cache).map Message.id).Nodup ∧
      ∀ m ∈ (s.client.receive rows r).1.cache, m ∈ rows ∨ m ∈ s.client.cache := by
  cases r with
  | page known => exact ⟨nodup_mergeMessages, fun m hm => mem_mergeMessages hm⟩
  | reconcile generation known =>
    refine ⟨nodup_mergeMessages, fun m hm => (mem_mergeMessages hm).imp_left ?_⟩
    exact fun h => (mem_filter.mp h).1
  | backfill generation known =>
    simp only [receive, appendMessages, map_append]
    refine ⟨?_, by simp; tauto⟩
    refine List.Nodup.append hcache (hrows.sublist (List.filter_sublist.map _)) ?_
    intro id hid
    grind
  | update id generation =>
    simp only [receive, setUpdateGeneration]
    fun_cases replaceMessage s.client rows with
    | case1 fresh =>
      rw [ids_replace]
      refine ⟨hcache, ?_⟩
      grind
    | case2 => exact ⟨hcache, fun m hm => .inr hm⟩

theorem Fresh.receive (h : Fresh server s) (hanswer : server.Answers moment rows)
    (hseen : s.seen ≤ moment) {requests : ℕ → Option (Request × ℕ)} :
    Fresh server { s with
      client := (s.client.receive rows r).1, requests, seen := max s.seen moment } := by
  obtain ⟨hnodup, hmem⟩ := receive_spec hanswer.1 h.nodup
  rw [Nat.max_eq_right hseen]
  refine ⟨hnodup, fun m hm => ?_,
    fun id hid => ⟨server.deleted_mono hseen (h.removed id hid).1, ?_⟩⟩
  · rcases hmem m hm with hm | hm
    · exact Nat.le_of_eq (hanswer.2 m hm).2
    · exact Nat.le_trans (h.rows m hm) (server.version_mono m.id hseen)
  · intro hcached
    obtain ⟨m, hm, rfl⟩ := mem_map.mp hcached
    rcases hmem m hm with hm | hm
    · exact (hanswer.2 m hm).1 (server.deleted_mono hseen (h.removed m.id hid).1)
    · exact (h.removed m.id hid).2 (mem_map_of_mem hm)

theorem Fresh.step (h : Fresh server s) {e : Event} (hp : Possible server s e) (ho : InOrder s e) :
    Fresh server (s.step e) := by
  cases e with
  | response i moment rows =>
    obtain ⟨-, hanswer, r, sent, hr, -⟩ := hp
    simp only [State.step, hr]
    split
    · exact h.receive hanswer (ho r sent hr ‹_›)
    · exact ⟨h.nodup, h.rows, h.removed⟩
  | messageDeleted id moment =>
    have hle : s.seen ≤ max s.seen moment := Nat.le_max_left _ _
    refine ⟨h.nodup.sublist (List.filter_sublist.map _), fun m hm => ?_, fun x hx => ?_⟩
    · exact Nat.le_trans (h.rows m (mem_filter.mp hm).1) (server.version_mono m.id hle)
    · rcases mem_cons.mp hx with rfl | hx
      · refine ⟨server.deleted_mono (Nat.le_max_right _ _) hp.2.2, ?_⟩
        simp [State.step, removeMessage]
      · refine ⟨server.deleted_mono hle (h.removed x hx).1, fun hcached => (h.removed x hx).2 ?_⟩
        exact (List.filter_sublist.map _).subset hcached
  | failure i =>
    simp only [State.step]
    split
    · exact h
    · constructor <;> simp only [cache_settle]
      exacts [h.nodup, h.rows, h.removed]
  | _ => exact ⟨h.nodup, h.rows, h.removed⟩

/-- One event lowers no cached version. -/
theorem version_step (h : Fresh server s) {e : Event} (hp : Possible server s e)
    (ho : InOrder s e) (hm : m ∈ s.client.cache) (hx : x ∈ (s.step e).client.cache)
    (hid : m.id = x.id) : m.version ≤ x.version := by
  have hold (hx : x ∈ s.client.cache) : m.version ≤ x.version :=
    (inj_on_of_nodup_map h.nodup hm hx hid ▸ Nat.le_refl _)
  cases e with
  | response i moment rows =>
    obtain ⟨-, hanswer, r, sent, hr, -⟩ := hp
    simp only [State.step, hr] at hx
    split at hx
    · have hseen := ho r sent hr ‹_›
      rcases (receive_spec hanswer.1 h.nodup).2 x hx with hx | hx
      · rw [(hanswer.2 x hx).2, ← hid]
        exact Nat.le_trans (h.rows m hm) (server.version_mono m.id hseen)
      · exact hold hx
    · exact hold hx
  | messageDeleted id moment => exact hold (mem_filter.mp hx).1
  | failure i =>
    simp only [State.step] at hx
    split at hx
    · exact hold hx
    · exact hold (by simpa using hx)
  | _ => exact hold hx

theorem Fresh.run (events : List Event) : ∀ {s : State}, Fresh server s →
    Throughout (Possible server) s events → Throughout InOrder s events →
      Fresh server (s.run events) := by
  induction events with
  | nil => exact fun h _ _ => h
  | cons e rest ih => exact fun h hp ho => ih (h.step hp.1 ho.1) hp.2 ho.2

theorem throughout_append {P : State → Event → Prop} {e : Event} {after : List Event}
    (before : List Event) : ∀ {s : State}, Throughout P s (before ++ e :: after) →
      Throughout P s before ∧ P (s.run before) e := by
  induction before with
  | nil => exact fun h => ⟨trivial, h.1⟩
  | cons b rest ih => exact fun h => ⟨⟨h.1, (ih h.2).1⟩, (ih h.2).2⟩

/-- **The cache never goes back**: in every run whose responses take effect in the order of the
server moments they reflect, no event lowers the version of a cached message, and no message
removed by a frame is in the cache again. -/
theorem cache_never_goes_back (server : Server) (events : List Event)
    (hp : Throughout (Possible server) {} events) (ho : Throughout InOrder {} events) :
    (∀ before e after, events = before ++ e :: after →
      ∀ m ∈ (run {} before).client.cache, ∀ x ∈ (run {} (before ++ [e])).client.cache,
        m.id = x.id → m.version ≤ x.version) ∧
    ∀ id ∈ (run {} events).removed, id ∉ (run {} events).client.cache.map Message.id := by
  have hinit : Fresh server {} := ⟨by simp, by simp, by simp⟩
  refine ⟨?_, fun id hid => ((hinit.run events hp ho).removed id hid).2⟩
  rintro before e after rfl m hm x hx hid
  obtain ⟨hp, hpe⟩ := throughout_append before hp
  obtain ⟨ho, hoe⟩ := throughout_append before ho
  refine version_step (hinit.run before hp ho) hpe hoe hm ?_ hid
  simpa [run] using hx

/-- At moment 1 message `d` is deleted and message `e` is edited. -/
def busyServer : Server where
  deleted t id := 1 ≤ t ∧ id = "d"
  version t id := if 1 ≤ t ∧ id = "e" then 2 else 1
  deleted_mono h hd := ⟨Nat.le_trans hd.1 h, hd.2⟩
  version_mono id h := by grind

/-- The page is loaded, and requested again before the deletion and the edit, whose frames and
refetch come before the answer. -/
def overtaken : List Event :=
  [.fetchPage 0, .response 0 0 [⟨"d", "t1", 1⟩, ⟨"e", "t2", 1⟩], .fetchPage 1, .tick,
    .messageDeleted "d" 1, .messageUpdated 2 "e" 1, .response 2 1 [⟨"e", "t2", 2⟩]]

/-- The late page brings the deleted message back and lowers the edited one's version. -/
theorem cache_goes_back :
    Throughout (Possible busyServer) {}
      (overtaken ++ [.response 1 0 [⟨"d", "t1", 1⟩, ⟨"e", "t2", 1⟩]]) ∧
    (run {} overtaken).client.cache = [⟨"e", "t2", 2⟩] ∧
    "d" ∈ (run {} overtaken).removed ∧
    (run {} (overtaken ++ [.response 1 0 [⟨"d", "t1", 1⟩, ⟨"e", "t2", 1⟩]])).client.cache =
      [⟨"d", "t1", 1⟩, ⟨"e", "t2", 1⟩] := by
  refine ⟨?_, by decide +kernel, by decide +kernel, by decide +kernel⟩
  simp [Throughout, overtaken, Possible, Server.Answers, busyServer, State.step, send,
    current, receive, removeMessage, setUpdateGeneration]

/-- Without the late page the run is in order. -/
theorem never_back_overtaken : "d" ∉ (run {} overtaken).client.cache.map Message.id := by
  have hp : Throughout (Possible busyServer) {} overtaken := by
    simp [Throughout, overtaken, Possible, Server.Answers, busyServer, State.step, send,
      current, receive, removeMessage, setUpdateGeneration]
  have ho : Throughout InOrder {} overtaken := by
    simp [Throughout, overtaken, InOrder, State.step, send, current, receive,
      removeMessage, setUpdateGeneration]
  exact (cache_never_goes_back busyServer overtaken hp ho).2 "d" (by decide +kernel)

end Smap.Chat
