import Smap.Lib.Expiring
import Smap.Lib.Roles

/-!
# The A2A inbox consumer

`contexts/orchestration/application/a2a_consumer.py`, for one entry of one agent's inbox
stream.  Any number of consumers hold the entry: it was delivered to one of them and
reclaimed by others, or a consumer drains it again from its own pending list.  Each runs
`_process_entry` on it, and each Redis command is one atomic step.

The marker `a2a:done`, the lease `a2a:inflight` and the retry record `a2a:retry` are keys
that expire.  The task that renews the lease is a move from outside that is possible while
it has been created and not cancelled.  The handler is two steps, its beginning and its
outcome, which the schedule chooses; `log` keeps both.

Left out are other entries, metrics, the callback for dead letters and the idle clock of the
pending list, which only decides who holds the entry.
-/

namespace Smap.Inbox

open Smap.Program Smap.Expiring

/-- Milliseconds. -/
abbrev Time := ℕ

def maxRetries : ℕ := 3

def retryKeyTtl : Time := 3600 * 1000

def processedKeyTtl : Time := 3600 * 1000

def inflightTtl : Time := 60 * 1000

inductive Key where
  | processed
  | inflight
  | retry
  deriving DecidableEq

/-- What a key holds: `"1"`, or the hash of a retry record. -/
inductive Value where
  | one
  | record (attempt : ℕ) (nextAtMs : Time)
  deriving DecidableEq

/-- What the handler does, and by which consumer. -/
inductive HandlerEvent where
  | started (i : ℕ)
  | completed (i : ℕ)
  | failed (i : ℕ)
  deriving DecidableEq

def HandlerEvent.isCompleted : HandlerEvent → Bool
  | .completed _ => true
  | _ => false

def HandlerEvent.isStarted : HandlerEvent → Bool
  | .started _ => true
  | _ => false

/-- An entry of the dead letter stream. -/
structure DeadLetter where
  attempt : ℕ
  lastError : String
  deriving DecidableEq

structure World where
  clock : Time
  redis : Keyspace Key Value
  /-- The consumers whose renewal task is running. -/
  refreshing : List ℕ
  /-- The entry is still in the pending list of the group. -/
  pending : Bool
  dlq : List DeadLetter
  log : List HandlerEvent

/-- How a handler ends. -/
inductive Outcome where
  | ok
  | raised (error : String)
  | cancelled
  deriving DecidableEq

/-- What the schedule chooses at a step: the end of a handler, and the backoff with its
jitter. -/
structure Input where
  outcome : Outcome := .ok
  backoff : Time := 0

inductive Op where
  | now
  | existsProcessed
  | setInflightNx
  | createRefresh
  | handlerStart
  | handlerEnd
  | setProcessed
  | xack
  | xaddDlq (d : DeadLetter)
  | getRetry
  | backoff
  | setRetry (attempt : ℕ) (nextAtMs : Time)
  | expireRetry
  | deleteRetry
  | cancelRefresh
  | deleteInflight

@[reducible] def Res : Op → Type
  | .now | .backoff => Time
  | .existsProcessed | .setInflightNx => Bool
  | .handlerEnd => Outcome
  | .getRetry => Option Value
  | .createRefresh | .handlerStart | .setProcessed | .xack | .xaddDlq _ | .setRetry .. |
      .expireRetry | .deleteRetry | .cancelRefresh | .deleteInflight => Unit

/-- What an outcome leaves in the log. -/
def Outcome.event (i : ℕ) : Outcome → HandlerEvent
  | .ok => .completed i
  | _ => .failed i

/-- Someone has the lease. -/
def World.leased (w : World) : Bool := (live w.redis w.clock .inflight).isSome

def act (i : ℕ) : (o : Op) → Input → World → Res o × World
  | .now, _, w => (w.clock, w)
  | .existsProcessed, _, w => ((live w.redis w.clock .processed).isSome, w)
  | .setInflightNx, _, w =>
    if w.leased then (false, w)
    else (true, { w with redis := put w.redis .inflight ⟨.one, some (w.clock + inflightTtl)⟩ })
  | .createRefresh, _, w => ((), { w with refreshing := i :: w.refreshing })
  | .handlerStart, _, w => ((), { w with log := w.log ++ [.started i] })
  | .handlerEnd, input, w =>
    (input.outcome, { w with log := w.log ++ [input.outcome.event i] })
  | .setProcessed, _, w =>
    ((), { w with redis := put w.redis .processed ⟨.one, some (w.clock + processedKeyTtl)⟩ })
  | .xack, _, w => ((), { w with pending := false })
  | .xaddDlq d, _, w => ((), { w with dlq := w.dlq ++ [d] })
  | .getRetry, _, w => (get w.redis w.clock .retry, w)
  | .backoff, input, w => (input.backoff, w)
  | .setRetry attempt nextAtMs, _, w =>
    ((), { w with redis := hset w.redis w.clock .retry (.record attempt nextAtMs) })
  | .expireRetry, _, w =>
    ((), { w with redis := expire w.redis w.clock .retry (w.clock + retryKeyTtl) })
  | .deleteRetry, _, w => ((), { w with redis := del w.redis .retry })
  | .cancelRefresh, _, w => ((), { w with refreshing := w.refreshing.filter (· ≠ i) })
  | .deleteInflight, _, w => ((), { w with redis := del w.redis .inflight })

abbrev Prog := Program.Prog Op Res

def perform (o : Op) : Prog (Res o) := Program.Prog.perform o

/-! ## Programs -/

/-- `move_to_dlq` and the deletion of the retry record. -/
def moveToDlq (error : String) (attempt : ℕ) : Prog Unit := do
  perform .xack
  perform (.xaddDlq ⟨attempt, error⟩)
  perform .deleteRetry

/-- A failed attempt: a dead letter after the last one, else a retry record. -/
def onFailure (error : String) (attempt : ℕ) : Prog Unit :=
  if maxRetries ≤ attempt then
    moveToDlq error attempt
  else do
    let t ← perform .now
    let backoff ← perform .backoff
    perform (.setRetry attempt (t + backoff))
    perform .expireRetry

/-- What is done under the lease.  `parsed` is the error of reading the envelope, if there
is one. -/
def attemptEntry (parsed : Except String Unit) (attempt : ℕ) : Prog ℕ :=
  match parsed with
  | .error exc => do
    moveToDlq s!"parse error: {exc}" attempt
    return 0
  | .ok _ => do
    perform .handlerStart
    match ← perform .handlerEnd with
    | .ok =>
      perform .setProcessed
      perform .xack
      perform .deleteRetry
      return 1
    | .raised error =>
      onFailure error attempt
      return 0
    | .cancelled => return 0

/-- `_process_entry`. -/
def processEntry (parsed : Except String Unit) (attempt : ℕ) : Prog ℕ := do
  if ← perform .existsProcessed then
    perform .xack
    perform .deleteRetry
    return 1
  else if ← perform .setInflightNx then
    perform .createRefresh
    let processed ← attemptEntry parsed attempt
    perform .cancelRefresh
    perform .deleteInflight
    return processed
  else
    return 0

/-- The entry as `consume_once` takes it from the pending list. -/
def consumePending (parsed : Except String Unit) : Prog ℕ := do
  let now ← perform .now
  match ← perform .getRetry with
  | some (.record attempt nextAtMs) =>
    if now < nextAtMs then return 0 else processEntry parsed (attempt + 1)
  | _ => processEntry parsed 1

/-- The entry as `consume_once` takes it when it is new. -/
def consumeNew (parsed : Except String Unit) : Prog ℕ := processEntry parsed 1

/-- One consumer's turn at the entry. -/
structure Call where
  drained : Bool
  parsed : Except String Unit

def Call.prog (c : Call) : Prog Unit := do
  let _ ← if c.drained then consumePending c.parsed else consumeNew c.parsed
  return ()

/-! ## Consumers side by side -/

/-- How far a consumer has come with the entry. -/
inductive Phase where
  | idle
  /-- It found no marker. -/
  | checked
  | leased
  | running
  /-- The handler has succeeded, and there is no marker yet. -/
  | handled
  | failed
  | marked
  | released
  deriving DecidableEq

/-- The consumer has the lease. -/
def Phase.holds : Phase → Bool
  | .leased | .running | .handled | .failed | .marked => true
  | .idle | .checked | .released => false

structure Notes where
  phase : Phase := .idle
  refreshing : Bool := false

def note (l : Notes) : (o : Op) → Res o → Notes
  | .existsProcessed, found => if found then l else { l with phase := .checked }
  | .setInflightNx, won => if won then { l with phase := .leased } else l
  | .createRefresh, _ => { l with refreshing := true }
  | .cancelRefresh, _ => { l with refreshing := false }
  | .handlerStart, _ => { l with phase := .running }
  | .handlerEnd, outcome => { l with phase := if outcome = .ok then .handled else .failed }
  | .setProcessed, _ => { l with phase := .marked }
  | .deleteInflight, _ => { l with phase := .released }
  | _, _ => l

/-- Time goes by, and a renewal task renews the lease. -/
inductive Event where
  | tick (d : Time)
  | refresh (i : ℕ)
  deriving DecidableEq

def outside : Event → World → Option (World × List (Notes × Prog Unit))
  | .tick d, w => some ({ w with clock := w.clock + d }, [])
  | .refresh i, w =>
    if i ∈ w.refreshing then
      some ({ w with redis := put w.redis .inflight ⟨.one, some (w.clock + inflightTtl)⟩ }, [])
    else none

def machine : Machine Op Res Notes World Unit Input Event where
  view _ _ := ()
  record l _ o r := note l o r
  act i o input _ w := some (act i o input w)
  env := outside

abbrev Consumers := Pool Op Res Notes World

/-- An entry that nobody has worked on, except that attempts at it may have failed. -/
def World.initial (clock : Time) (retry : Option (Entry Value)) : World where
  clock := clock
  redis k := if k = .retry then retry else none
  refreshing := []
  pending := true
  dlq := []
  log := []

def start (clock : Time) (retry : Option (Entry Value)) (calls : List Call) : Consumers :=
  launch {} (.initial clock retry) (calls.map Call.prog)

/-! ## What a consumer does -/

/-- What holds of a consumer when it performs an operation. -/
def Ok (l : Notes) : Op → Prop
  | .setInflightNx => l.phase = .checked ∧ l.refreshing = false
  | .createRefresh | .handlerStart => l.phase = .leased
  | .handlerEnd => l.phase = .running
  | .setProcessed => l.phase = .handled
  | .deleteInflight =>
    (l.phase = .leased ∨ l.phase = .failed ∨ l.phase = .marked) ∧ l.refreshing = false
  | .cancelRefresh => l.phase.holds = true
  | .existsProcessed => l.phase = .idle ∧ l.refreshing = false
  | _ => True

section Obeys

/-- The consumers owe each other nothing. -/
abbrev rules : Discipline machine := free machine {}

variable {l : Notes} {error : String} {attempt : ℕ}

theorem obeys_moveToDlq : Obeys rules Ok (fun l' _ => l' = l) (moveToDlq error attempt) l := by
  refine obeys_perform_bind trivial fun _ _ _ => ?_
  refine obeys_perform_bind trivial fun _ _ _ => ?_
  exact obeys_perform trivial fun _ _ _ => rfl

theorem obeys_onFailure : Obeys rules Ok (fun l' _ => l' = l) (onFailure error attempt) l := by
  unfold onFailure
  split
  · exact obeys_moveToDlq
  · refine obeys_perform_bind trivial fun _ _ _ => ?_
    refine obeys_perform_bind trivial fun _ _ _ => ?_
    refine obeys_perform_bind trivial fun _ _ _ => ?_
    exact obeys_perform trivial fun _ _ _ => rfl

/-- An attempt ends with the lease still there, and never between the handler's success and
the marker. -/
theorem obeys_attemptEntry (hl : l.phase = .leased) (parsed : Except String Unit) (attempt : ℕ) :
    Obeys rules Ok
      (fun l' _ => l'.phase = .leased ∨ l'.phase = .failed ∨ l'.phase = .marked)
      (attemptEntry parsed attempt) l := by
  cases parsed with
  | error =>
    refine obeys_bind obeys_moveToDlq fun l' _ hl' => ?_
    exact .inl (hl' ▸ hl)
  | ok =>
    refine obeys_perform_bind hl fun _ _ _ => ?_
    refine obeys_perform_bind rfl fun _ (outcome : Outcome) _ => ?_
    cases outcome with
    | ok =>
      refine obeys_perform_bind rfl fun _ _ _ => ?_
      refine obeys_perform_bind trivial fun _ _ _ => ?_
      refine obeys_perform_bind trivial fun _ _ _ => ?_
      exact .inr (.inr rfl)
    | raised =>
      refine obeys_bind obeys_onFailure fun l' _ hl' => ?_
      exact .inr (.inl (hl' ▸ rfl))
    | cancelled => exact .inr (.inl rfl)

theorem obeys_processEntry (hl : l.phase = .idle ∧ l.refreshing = false)
    (parsed : Except String Unit) (attempt : ℕ) :
    Obeys rules Ok (fun _ _ => True) (processEntry parsed attempt) l := by
  refine obeys_perform_bind hl fun _ (found : Bool) _ => ?_
  cases found with
  | true =>
    refine obeys_perform_bind trivial fun _ _ _ => ?_
    exact obeys_perform_bind trivial fun _ _ _ => trivial
  | false =>
    refine obeys_perform_bind ⟨rfl, hl.2⟩ fun _ (won : Bool) _ => ?_
    cases won with
    | false => trivial
    | true =>
      refine obeys_perform_bind rfl fun _ _ _ => ?_
      refine obeys_bind (obeys_attemptEntry rfl parsed attempt) fun l' processed hl' => ?_
      have hholds : l'.phase.holds = true := by
        rcases hl' with hp | hp | hp <;> rw [hp] <;> rfl
      refine obeys_perform_bind hholds fun _ _ _ => ?_
      exact obeys_perform_bind ⟨hl', rfl⟩ fun _ _ _ => trivial

theorem obeys_consumePending (parsed : Except String Unit) :
    Obeys rules Ok (fun _ _ => True) (consumePending parsed) {} := by
  refine obeys_perform_bind trivial fun _ (now : Time) _ => ?_
  refine obeys_perform_bind trivial fun _ (record : Option Value) _ => ?_
  rcases record with _ | _ | ⟨attempt, nextAtMs⟩
  · exact obeys_processEntry ⟨rfl, rfl⟩ parsed 1
  · exact obeys_processEntry ⟨rfl, rfl⟩ parsed 1
  · by_cases hwait : now < nextAtMs
    · simp only [hwait, ↓reduceIte]
      trivial
    · simp only [hwait, ↓reduceIte]
      exact obeys_processEntry ⟨rfl, rfl⟩ parsed (attempt + 1)

theorem Call.obeys (c : Call) : Obeys rules Ok (fun _ _ => True) c.prog {} := by
  unfold Call.prog
  cases c.drained with
  | false =>
    exact obeys_bind (obeys_processEntry ⟨rfl, rfl⟩ c.parsed 1) fun _ _ _ => trivial
  | true => exact obeys_bind (obeys_consumePending c.parsed) fun _ _ _ => trivial

theorem obeyed_start (clock : Time) (retry : Option (Entry Value)) (calls : List Call) :
    Obeyed machine {} (fun _ => Ok) (fun _ _ _ => True) (start clock retry calls) := by
  refine obeyed_launch _ ?_
  intro i p hp
  obtain ⟨c, -, rfl⟩ := List.mem_map.mp (List.mem_of_getElem? hp)
  exact c.obeys

end Obeys

end Smap.Inbox
