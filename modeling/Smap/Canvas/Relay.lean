import Mathlib.Data.Finset.Card
import Smap.Lib.Roles

/-!
# The CRDT relay of a canvas

`app/api/ws/canvas.py` and `contexts/canvas/application/crdt_relay.py`, for any number of
connections to one canvas in one process.  A document is an element of a join semilattice
with a least one: `pycrdt` merges by joining, and an update is contained in a document that
lies above it.

The event loop runs one task at a time from one `await` to the next, and each such stretch is
one operation here.  `apply_update` never waits, since nothing waits while it holds its lock.
A connection reads its frames one after the other, so its flushes and updates do not overlap;
those of different connections may.

Authentication, access checks, guest rate limits and what is sent to clients are left out,
and so is a task that is cancelled in the middle of a flush.
-/

namespace Smap.Canvas

open Smap.Program

def maxEditorsPerCanvas : ℕ := 10

/-- What a client sends as an update. -/
inductive Update (D : Type) where
  | invalidBase64
  | malformed
  | delta (u : D)

inductive CrdtUpdateError where
  | canvasNotLoaded
  | invalidBase64
  | malformed
  | documentTooLarge

/-- `_CanvasDoc`. -/
structure CanvasDoc (D : Type) where
  doc : D
  dirty : Bool

/-- A member of the sorted set of editors: a connection, or the entry it is counted by
before it is let in. -/
inductive Member where
  | temp (i : ℕ)
  | conn (i : ℕ)
  deriving DecidableEq

structure World (D : Type) where
  /-- `canvases.crdt_state`. -/
  crdtState : Option D
  /-- The relay's entry for the canvas. -/
  entry : Option (CanvasDoc D)
  editors : Finset Member
  /-- The updates that have been accepted; no program reads this. -/
  accepted : List D

/-- The objects of the canvas from before there were documents, as the document they are
migrated to, and the cap on the size of documents. -/
structure Settings (D : Type) where
  legacyObjects : Option D
  tooLarge : D → Bool

inductive Op (D : Type) where
  | readCrdtState
  | listObjects
  | zadd (temp : Bool)
  | zrem (temp : Bool)
  | zcard
  /-- `get_or_load`, and the snapshot of a migration. -/
  | load (crdtState legacyObjects : Option D)
  /-- `_flush_if_needed` up to its database write; a close that finds nothing to write goes
  on to evict the document. -/
  | snapshot (closing : Bool)
  | updateCrdtState (state : D)
  /-- `mark_flushed`, and on a close the eviction. -/
  | markFlushed (closing : Bool)
  | applyUpdate (u : Update D)

variable {D : Type}

@[reducible] def Res : Op D → Type
  | .readCrdtState | .listObjects | .load .. | .snapshot _ => Option D
  | .zcard => ℕ
  | .applyUpdate _ => Except CrdtUpdateError Unit
  | .zadd _ | .zrem _ | .updateCrdtState _ | .markFlushed _ => Unit

def member (temp : Bool) (i : ℕ) : Member := if temp then .temp i else .conn i

section Relay

variable [SemilatticeSup D] [OrderBot D]

/-- The document `get_or_load` builds. -/
def loaded (crdtState legacyObjects : Option D) : D :=
  match crdtState, legacyObjects with
  | some state, _ => ⊥ ⊔ state
  | none, some objects => objects
  | none, none => ⊥

def getOrLoad (crdtState legacyObjects : Option D) : Option (CanvasDoc D) → CanvasDoc D
  | some entry => entry
  | none => ⟨loaded crdtState legacyObjects, false⟩

/-- `apply_update`. -/
def applyUpdate (S : Settings D) (u : Update D) (w : World D) :
    Except CrdtUpdateError Unit × World D :=
  match w.entry, u with
  | none, _ => (.error .canvasNotLoaded, w)
  | some _, .invalidBase64 => (.error .invalidBase64, w)
  | some _, .malformed => (.error .malformed, w)
  | some entry, .delta u =>
    if S.tooLarge (entry.doc ⊔ u) then (.error .documentTooLarge, w)
    else
      (.ok (), { w with
        entry := some ⟨entry.doc ⊔ u, true⟩
        accepted := w.accepted ++ [u] })

/-- The state to write, if the document has changed since it was written last. -/
def dueState (w : World D) : Option D :=
  match w.entry with
  | some entry => if entry.dirty then some entry.doc else none
  | none => none

def act (S : Settings D) (i : ℕ) : (o : Op D) → World D → Res o × World D
  | .readCrdtState, w => (w.crdtState, w)
  | .listObjects, w => (S.legacyObjects, w)
  | .zadd temp, w => ((), { w with editors := insert (member temp i) w.editors })
  | .zrem temp, w => ((), { w with editors := w.editors.erase (member temp i) })
  | .zcard, w => (w.editors.card, w)
  | .load crdtState legacyObjects, w =>
    let entry := getOrLoad crdtState legacyObjects w.entry
    (if crdtState.isNone && legacyObjects.isSome then some entry.doc else none,
      { w with entry := some entry })
  | .snapshot closing, w =>
    match dueState w with
    | some state => (some state, w)
    | none => (none, if closing then { w with entry := none } else w)
  | .updateCrdtState state, w => ((), { w with crdtState := some state })
  | .markFlushed closing, w =>
    ((), { w with
      entry := if closing then none else w.entry.map fun entry => { entry with dirty := false } })
  | .applyUpdate u, w => applyUpdate S u w

end Relay

abbrev Prog (D : Type) := Program.Prog (Op D) Res

def perform (o : Op D) : Prog D (Res o) := Program.Prog.perform o

/-! ## Programs -/

/-- A frame of a client: whether a flush is due when it arrives, and the update it carries
if it is one. -/
structure Frame (D : Type) where
  flushDue : Bool
  update : Option (Update D)

/-- A connection: whether it gets past the cap on its user's connections, and its frames. -/
structure Visit (D : Type) where
  admitted : Bool
  frames : List (Frame D)

/-- `_flush_if_needed`, and on a close the eviction. -/
def flushIfNeeded (closing : Bool) : Prog D Unit := do
  match ← perform (.snapshot closing) with
  | none => return ()
  | some state =>
    perform (.updateCrdtState state)
    perform (.markFlushed closing)

def onOpen (crdtState legacyObjects : Option D) : Prog D Unit := do
  perform (.zadd false)
  let _ ← perform .zcard
  match ← perform (.load crdtState legacyObjects) with
  | none => return ()
  | some state =>
    perform (.updateCrdtState state)
    perform (.markFlushed false)

def onHeartbeat (flushDue : Bool) : Prog D Unit := do
  perform (.zadd false)
  if flushDue then flushIfNeeded false else return ()

def onClientMessage : Option (Update D) → Prog D Unit
  | none => return ()
  | some u => do
    let _ ← perform (.applyUpdate u)
    return ()

def onFrames : List (Frame D) → Prog D Unit
  | [] => return ()
  | f :: fs => do
    onHeartbeat f.flushDue
    onClientMessage f.update
    onFrames fs

def onClose : Prog D Unit := do
  perform (.zrem false)
  let remaining ← perform .zcard
  if remaining = 0 then flushIfNeeded true else return ()

/-- The cap on editors: the entry that is counted is removed again in any case. -/
def underCap : Prog D Bool := do
  perform (.zadd true)
  let count ← perform .zcard
  perform (.zrem true)
  let _ ← perform .zcard
  return decide (count ≤ maxEditorsPerCanvas)

/-- The objects are read only if there is no document. -/
def readObjects (crdtState : Option D) : Prog D (Option D) :=
  if crdtState.isNone then perform .listObjects else return none

/-- `ws_canvas`. -/
def visit (v : Visit D) : Prog D Unit := do
  let crdtState ← perform .readCrdtState
  let legacyObjects ← readObjects crdtState
  let allowed ← underCap
  if allowed && v.admitted then do
    onOpen crdtState legacyObjects
    onFrames v.frames
    onClose
  else return ()

/-! ## Connections side by side -/

inductive Phase where
  | outside
  /-- From the registration of the editor to its removal. -/
  | editing
  | leaving
  /-- It has counted that it was the last one. -/
  | last
  | closed
  deriving DecidableEq

structure Notes (D : Type) where
  phase : Phase := .outside
  /-- A snapshot has been taken, and its flush has not ended. -/
  taken : Option D := none
  /-- The snapshot has been written. -/
  written : Bool := false

/-- From the registration of the editor to the end of its close. -/
def Notes.isOpen (l : Notes D) : Bool :=
  match l.phase with
  | .editing | .leaving | .last => true
  | .outside | .closed => false

def note (l : Notes D) : (o : Op D) → Res o → Notes D
  | .zadd temp, _ => if temp then l else { l with phase := .editing }
  | .zrem temp, _ => if temp then l else { l with phase := .leaving }
  | .zcard, count =>
    if l.phase = .leaving then { l with phase := if count = 0 then .last else .closed } else l
  | .load .., state => { l with taken := state }
  | .snapshot closing, none => if closing then { l with phase := .closed } else l
  | .snapshot _, some state => { l with taken := some state }
  | .updateCrdtState _, _ => { l with written := true }
  | .markFlushed closing, _ => ⟨if closing then .closed else l.phase, none, false⟩
  | .readCrdtState, _ | .listObjects, _ | .applyUpdate _, _ => l

/-- Entries that have not been touched for a while are pruned. -/
structure Prune where
  gone : Finset Member

section Machine

variable [SemilatticeSup D] [OrderBot D]

def prune (e : Prune) (w : World D) : Option (World D × List (Notes D × Prog D Unit)) :=
  some ({ w with editors := w.editors \ e.gone }, [])

def machine (S : Settings D) : Machine (Op D) Res (Notes D) (World D) Unit Unit Prune where
  view _ _ := ()
  record l _ o r := note l o r
  act i o _ _ w := some (act S i o w)
  env := prune

abbrev Visits (D : Type) := Pool (Op D) Res (Notes D) (World D)

/-- A canvas that is not in memory and has no editors. -/
def World.resting (crdtState : Option D) : World D := ⟨crdtState, none, ∅, []⟩

def start (crdtState : Option D) (vs : List (Visit D)) : Visits D :=
  launch {} (.resting crdtState) (vs.map visit)

end Machine

/-! ## What a connection does -/

/-- What holds of a connection when it performs an operation. -/
def Ok (l : Notes D) : Op D → Prop
  | .zadd temp =>
    l.taken = none ∧ l.written = false ∧
      if temp then l.phase = .outside else l.phase = .outside ∨ l.phase = .editing
  | .zrem temp =>
    l.taken = none ∧ l.written = false ∧ if temp then l.phase = .outside else l.phase = .editing
  | .zcard => l.taken = none ∧ l.written = false
  | .load .. => l.phase = .editing ∧ l.taken = none ∧ l.written = false
  | .applyUpdate _ => l.phase = .editing ∧ l.taken = none ∧ l.written = false
  | .snapshot closing =>
    l.phase = (if closing then .last else .editing) ∧ l.taken = none ∧ l.written = false
  | .updateCrdtState state =>
    (l.phase = .editing ∨ l.phase = .last) ∧ l.taken = some state
  | .markFlushed closing =>
    l.phase = (if closing then .last else .editing) ∧ l.taken.isSome = true ∧ l.written = true
  | .readCrdtState | .listObjects => True

section Obeys

variable [SemilatticeSup D] [OrderBot D] {S : Settings D} {l : Notes D}

/-- The connections owe each other nothing. -/
abbrev rules (S : Settings D) : Discipline (machine S) := free (machine S) {}

theorem obeys_flushIfNeeded (closing : Bool)
    (hl : l = ⟨if closing then .last else .editing, none, false⟩) :
    Obeys (rules S) Ok
      (fun l' _ => l' = ⟨if closing then .closed else .editing, none, false⟩)
      (flushIfNeeded closing) l := by
  subst hl
  refine obeys_perform_bind ⟨rfl, rfl, rfl⟩ fun _ (state : Option D) _ => ?_
  cases state with
  | none => cases closing <;> rfl
  | some =>
    refine obeys_perform_bind ⟨by cases closing <;> simp [machine, note], rfl⟩ fun _ _ _ => ?_
    refine obeys_perform ⟨rfl, rfl, rfl⟩ fun _ _ _ => ?_
    cases closing <;> rfl

theorem obeys_onOpen {crdtState legacyObjects : Option D} (hl : l = {}) :
    Obeys (rules S) Ok (fun l' _ => l' = ⟨.editing, none, false⟩)
      (onOpen crdtState legacyObjects) l := by
  subst hl
  refine obeys_perform_bind ⟨rfl, rfl, .inl rfl⟩ fun _ _ _ => ?_
  refine obeys_perform_bind ⟨rfl, rfl⟩ fun _ (_ : ℕ) _ => ?_
  refine obeys_perform_bind ⟨rfl, rfl, rfl⟩ fun _ (state : Option D) _ => ?_
  cases state with
  | none => rfl
  | some =>
    refine obeys_perform_bind ⟨.inl rfl, rfl⟩ fun _ _ _ => ?_
    exact obeys_perform ⟨rfl, rfl, rfl⟩ fun _ _ _ => rfl

section Editing

variable (hl : l = ⟨.editing, none, false⟩)

include hl

theorem obeys_onHeartbeat (flushDue : Bool) :
    Obeys (rules S) Ok (fun l' _ => l' = ⟨.editing, none, false⟩) (onHeartbeat flushDue) l := by
  subst hl
  refine obeys_perform_bind ⟨rfl, rfl, .inr rfl⟩ fun _ _ _ => ?_
  cases flushDue with
  | false => rfl
  | true => exact obeys_flushIfNeeded false rfl

theorem obeys_onClientMessage (u : Option (Update D)) :
    Obeys (rules S) Ok (fun l' _ => l' = ⟨.editing, none, false⟩) (onClientMessage u) l := by
  subst hl
  cases u with
  | none => rfl
  | some => exact obeys_perform_bind ⟨rfl, rfl, rfl⟩ fun _ _ _ => rfl

theorem obeys_onFrames (fs : List (Frame D)) :
    Obeys (rules S) Ok (fun l' _ => l' = ⟨.editing, none, false⟩) (onFrames fs) l := by
  induction fs generalizing l with
  | nil => exact hl
  | cons f fs ih =>
    refine obeys_bind (obeys_onHeartbeat hl f.flushDue) fun l' _ hl' => ?_
    exact obeys_bind (obeys_onClientMessage hl' f.update) fun l'' _ hl'' => ih hl''

theorem obeys_onClose : Obeys (rules S) Ok (fun l' _ => l' = ⟨.closed, none, false⟩) onClose l := by
  subst hl
  refine obeys_perform_bind ⟨rfl, rfl, rfl⟩ fun _ _ _ => ?_
  refine obeys_perform_bind ⟨rfl, rfl⟩ fun _ (remaining : ℕ) _ => ?_
  by_cases hlast : remaining = 0
  · subst hlast
    exact obeys_flushIfNeeded true rfl
  · simp [Obeys, machine, note, hlast, pure]

end Editing

theorem obeys_underCap (hl : l = {}) :
    Obeys (rules S) Ok (fun l' _ => l' = {}) (underCap : Prog D Bool) l := by
  subst hl
  refine obeys_perform_bind ⟨rfl, rfl, rfl⟩ fun _ _ _ => ?_
  refine obeys_perform_bind ⟨rfl, rfl⟩ fun _ (_ : ℕ) _ => ?_
  refine obeys_perform_bind ⟨rfl, rfl, rfl⟩ fun _ _ _ => ?_
  exact obeys_perform_bind ⟨rfl, rfl⟩ fun _ (_ : ℕ) _ => rfl

theorem obeys_readObjects (crdtState : Option D) (hl : l = {}) :
    Obeys (rules S) Ok (fun l' _ => l' = {}) (readObjects crdtState) l := by
  subst hl
  cases crdtState with
  | none => exact obeys_perform trivial fun _ _ _ => rfl
  | some => rfl

theorem obeys_visit (v : Visit D) :
    Obeys (rules S) Ok (fun l' _ => l'.isOpen = false) (visit v) {} := by
  refine obeys_perform_bind trivial fun _ (crdtState : Option D) _ => ?_
  refine obeys_bind (obeys_readObjects crdtState rfl) fun l₁ legacyObjects hl₁ => ?_
  refine obeys_bind (obeys_underCap hl₁) fun l₂ allowed hl₂ => ?_
  by_cases hin : (allowed && v.admitted) = true
  · simp only [hin, ↓reduceIte]
    refine obeys_bind (obeys_onOpen hl₂) fun l₃ _ hl₃ => ?_
    refine obeys_bind (obeys_onFrames hl₃ v.frames) fun l₄ _ hl₄ => ?_
    refine (obeys_onClose hl₄).mono (fun _ _ h => h) ?_
    rintro l₅ _ rfl
    rfl
  · simp only [hin, Bool.false_eq_true, ↓reduceIte]
    subst hl₂
    rfl

theorem obeyed_start (crdtState : Option D) (vs : List (Visit D)) :
    Obeyed (machine S) {} (fun _ => Ok) (fun _ l _ => l.isOpen = false) (start crdtState vs) := by
  refine obeyed_launch _ ?_
  intro i p hp
  obtain ⟨v, -, rfl⟩ := List.mem_map.mp (List.mem_of_getElem? hp)
  exact obeys_visit v

end Obeys

end Smap.Canvas
