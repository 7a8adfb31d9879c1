import Smap.Lib.Roles
import Smap.Uploads.Store

/-!
# PATCH requests on an upload

`TusService.patch` of `contexts/conversation/application/tus_service.py`, for any number of
requests on one upload.  A Redis script, an append, a truncation, a size query and a removal
are one atomic step each.  The schedule chooses which disk operations fail, how much of a
failed append reaches the file, and whether a finaliser raises.

From outside time goes by, and everything in the store but the state of this upload may
change (other uploads share its tiers and quotas).

The finalisers themselves, metrics and log lines are left out; a finaliser is one step that
is given the staged file.
-/

namespace Smap.Uploads

open Smap.Program Smap.Expiring

def tusMaxChunk : ℕ := 16 * 1024 * 1024

abbrev Bytes := List UInt8

/-- The errors a PATCH request ends with. -/
inductive PatchError (Uuid : Type) where
  | uploadNotFound (id : Uuid)
  | offsetMismatch (detail : String)
  | attachmentTooLarge (detail : String)
  | uploadCapacityExceeded (detail : String)
  | sizeMismatch (detail : String)
  /-- `OSError`, from the disk. -/
  | osError
  /-- An assertion, a missing finaliser, or what a finaliser raised. -/
  | finaliserRaised

structure TusPatchResult where
  newOffset : ℕ
  completed : Bool

/-- Which finaliser is called, and for what. -/
inductive Target (Uuid : Type) where
  | attachment (attachmentId projectId chatroomId : Uuid)
  | knowmap (configId : Uuid)
  | rag (configId : Uuid)

/-- What a finaliser is given. -/
structure Finalisation (Uuid : Type) where
  target : Target Uuid
  filename : String
  mime : String
  stagingPath : String
  sizeBytes : ℕ
  uploadedBy : Uuid

inductive Op (Uuid : Type) where
  | get
  | now
  | cas (u : TusUpload Uuid) (expectedOffset newOffset hour now : ℕ)
  | append (chunk : Bytes)
  | truncate (length : ℕ)
  | rollback (u : TusUpload Uuid) (expectedOffset newOffset hour : ℕ)
  | getsize
  | finalise (f : Finalisation Uuid)
  | remove
  | delete (u : TusUpload Uuid)
  | answer (result : Except (PatchError Uuid) TusPatchResult)

variable {Uuid : Type}

@[reducible] def Res : Op Uuid → Type
  | .get => Option (TusUpload Uuid)
  | .now => Time
  | .cas .. => TusOffsetUpdateResult
  | .append _ | .truncate _ | .rollback .. | .finalise _ => Bool
  | .getsize => Option ℕ
  | .remove | .delete _ | .answer _ => Unit

/-- What the schedule chooses at a step. -/
structure Input where
  /-- An append that fails: before the file is open, or after so many bytes. -/
  appendFault : Option (Option ℕ) := none
  truncateFault : Bool := false
  getsizeFault : Bool := false
  removeFault : Bool := false
  finaliserRaises : Bool := false

/-- A finaliser's call: by whom, the file as it was, and the PATCH bodies that had been
accepted by then, each with its offset. -/
structure Call (Uuid : Type) where
  caller : ℕ
  finalisation : Finalisation Uuid
  file : Option Bytes
  accepted : List (ℕ × Bytes)

structure World (Uuid : Type) where
  clock : Time
  store : Store Uuid
  /-- The staged file. -/
  file : Option Bytes
  /-- The bodies that have been written, each with the offset its request claimed. -/
  accepted : List (ℕ × Bytes)
  finalised : List (Call Uuid)
  answers : List (ℕ × Except (PatchError Uuid) TusPatchResult)

/-! ## What a request notes -/

inductive Phase where
  | idle
  | claimed
  /-- The append has failed. -/
  | failed
  /-- The file has been truncated again. -/
  | cleared
  /-- The truncation has failed too. -/
  | stuck
  | rolledBack
  | written
  /-- The staged file has been removed. -/
  | removed
  /-- The state has been deleted, or was gone. -/
  | deleted
  | answered
  deriving DecidableEq

structure Notes (Uuid : Type) where
  phase : Phase := .idle
  /-- The state as the request read it first. -/
  seen : Option (TusUpload Uuid) := none
  offset : ℕ := 0
  newOffset : ℕ := 0
  /-- The claim was accepted and has not been rolled back. -/
  standing : Bool := false
  finalised : Bool := false

/-- Between the claim and the answer. -/
def Notes.inProgress (l : Notes Uuid) : Bool :=
  match l.phase with
  | .idle | .answered => false
  | _ => true

def note (l : Notes Uuid) : (o : Op Uuid) → Res o → Notes Uuid
  | .get, none => if l.phase = .removed then { l with phase := .deleted } else l
  | .get, some u => if l.seen.isNone then { l with seen := some u } else l
  | .cas _ expectedOffset newOffset _ _, result =>
    if result = .accepted then
      { l with
        phase := .claimed, offset := expectedOffset, newOffset := newOffset, standing := true }
    else l
  | .append _, ok => { l with phase := if ok then .written else .failed }
  | .truncate _, ok => { l with phase := if ok then .cleared else .stuck }
  | .rollback .., ok => { l with phase := .rolledBack, standing := !ok }
  | .finalise _, _ => { l with finalised := true }
  | .remove, _ => { l with phase := .removed }
  | .delete _, _ => { l with phase := .deleted }
  | .answer _, _ => { l with phase := .answered }
  | .now, _ | .getsize, _ => l

/-! ## Operations -/

/-- `os.truncate`: a file that is shorter is filled up with zeros. -/
def truncated (bytes : Bytes) (length : ℕ) : Bytes :=
  bytes.take length ++ List.replicate (length - bytes.length) 0

variable [DecidableEq Uuid]

def act (id : Uuid) (i : ℕ) :
    (o : Op Uuid) → Input → Notes Uuid → World Uuid → Res o × World Uuid
  | .get, _, _, w => (get w.store.uploads w.clock id, w)
  | .now, _, _, w => (w.clock, w)
  | .cas u expectedOffset newOffset hour now, _, _, w =>
    let result := casScript w.clock id u expectedOffset newOffset hour now w.store
    (result.1, { w with store := result.2 })
  | .append chunk, input, l, w =>
    match input.appendFault with
    | none =>
      (true, { w with
        file := some (w.file.getD [] ++ chunk)
        accepted := w.accepted ++ [(l.offset, chunk)] })
    | some none => (false, w)
    | some (some n) => (false, { w with file := some (w.file.getD [] ++ chunk.take n) })
  | .truncate length, input, _, w =>
    match w.file with
    | none => (false, w)
    | some bytes =>
      if input.truncateFault then (false, w)
      else (true, { w with file := some (truncated bytes length) })
  | .rollback u expectedOffset newOffset hour, _, _, w =>
    let result := rollbackScript w.clock u expectedOffset newOffset hour w.store
    (result.1, { w with store := result.2 })
  | .getsize, input, _, w =>
    (if input.getsizeFault then none else w.file.map List.length, w)
  | .finalise f, input, _, w =>
    (!input.finaliserRaises,
      { w with finalised := w.finalised ++ [⟨i, f, w.file, w.accepted⟩] })
  | .remove, input, _, w =>
    ((), if input.removeFault then w else { w with file := none })
  | .delete u, _, _, w => ((), { w with store := deleteScript w.clock id u w.store })
  | .answer result, _, _, w => ((), { w with answers := w.answers ++ [(i, result)] })

abbrev Prog (Uuid : Type) := Program.Prog (Op Uuid) Res

def perform (o : Op Uuid) : Prog Uuid (Res o) := Program.Prog.perform o

/-! ## Programs -/

structure PatchRequest (Uuid : Type) where
  userId : Uuid
  offset : ℕ
  chunk : Bytes

def refuse (e : PatchError Uuid) : Prog Uuid Unit := perform (.answer (.error e))

/-- `TusUploadStore.update_offset`. -/
def claimOffset (expectedOffset newOffset hour : ℕ) : Prog Uuid TusOffsetUpdateResult := do
  match ← perform .get with
  | none => return .missing
  | some u =>
    let t ← perform .now
    perform (.cas u expectedOffset newOffset hour (Time.seconds t))

/-- The `except` branch of a failed append. -/
def undo (upload : TusUpload Uuid) (offset newOffset hour : ℕ) : Prog Uuid Unit := do
  if ← perform (.truncate offset) then
    let _ ← perform (.rollback upload newOffset offset hour)
    refuse .osError
  else
    refuse .osError

/-- The finaliser of an upload: none if the assertion on its target fails, or the
finaliser is not wired. -/
def TusUpload.target (knowledge : Bool) (u : TusUpload Uuid) : Option (Target Uuid) :=
  match u.purpose with
  | .chatAttachment => u.chatroomId.map (.attachment u.uploadId u.projectId)
  | .knowmapSource => if knowledge then u.knowmapConfigId.map .knowmap else none
  | .ragSource => if knowledge then u.ragConfigId.map .rag else none

/-- The `try` block of a final PATCH. -/
def finaliseStaged (knowledge : Bool) (userId : Uuid) (upload : TusUpload Uuid) :
    Prog Uuid (Except (PatchError Uuid) Unit) := do
  match ← perform .getsize with
  | none => return .error .osError
  | some staged =>
    let declared := upload.uploadLength
    if staged ≠ declared then
      return .error (.sizeMismatch
        s!"staged file holds {staged} bytes, declared length is {declared}")
    else
      match upload.target knowledge with
      | none => return .error .finaliserRaised
      | some target =>
        let finalisation : Finalisation Uuid :=
          ⟨target, upload.filename, upload.mime, upload.stagingPath, staged, userId⟩
        if ← perform (.finalise finalisation) then return .ok ()
        else return .error .finaliserRaised

/-- A final PATCH: the file and the state are removed in any case. -/
def finish (knowledge : Bool) (userId : Uuid) (upload : TusUpload Uuid) (newOffset : ℕ) :
    Prog Uuid Unit := do
  let outcome ← finaliseStaged knowledge userId upload
  perform .remove
  match ← perform .get with
  | none => perform (.answer (outcome.map fun _ => ⟨newOffset, true⟩))
  | some u =>
    perform (.delete u)
    perform (.answer (outcome.map fun _ => ⟨newOffset, true⟩))

/-- What follows an accepted claim. -/
def writeChunk (knowledge : Bool) (r : PatchRequest Uuid) (upload : TusUpload Uuid)
    (newOffset hour : ℕ) : Prog Uuid Unit := do
  if ← perform (.append r.chunk) then
    if newOffset < upload.uploadLength then
      perform (.answer (.ok ⟨newOffset, false⟩))
    else
      finish knowledge r.userId upload newOffset
  else
    undo upload r.offset newOffset hour

/-- What a request that has read the state is refused for. -/
def PatchRequest.refusal (id : Uuid) (r : PatchRequest Uuid) (upload : TusUpload Uuid) :
    Option (PatchError Uuid) :=
  let offset := r.offset
  let length := r.chunk.length
  let expected := upload.uploadOffset
  let declared := upload.uploadLength
  if upload.userId ≠ r.userId then some (.uploadNotFound id)
  else if offset ≠ expected then
    some (.offsetMismatch s!"expected offset {expected}, got {offset}")
  else if tusMaxChunk < length then
    some (.attachmentTooLarge s!"PATCH chunk {length} bytes exceeds 16 MB cap")
  else if declared < offset + length then
    some (.offsetMismatch s!"chunk would overflow declared length {declared}")
  else none

/-- `TusService.patch`. -/
def patch (knowledge : Bool) (id : Uuid) (r : PatchRequest Uuid) : Prog Uuid Unit := do
  match ← perform .get with
  | none => refuse (.uploadNotFound id)
  | some upload =>
    match r.refusal id upload with
    | some e => refuse e
    | none =>
      let newOffset := r.offset + r.chunk.length
      let t ← perform .now
      match ← claimOffset r.offset newOffset (Time.hour t) with
      | .userHourlyLimit =>
        refuse (.uploadCapacityExceeded "TUS byte quota rejected: user_hourly_limit")
      | .projectHourlyLimit =>
        refuse (.uploadCapacityExceeded "TUS byte quota rejected: project_hourly_limit")
      | .mismatch | .missing => refuse (.offsetMismatch "concurrent upload detected")
      | .accepted => writeChunk knowledge r upload newOffset (Time.hour t)

/-! ## Requests side by side -/

/-- Time goes by, and other parts of the store change. -/
inductive Event (Uuid : Type) where
  | tick (d : Time)
  | others (s : Store Uuid)

def outside (id : Uuid) :
    Event Uuid → World Uuid → Option (World Uuid × List (Notes Uuid × Prog Uuid Unit))
  | .tick d, w => some ({ w with clock := w.clock + d }, [])
  | .others s, w =>
    if s.uploads id = w.store.uploads id then some ({ w with store := s }, []) else none

def machine (id : Uuid) :
    Machine (Op Uuid) Res (Notes Uuid) (World Uuid) Unit Input (Event Uuid) where
  view _ _ := ()
  record l _ o r := note l o r
  act i o input l w := some (act id i o input l w)
  env := outside id

abbrev Requests (Uuid : Type) := Pool (Op Uuid) Res (Notes Uuid) (World Uuid)

/-- An upload that has just been created: nothing has been written, and its staged file is
empty. -/
def World.created (clock : Time) (s : Store Uuid) (u : TusUpload Uuid) : World Uuid where
  clock := clock
  store := { s with
    uploads := put s.uploads u.uploadId
      ⟨{ u with uploadOffset := 0 }, some (clock.after ttlSeconds)⟩ }
  file := some []
  accepted := []
  finalised := []
  answers := []

def start (knowledge : Bool) (clock : Time) (s : Store Uuid) (u : TusUpload Uuid)
    (rs : List (PatchRequest Uuid)) : Requests Uuid :=
  launch {} (.created clock s u) (rs.map (patch knowledge u.uploadId))

/-! ## What a request does -/

/-- What holds of a request when it performs an operation. -/
def Ok (l : Notes Uuid) : Op Uuid → Prop
  | .cas _ expectedOffset newOffset _ _ =>
    l.phase = .idle ∧ l.standing = false ∧ l.finalised = false ∧ expectedOffset ≤ newOffset ∧
      ∃ u, l.seen = some u ∧ newOffset ≤ u.uploadLength
  | .append chunk => l.phase = .claimed ∧ l.newOffset = l.offset + chunk.length
  | .truncate length => l.phase = .failed ∧ length = l.offset
  | .rollback u expectedOffset newOffset _ =>
    l.phase = .cleared ∧ l.standing = true ∧ l.finalised = false ∧ l.seen = some u ∧
      expectedOffset = l.newOffset ∧ newOffset = l.offset
  | .finalise _ =>
    l.phase = .written ∧ l.standing = true ∧ l.finalised = false ∧
      ∃ u, l.seen = some u ∧ l.newOffset = u.uploadLength
  | .remove => l.phase = .written
  | .delete _ => l.phase = .removed
  | .answer _ =>
    l.phase = .idle ∨ l.phase = .stuck ∨ l.phase = .rolledBack ∨ l.phase = .written ∨
      l.phase = .deleted
  | .get | .now | .getsize => True

section Obeys

variable {id userId : Uuid} {l : Notes Uuid} {u : TusUpload Uuid} {r : PatchRequest Uuid}
  {expectedOffset offset newOffset hour : ℕ} {knowledge : Bool}

/-- The requests owe each other nothing. -/
abbrev rules (id : Uuid) : Discipline (machine id) := free (machine id) {}

theorem obeys_refuse {e : PatchError Uuid}
    (hl : l.phase = .idle ∨ l.phase = .stuck ∨ l.phase = .rolledBack) :
    Obeys (rules id) Ok (fun _ _ => True) (refuse e) l := by
  refine obeys_perform ?_ fun _ _ _ => trivial
  rcases hl with hl | hl | hl
  · exact .inl hl
  · exact .inr (.inl hl)
  · exact .inr (.inr (.inl hl))

/-- A claim that is not accepted leaves the request idle. -/
theorem obeys_claimOffset (hl : l = { seen := some u }) (hle : expectedOffset ≤ newOffset)
    (hlength : newOffset ≤ u.uploadLength) :
    Obeys (rules id) Ok
      (fun l' result => if result = .accepted
        then l' = ⟨.claimed, some u, expectedOffset, newOffset, true, false⟩ else l' = l)
      (claimOffset expectedOffset newOffset hour) l := by
  subst hl
  refine obeys_perform_bind trivial fun _ (read : Option (TusUpload Uuid)) _ => ?_
  cases read with
  | none => rfl
  | some =>
    refine obeys_perform_bind trivial fun _ _ _ => ?_
    refine obeys_perform ⟨rfl, rfl, rfl, hle, u, rfl, hlength⟩ ?_
    intro _ (result : TusOffsetUpdateResult) _
    by_cases hresult : result = .accepted
    · rw [if_pos hresult, hresult]
      rfl
    · rw [if_neg hresult]
      exact if_neg hresult

theorem obeys_undo (hl : l = ⟨.failed, some u, offset, newOffset, true, false⟩) :
    Obeys (rules id) Ok (fun _ _ => True) (undo u offset newOffset hour) l := by
  subst hl
  refine obeys_perform_bind ⟨rfl, rfl⟩ fun _ (ok : Bool) _ => ?_
  cases ok with
  | false => exact obeys_refuse (.inr (.inl rfl))
  | true =>
    refine obeys_perform_bind ⟨rfl, rfl, rfl, rfl, rfl, rfl⟩ fun _ _ _ => ?_
    exact obeys_refuse (.inr (.inr rfl))

section L

variable (hl : l = ⟨.written, some u, offset, newOffset, true, false⟩)

include hl

theorem obeys_finaliseStaged (hlength : newOffset = u.uploadLength) :
    Obeys (rules id) Ok (fun l' _ => l'.phase = .written)
      (finaliseStaged knowledge userId u) l := by
  subst hl
  refine obeys_perform_bind trivial fun _ (size : Option ℕ) _ => ?_
  cases size with
  | none => rfl
  | some staged =>
    by_cases hstaged : staged = u.uploadLength
    · cases htarget : u.target knowledge with
      | none =>
        simp only [hstaged, ne_eq, not_true_eq_false, ↓reduceIte]
        rfl
      | some =>
        simp only [hstaged, ne_eq, not_true_eq_false, ↓reduceIte]
        refine obeys_perform_bind ⟨rfl, rfl, rfl, u, rfl, hlength⟩ fun _ (ok : Bool) _ => ?_
        cases ok <;> rfl
    · simp only [hstaged, ne_eq, not_false_eq_true, ↓reduceIte]
      rfl

omit hl in
omit [DecidableEq Uuid] in
theorem phase_note_get_some (v : TusUpload Uuid) : (note l .get (some v)).phase = l.phase := by
  cases hseen : l.seen <;> simp [note, hseen]

theorem obeys_finish (hlength : newOffset = u.uploadLength) :
    Obeys (rules id) Ok (fun _ _ => True) (finish knowledge userId u newOffset) l := by
  refine obeys_bind (obeys_finaliseStaged hl hlength) fun l' outcome hl' => ?_
  refine obeys_perform_bind hl' fun _ _ _ => ?_
  refine obeys_perform_bind trivial fun _ (read : Option (TusUpload Uuid)) _ => ?_
  cases read with
  | none => exact obeys_perform (.inr (.inr (.inr (.inr rfl)))) fun _ _ _ => trivial
  | some v =>
    refine obeys_perform_bind (phase_note_get_some v) fun _ _ _ => ?_
    exact obeys_perform (.inr (.inr (.inr (.inr rfl)))) fun _ _ _ => trivial

end L

theorem obeys_writeChunk
    (hl : l = ⟨.claimed, some u, r.offset, r.offset + r.chunk.length, true, false⟩)
    (hlength : r.offset + r.chunk.length ≤ u.uploadLength) :
    Obeys (rules id) Ok (fun _ _ => True)
      (writeChunk knowledge r u (r.offset + r.chunk.length) hour) l := by
  subst hl
  refine obeys_perform_bind ⟨rfl, rfl⟩ fun _ (ok : Bool) _ => ?_
  cases ok with
  | false => exact obeys_undo rfl
  | true =>
    by_cases hfinal : r.offset + r.chunk.length < u.uploadLength
    · simp only [↓reduceIte, hfinal]
      exact obeys_perform (.inr (.inr (.inr (.inl rfl)))) fun _ _ _ => trivial
    · simp only [↓reduceIte, hfinal]
      exact obeys_finish rfl (Nat.le_antisymm hlength (Nat.not_lt.mp hfinal))

theorem length_le_of_refusal_eq_none (h : r.refusal id u = none) :
    r.offset + r.chunk.length ≤ u.uploadLength := by
  simp only [PatchRequest.refusal] at h
  split_ifs at h with huser hoffset hchunk hlength
  exact Nat.not_lt.mp hlength

theorem obeys_patch (knowledge : Bool) (r : PatchRequest Uuid) :
    Obeys (rules id) Ok (fun _ _ => True) (patch knowledge id r) {} := by
  refine obeys_perform_bind trivial fun _ (read : Option (TusUpload Uuid)) _ => ?_
  cases read with
  | none => exact obeys_refuse (.inl rfl)
  | some u =>
    cases hrefusal : r.refusal id u with
    | some =>
      simp only [hrefusal]
      exact obeys_refuse (.inl rfl)
    | none =>
      simp only [hrefusal]
      have hlength := length_le_of_refusal_eq_none hrefusal
      refine obeys_perform_bind trivial fun _ (t : Time) _ => ?_
      refine obeys_bind (obeys_claimOffset rfl (Nat.le_add_right _ _) hlength) ?_
      intro l' result hl'
      cases result with
      | accepted => exact obeys_writeChunk hl' hlength
      | mismatch | missing | userHourlyLimit | projectHourlyLimit =>
        exact obeys_refuse (.inl (congrArg Notes.phase hl'))

theorem obeyed_start (knowledge : Bool) (clock : Time) (s : Store Uuid) (u : TusUpload Uuid)
    (rs : List (PatchRequest Uuid)) :
    Obeyed (machine u.uploadId) {} (fun _ => Ok) (fun _ _ _ => True)
      (start knowledge clock s u rs) := by
  refine obeyed_launch _ ?_
  intro i p hp
  obtain ⟨r, -, rfl⟩ := List.mem_map.mp (List.mem_of_getElem? hp)
  exact obeys_patch knowledge r

end Obeys

/-! ## What operations do to the state of the upload -/

/-- The state of the upload, as a reader finds it. -/
def World.state (id : Uuid) (w : World Uuid) : Option (TusUpload Uuid) :=
  get w.store.uploads w.clock id

section State

variable {id : Uuid} {w w' : World Uuid} {u : TusUpload Uuid}

/-- The operation runs a script that writes. -/
def Op.writesStore : Op Uuid → Bool
  | .cas .. | .rollback .. | .delete _ => true
  | .get | .now | .append _ | .truncate _ | .getsize | .finalise _ | .remove | .answer _ => false

/-- The other operations leave the store alone, and none changes the clock. -/
theorem store_act {o : Op Uuid} (ho : o.writesStore = false) (id : Uuid) (i : ℕ)
    (input : Input) (l : Notes Uuid) (w : World Uuid) :
    (act id i o input l w).2.store = w.store ∧ (act id i o input l w).2.clock = w.clock := by
  cases o with
  | cas | rollback | delete => cases ho
  | append | remove =>
    simp only [act]
    split <;> exact ⟨rfl, rfl⟩
  | truncate =>
    simp only [act]
    split
    · exact ⟨rfl, rfl⟩
    · split <;> exact ⟨rfl, rfl⟩
  | _ => exact ⟨rfl, rfl⟩

omit [DecidableEq Uuid] in
theorem World.state_congr (hstore : w'.store.uploads id = w.store.uploads id)
    (hclock : w'.clock = w.clock) : w'.state id = w.state id := by
  unfold World.state
  rw [hclock]
  exact get_congr hstore

theorem state_created (clock : Time) (s : Store Uuid) (u : TusUpload Uuid) :
    (World.created clock s u).state u.uploadId = some { u with uploadOffset := 0 } :=
  get_put_self (by simp [World.created, Time.after]) _

theorem state_act {o : Op Uuid} {i : ℕ} {input : Input} {l : Notes Uuid} {r : Res o}
    (ho : o.writesStore = false) (h : act id i o input l w = (r, w')) :
    w'.state id = w.state id := by
  obtain ⟨hstore, hclock⟩ := store_act ho id i input l w
  rw [h] at hstore hclock
  exact World.state_congr (congrArg (Store.uploads · id) hstore) hclock

/-- A claim that is accepted finds the offset it expects, and moves it. -/
theorem state_cas (id : Uuid) (u : TusUpload Uuid) (expectedOffset newOffset hour now : ℕ)
    (w : World Uuid) :
    (casScript w.clock id u expectedOffset newOffset hour now w.store).1 ≠ .accepted ∧
        (casScript w.clock id u expectedOffset newOffset hour now w.store).2 = w.store ∨
      (casScript w.clock id u expectedOffset newOffset hour now w.store).1 = .accepted ∧
        ∃ data, w.state id = some data ∧ data.uploadOffset = expectedOffset ∧
          ({ w with
            store := (casScript w.clock id u expectedOffset newOffset hour now w.store).2 } :
            World Uuid).state id = some { data with uploadOffset := newOffset } := by
  obtain hrejected | ⟨data, quotas, hdata, hoffset, haccepted⟩ :=
    casScript_cases w.clock id u expectedOffset newOffset hour now w.store
  · exact .inl hrejected
  · rw [haccepted]
    refine .inr ⟨rfl, data, hdata, hoffset, ?_⟩
    exact get_put_self (by simp [Time.after]) id

/-- A rollback that succeeds finds the offset of the claim, and moves it back. -/
theorem state_rollback (hu : u.uploadId = id) (expectedOffset newOffset hour : ℕ)
    (w : World Uuid) :
    rollbackScript w.clock u expectedOffset newOffset hour w.store = (false, w.store) ∧
        (∀ data, w.state id = some data → data.uploadOffset ≠ expectedOffset) ∨
      (rollbackScript w.clock u expectedOffset newOffset hour w.store).1 = true ∧
        ∃ data, w.state id = some data ∧ data.uploadOffset = expectedOffset ∧
          ({ w with
            store := (rollbackScript w.clock u expectedOffset newOffset hour w.store).2 } :
            World Uuid).state id = some { data with uploadOffset := newOffset } := by
  subst hu
  unfold rollbackScript
  cases hget : get w.store.uploads w.clock u.uploadId with
  | none =>
    refine .inl ⟨rfl, fun data hdata => ?_⟩
    simp [World.state, hget] at hdata
  | some data =>
    by_cases hoffset : data.uploadOffset = expectedOffset
    · simp only [hoffset, ne_eq, not_true_eq_false, ↓reduceIte]
      refine .inr ⟨trivial, data, hget, hoffset, ?_⟩
      exact get_put_self (by simp [Time.after]) _
    · simp only [hoffset, ne_eq, not_false_eq_true, ↓reduceIte]
      refine .inl ⟨trivial, fun data' hdata' => ?_⟩
      cases hdata'.symm.trans hget
      exact hoffset

theorem state_delete (id : Uuid) (u : TusUpload Uuid) (w : World Uuid) :
    ({ w with store := deleteScript w.clock id u w.store } : World Uuid).state id = none := by
  unfold World.state deleteScript
  cases hget : get w.store.uploads w.clock id with
  | none => exact hget
  | some => exact get_of_eq_none (del_self _ _)

/-- From outside the state can only expire. -/
theorem state_outside {e : Event Uuid} {new : List (Notes Uuid × Prog Uuid Unit)}
    (h : outside id e w = some (w', new)) :
    new = [] ∧ w'.file = w.file ∧ w'.accepted = w.accepted ∧ w'.finalised = w.finalised ∧
      ∀ u, w'.state id = some u → w.state id = some u := by
  cases e with
  | tick =>
    cases h
    exact ⟨rfl, rfl, rfl, rfl, fun u hu => get_mono (Nat.le_add_right _ _) hu⟩
  | others s =>
    by_cases hs : s.uploads id = w.store.uploads id
    · simp only [outside, hs, ↓reduceIte, Option.some.injEq, Prod.mk.injEq] at h
      obtain ⟨rfl, rfl⟩ := h
      exact ⟨rfl, rfl, rfl, rfl, fun u hu => hu ▸ (get_congr hs).symm⟩
    · simp only [outside, hs, ↓reduceIte] at h
      cases h

end State

/-! ## The declared length -/

/-- The upload's own id and length. -/
def TusUpload.IsOf (id : Uuid) (length : ℕ) (u : TusUpload Uuid) : Prop :=
  u.uploadId = id ∧ u.uploadLength = length

/-- The state has the id and length the upload was created with, and so has what requests
have read. -/
structure Declared (id : Uuid) (length : ℕ) (N : ℕ → Notes Uuid) (w : World Uuid) : Prop where
  stored : ∀ u, w.state id = some u → u.IsOf id length
  seen : ∀ i u, (N i).seen = some u → u.IsOf id length

namespace Declared

variable {id : Uuid} {length : ℕ} {N : ℕ → Notes Uuid} {w w' : World Uuid} {i : ℕ}

theorem initial (hN : ∀ i, N i = {}) (clock : Time) (s : Store Uuid) (u : TusUpload Uuid) :
    Declared u.uploadId u.uploadLength N (.created clock s u) where
  stored v hv := by
    obtain rfl := Option.some.inj (hv.symm.trans (state_created clock s u))
    exact ⟨rfl, rfl⟩
  seen i v hv := by simp [hN] at hv

omit [DecidableEq Uuid] in
theorem seen_note {o : Op Uuid} {r : Res o} {l : Notes Uuid} (ho : o ≠ .get) :
    (note l o r).seen = l.seen := by
  cases o with
  | get => exact absurd rfl ho
  | cas =>
    simp only [note]
    split <;> rfl
  | _ => rfl

variable (h : Declared id length N w)

include h

omit [DecidableEq Uuid] in
/-- A step that leaves the state as it was, moves its offset or ends it. -/
theorem update {l : Notes Uuid}
    (hstate : ∀ u', w'.state id = some u' → ∃ u n, w.state id = some u ∧
      u' = { u with uploadOffset := n })
    (hseen : ∀ u, l.seen = some u → (N i).seen = some u ∨ w.state id = some u) :
    Declared id length (Function.update N i l) w' where
  stored u' hu' := by
    obtain ⟨u, n, hu, rfl⟩ := hstate u' hu'
    exact h.stored u hu
  seen j u := by
    refine update_elim (fun hu => ?_) fun j _ => h.seen j u
    rcases hseen u hu with hu | hu
    · exact h.seen i u hu
    · exact h.stored u hu

omit [DecidableEq Uuid] in
/-- A step that leaves the state as it was. -/
theorem keep {l : Notes Uuid} (hstate : w'.state id = w.state id) (hseen : l.seen = (N i).seen) :
    Declared id length (Function.update N i l) w' := by
  refine h.update ?_ fun u hu => .inl (hseen ▸ hu)
  intro u hu
  exact ⟨u, u.uploadOffset, hstate ▸ hu, rfl⟩

theorem step {o : Op Uuid} {input : Input} {r : Res o} (hok : Ok (N i) o)
    (hact : act id i o input (N i) w = (r, w')) :
    Declared id length (Function.update N i (note (N i) o r)) w' := by
  cases o with
  | get =>
    cases hact
    refine h.update (fun u hu => ⟨u, u.uploadOffset, hu, rfl⟩) ?_
    intro u hu
    cases hread : get w.store.uploads w.clock id with
    | none =>
      rw [hread] at hu
      simp only [note] at hu
      split at hu <;> exact .inl hu
    | some =>
      rw [hread] at hu
      simp only [note] at hu
      split at hu
      · cases hu
        exact .inr hread
      · exact .inl hu
  | cas v expectedOffset newOffset hour now =>
    cases hact
    have hseen := seen_note (l := N i) (o := .cas v expectedOffset newOffset hour now)
      (r := (casScript w.clock id v expectedOffset newOffset hour now w.store).1) nofun
    refine h.update ?_ fun u hu => .inl (hseen.symm.trans hu)
    intro u' hu'
    obtain ⟨-, hsame⟩ | ⟨-, data, hdata, -, hmoved⟩ :=
      state_cas id v expectedOffset newOffset hour now w
    · rw [hsame] at hu'
      exact ⟨u', u'.uploadOffset, hu', rfl⟩
    · exact ⟨data, newOffset, hdata, Option.some.inj (hu'.symm.trans hmoved)⟩
  | rollback v expectedOffset newOffset hour =>
    cases hact
    refine h.update ?_ fun u hu => .inl hu
    intro u' hu'
    have hv := (h.seen i v hok.2.2.2.1).1
    obtain ⟨hsame, -⟩ | ⟨-, data, hdata, -, hmoved⟩ :=
      state_rollback hv expectedOffset newOffset hour w
    · rw [hsame] at hu'
      exact ⟨u', u'.uploadOffset, hu', rfl⟩
    · exact ⟨data, newOffset, hdata, Option.some.inj (hu'.symm.trans hmoved)⟩
  | delete =>
    cases hact
    refine h.update ?_ fun u hu => .inl hu
    intro u' hu'
    simp [state_delete] at hu'
  | _ => exact h.keep (state_act rfl hact) (seen_note nofun)

theorem outside {e : Event Uuid} {new : List (Notes Uuid × Prog Uuid Unit)}
    (henv : Uploads.outside id e w = some (w', new)) : Declared id length N w' := by
  obtain ⟨-, -, -, -, hstate⟩ := state_outside henv
  exact ⟨fun u hu => h.stored u (hstate u hu), h.seen⟩

end Declared

end Smap.Uploads
