import Smap.Lib.Holders
import Smap.Uploads.Service

/-!
# The staged file

A PATCH request claims its offset before it appends, and appends to the end of the file
wherever that is.  Two requests whose claims follow each other may append in the other order;
the file then has the declared length and the wrong bytes.  A failed append is truncated away,
also where someone else has appended in the meantime.

Requests that keep apart, in that no claim is accepted between the claim and the answer of
another request, leave a file that holds every body where it was accepted.
-/

namespace Smap.Uploads

open Smap.Program Smap.Expiring Smap.Holders List Notes

variable {Uuid : Type}

/-- The file a finaliser is given has the declared length, and holds every body that has
been accepted at its offset. -/
def Call.Faithful (length : ℕ) (c : Call Uuid) : Prop :=
  ∃ bytes, c.file = some bytes ∧ bytes.length = length ∧
    ∀ a ∈ c.accepted, (bytes.drop a.1).take a.2.length = a.2

/-- Every body stands in the file at its offset. -/
def InPlace (accepted : List (ℕ × Bytes)) (bytes : Bytes) : Prop :=
  ∀ a ∈ accepted, a.2 <+: bytes.drop a.1

section InPlace

variable {accepted : List (ℕ × Bytes)} {bytes : Bytes}

/-- What is appended leaves the bodies where they are. -/
theorem InPlace.append (h : InPlace accepted bytes) (rest : Bytes) :
    InPlace accepted (bytes ++ rest) := by
  intro a ha
  rw [drop_append]
  exact (h a ha).trans (prefix_append _ _)

/-- A body that is appended stands at the end. -/
theorem InPlace.append_self (h : InPlace accepted bytes) (chunk : Bytes) :
    InPlace (accepted ++ [(bytes.length, chunk)]) (bytes ++ chunk) := by
  intro a ha
  rcases mem_append.mp ha with ha | ha
  · exact h.append chunk a ha
  · obtain rfl := mem_singleton.mp ha
    rw [drop_left]

theorem truncated_append (bytes rest : Bytes) : truncated (bytes ++ rest) bytes.length = bytes := by
  simp [truncated]

end InPlace

/-! ## Phases of the request in progress -/

/-- The file has a length, the state an offset, and the bodies are in place. -/
def World.Staged (id : Uuid) (w : World Uuid) (length offset : ℕ) : Prop :=
  ∃ bytes, w.file = some bytes ∧ bytes.length = length ∧ InPlace w.accepted bytes ∧
    ∀ u, w.state id = some u → u.uploadOffset = offset

/-- The file is as long as the state says, as long as there is a state. -/
def Clean (id : Uuid) (w : World Uuid) : Prop :=
  ∀ u, w.state id = some u → w.Staged id u.uploadOffset u.uploadOffset

/-- The file and the state while a request is in progress. -/
def Notes.Stage (id : Uuid) (l : Notes Uuid) (w : World Uuid) : Prop :=
  match l.phase with
  | .claimed | .cleared => w.Staged id l.offset l.newOffset
  | .failed =>
    ∃ bytes rest, w.file = some (bytes ++ rest) ∧ bytes.length = l.offset ∧
      InPlace w.accepted bytes ∧ ∀ u, w.state id = some u → u.uploadOffset = l.newOffset
  | .written => w.Staged id l.newOffset l.newOffset
  | .rolledBack => Clean id w
  | .deleted => w.state id = none
  | .stuck => False
  | .idle | .removed | .answered => True

/-- Nobody claims while another request is in progress, and no truncation fails. -/
def keepApart (id : Uuid) (i : ℕ) (input : Input) (N : ℕ → Notes Uuid) (o : Op Uuid)
    (w : World Uuid) : Prop :=
  match o with
  | .cas _ expectedOffset _ _ _ =>
    (∃ u, w.state id = some u ∧ u.uploadOffset = expectedOffset) →
      ∀ j, j ≠ i → (N j).inProgress = false
  | .truncate _ => input.truncateFault = false
  | _ => True

/-- At most one request is in progress, and the file and the state are as its phase says. -/
abbrev Held (id : Uuid) (N : ℕ → Notes Uuid) (w : World Uuid) : Prop :=
  OneHolder inProgress (Notes.Stage id) (Clean id) N w

/-- What every step keeps. -/
structure Staging (id : Uuid) (length : ℕ) (N : ℕ → Notes Uuid) (w : World Uuid) : Prop where
  declared : Declared id length N w
  holder : Held id N w
  faithful : ∀ c ∈ w.finalised, c.Faithful length

variable {id : Uuid} {w w' : World Uuid} {l : Notes Uuid} {length : ℕ}

section Stages

variable {l' : Notes Uuid} {offset : ℕ}

section Congr

variable (hfile : w'.file = w.file) (haccepted : w'.accepted = w.accepted)
  (hstate : ∀ u, w'.state id = some u → w.state id = some u)

include hfile haccepted hstate

/-- A stage depends on the file and the bodies, and on a state that may expire. -/
theorem World.Staged.congr (h : w.Staged id length offset) : w'.Staged id length offset := by
  obtain ⟨bytes, hbytes, hlength, hplace, hoffset⟩ := h
  exact ⟨bytes, hfile.trans hbytes, hlength, haccepted ▸ hplace,
    fun u hu => hoffset u (hstate u hu)⟩

theorem Clean.congr (h : Clean id w) : Clean id w' :=
  fun u hu => (h u (hstate u hu)).congr hfile haccepted hstate

theorem Notes.Stage.congr (h : l.Stage id w) : l.Stage id w' := by
  unfold Notes.Stage at h ⊢
  split at h
  · exact h.congr hfile haccepted hstate
  · exact h.congr hfile haccepted hstate
  · obtain ⟨bytes, rest, hbytes, hlength, hplace, hoffset⟩ := h
    exact ⟨bytes, rest, hfile.trans hbytes, hlength, haccepted ▸ hplace,
      fun u hu => hoffset u (hstate u hu)⟩
  · exact h.congr hfile haccepted hstate
  · exact Clean.congr hfile haccepted hstate h
  · exact Option.eq_none_iff_forall_ne_some.mpr fun u hu =>
      Option.eq_none_iff_forall_ne_some.mp h u (hstate u hu)
  · exact h
  all_goals trivial

end Congr

theorem World.Staged.clean (h : w.Staged id offset offset) : Clean id w := by
  intro u hu
  obtain ⟨bytes, hbytes, hlength, hplace, hoffset⟩ := h
  rw [hoffset u hu]
  exact ⟨bytes, hbytes, hlength, hplace, hoffset⟩

theorem clean_of_state_eq_none (h : w.state id = none) : Clean id w := by
  intro u hu
  simp [h] at hu

end Stages

/-! ## Steps -/

variable [DecidableEq Uuid]

section Steps

variable {N : ℕ → Notes Uuid} {i : ℕ}

omit [DecidableEq Uuid] in
theorem inProgress_of_phase {phase : Phase} (hl : l.phase = phase)
    (hphase : phase ≠ .idle ∧ phase ≠ .answered) : l.inProgress = true := by
  subst hl
  unfold inProgress
  split
  · rename_i h
    exact absurd h hphase.1
  · rename_i h
    exact absurd h hphase.2
  · rfl

omit [DecidableEq Uuid] in
/-- The file and the state in a phase of the request. -/
theorem Held.at_phase (h : Held id N w) {phase : Phase} (hi : (N i).phase = phase)
    (hphase : phase ≠ .idle ∧ phase ≠ .answered) :
    (N i).inProgress = true ∧ Notes.Stage id { N i with phase := phase } w := by
  have hprogress := inProgress_of_phase hi hphase
  subst hi
  exact ⟨hprogress, h.stage i hprogress⟩

omit [DecidableEq Uuid] in
/-- A request that notes something else than how far it has come. -/
theorem Held.retell (h : Held id N w) (hphase : l.phase = (N i).phase)
    (hoffset : l.offset = (N i).offset) (hnewOffset : l.newOffset = (N i).newOffset) :
    Held id (Function.update N i l) w := by
  have hprogress : l.inProgress = (N i).inProgress := by
    unfold inProgress
    rw [hphase]
  cases hi : (N i).inProgress with
  | false => exact h.wait hi (hprogress.trans hi)
  | true =>
    refine h.advance hi (hprogress.trans hi) ?_
    have hstage := h.stage i hi
    unfold Notes.Stage at hstage ⊢
    rwa [hphase, hoffset, hnewOffset]

variable {o : Op Uuid} {input : Input} {r : Res o}

/-- The operation leaves at most one request in progress, as its phase says. -/
abbrev Op.Hands (id : Uuid) (i : ℕ) (input : Input) (N : ℕ → Notes Uuid) (w : World Uuid)
    (o : Op Uuid) : Prop :=
  Held id (Function.update N i (note (N i) o (act id i o input (N i) w).1))
    (act id i o input (N i) w).2

/-- A read that finds no state ends the request that has removed it. -/
theorem Held.get (h : Held id N w) : Op.Hands id i input N w .get := by
  simp only [Op.Hands, act]
  cases hread : Expiring.get w.store.uploads w.clock id with
  | none =>
    simp only [note]
    by_cases hremoved : (N i).phase = .removed
    · rw [if_pos hremoved]
      exact h.advance (inProgress_of_phase hremoved (by decide)) rfl hread
    · rw [if_neg hremoved]
      exact h.retell rfl rfl rfl
  | some =>
    simp only [note]
    split <;> exact h.retell rfl rfl rfl

variable {u : TusUpload Uuid} {expected new hour now : ℕ}

/-- A claim that is accepted finds nobody in progress, so the file is as long as the state says. -/
theorem Held.cas (h : Held id N w) (hok : Ok (N i) (.cas u expected new hour now))
    (hapart : keepApart id i input N (.cas u expected new hour now) w) :
    Op.Hands id i input N w (.cas u expected new hour now) := by
  simp only [Op.Hands, act]
  obtain ⟨hrejected, hsame⟩ | ⟨haccepted, data, hdata, hoffset, hmoved⟩ :=
    state_cas id u expected new hour now w
  · simp only [note, hrejected, ↓reduceIte, hsame]
    exact h.retell rfl rfl rfl
  simp only [note, haccepted, ↓reduceIte]
  have hothers := hapart ⟨data, hdata, hoffset⟩
  have hnobody : ∀ j, (N j).inProgress = false := by
    intro j
    by_cases hij : j = i
    · subst hij
      simp [inProgress, hok.1]
    · exact hothers j hij
  obtain ⟨bytes, hfile, hlength, hplace, -⟩ := h.idle hnobody data hdata
  refine OneHolder.take hothers rfl ⟨bytes, hfile, hlength.trans hoffset, hplace, ?_⟩
  intro v hv
  cases hv.symm.trans hmoved
  rfl

/-- An append puts the body at the claimed offset, or it fails and leaves a rest behind. -/
theorem Held.append {chunk : Bytes} (h : Held id N w) (hok : Ok (N i) (.append chunk)) :
    Op.Hands id i input N w (.append chunk) := by
  obtain ⟨hi, bytes, hfile, hlength, hplace, hoffset⟩ := h.at_phase hok.1 (by decide)
  cases hfault : input.appendFault with
  | none =>
    simp only [Op.Hands, act, hfault, hfile, Option.getD_some]
    refine h.advance hi rfl ?_
    refine ⟨bytes ++ chunk, rfl, ?_, hlength ▸ hplace.append_self chunk, hoffset⟩
    rw [length_append, hlength]
    exact hok.2.symm
  | some reached =>
    cases reached with
    | none =>
      simp only [Op.Hands, act, hfault]
      exact h.advance hi rfl ⟨bytes, [], by simpa using hfile, hlength, hplace, hoffset⟩
    | some n =>
      simp only [Op.Hands, act, hfault, hfile, Option.getD_some]
      exact h.advance hi rfl ⟨bytes, chunk.take n, rfl, hlength, hplace, hoffset⟩

/-- A truncation takes away what a failed append has left. -/
theorem Held.truncate {offset : ℕ} (h : Held id N w) (hok : Ok (N i) (.truncate offset))
    (hfault : input.truncateFault = false) : Op.Hands id i input N w (.truncate offset) := by
  obtain ⟨hfailed, rfl⟩ := hok
  obtain ⟨hi, bytes, rest, hfile, hlength, hplace, hoffset⟩ := h.at_phase hfailed (by decide)
  simp only [Op.Hands, act, hfile, hfault, Bool.false_eq_true, ↓reduceIte]
  refine h.advance hi rfl ⟨bytes, ?_, hlength, hplace, hoffset⟩
  rw [← hlength, truncated_append]

/-- A rollback moves the offset back to the length of the file, if there still is a state. -/
theorem Held.rollback (h : Held id N w) (hdeclared : Declared id length N w)
    (hok : Ok (N i) (.rollback u expected new hour)) :
    Op.Hands id i input N w (.rollback u expected new hour) := by
  obtain ⟨hcleared, -, -, hseen, rfl, rfl⟩ := hok
  obtain ⟨hi, bytes, hfile, hlength, hplace, hoffset⟩ := h.at_phase hcleared (by decide)
  refine h.advance hi rfl ?_
  have hu := (hdeclared.seen i u hseen).1
  obtain ⟨hsame, hgone⟩ | ⟨-, data, hdata, -, hmoved⟩ :=
    state_rollback hu (N i).newOffset (N i).offset hour w
  · -- The offset is still the one that was claimed, so there is no state any more.
    simp only [act, hsame]
    refine clean_of_state_eq_none (Option.eq_none_iff_forall_ne_some.mpr ?_)
    exact fun v hv => hgone v hv (hoffset v hv)
  · intro v hv
    cases hv.symm.trans hmoved
    refine ⟨bytes, hfile, hlength, hplace, ?_⟩
    intro v' hv'
    cases hv'.symm.trans hmoved
    rfl

/-- A request is answered before it claims, or once the file and the state agree again. -/
theorem Held.answer {result : Except (PatchError Uuid) TusPatchResult} (h : Held id N w)
    (hok : Ok (N i) (.answer result)) : Op.Hands id i input N w (.answer result) := by
  have hsame : Held id N { w with answers := w.answers ++ [(i, result)] } :=
    h.congr (fun j _ hstage => hstage.congr rfl rfl fun _ hu => hu)
      (fun hclean => hclean.congr rfl rfl fun _ hu => hu)
  rcases hok with hidle | hstuck | hrolledBack | hwritten | hdeleted
  · exact hsame.wait (by simp [inProgress, hidle]) rfl
  · exact (hsame.at_phase hstuck (by decide)).2.elim
  · obtain ⟨hi, hclean⟩ := hsame.at_phase hrolledBack (by decide)
    exact hsame.release hi rfl hclean
  · obtain ⟨hi, hstaged⟩ := hsame.at_phase hwritten (by decide)
    exact hsame.release hi rfl (World.Staged.clean hstaged)
  · obtain ⟨hi, hnone⟩ := hsame.at_phase hdeleted (by decide)
    exact hsame.release hi rfl (clean_of_state_eq_none hnone)

theorem holder_step (h : Held id N w) (hdeclared : Declared id length N w) (hok : Ok (N i) o)
    (hapart : keepApart id i input N o w) (hact : act id i o input (N i) w = (r, w')) :
    Held id (Function.update N i (note (N i) o r)) w' := by
  obtain rfl : (act id i o input (N i) w).1 = r := congrArg Prod.fst hact
  obtain rfl : (act id i o input (N i) w).2 = w' := congrArg Prod.snd hact
  cases o with
  | get => exact h.get
  | now | getsize => exact h.retell rfl rfl rfl
  | cas => exact h.cas hok hapart
  | append => exact h.append hok
  | truncate => exact h.truncate hok hapart
  | rollback => exact h.rollback hdeclared hok
  | finalise =>
    have hi := inProgress_of_phase hok.1 (by decide)
    refine h.advance hi (inProgress_of_phase hok.1 (by decide)) ?_
    exact (h.stage i hi).congr rfl rfl fun _ hu => hu
  | remove => exact h.advance (inProgress_of_phase hok (by decide)) rfl trivial
  | delete u => exact h.advance (inProgress_of_phase hok (by decide)) rfl (state_delete id u w)
  | answer => exact h.answer hok

/-- Only a finaliser's call adds to the finalised files. -/
theorem finalised_act (ho : ∀ f, o ≠ .finalise f) (hact : act id i o input (N i) w = (r, w')) :
    w'.finalised = w.finalised := by
  have hsnd := congrArg (fun x => x.2.finalised) hact
  cases o with
  | finalise f => exact absurd rfl (ho f)
  | append | remove =>
    simp only [act] at hsnd
    split at hsnd <;> exact hsnd.symm
  | truncate =>
    simp only [act] at hsnd
    split at hsnd
    · exact hsnd.symm
    · split at hsnd <;> exact hsnd.symm
  | _ => exact hsnd.symm

/-- **One step of a request.** -/
theorem Staging.step (h : Staging id length N w) (hok : Ok (N i) o)
    (hapart : keepApart id i input N o w) (hact : act id i o input (N i) w = (r, w')) :
    Staging id length (Function.update N i (note (N i) o r)) w' where
  declared := h.declared.step hok hact
  holder := holder_step h.holder h.declared hok hapart hact
  faithful := by
    by_cases ho : ∀ f, o ≠ .finalise f
    · rw [finalised_act ho hact]
      exact h.faithful
    simp only [not_forall, not_not] at ho
    obtain ⟨f, rfl⟩ := ho
    cases hact
    obtain ⟨hwritten, -, -, u, hseen, hlength⟩ := hok
    obtain ⟨-, bytes, hfile, hbytes, hplace, -⟩ := h.holder.at_phase hwritten (by decide)
    intro c hc
    rcases mem_append.mp hc with hc | hc
    · exact h.faithful c hc
    · obtain rfl := mem_singleton.mp hc
      refine ⟨bytes, hfile, ?_, fun a ha => (prefix_iff_eq_take.mp (hplace a ha)).symm⟩
      exact hbytes.trans (hlength.trans (h.declared.seen i u hseen).2)

theorem Staging.outside {e : Event Uuid} {new : List (Notes Uuid × Prog Uuid Unit)}
    (h : Staging id length N w) (henv : Uploads.outside id e w = some (w', new)) :
    new = [] ∧ Staging id length N w' := by
  obtain ⟨hnew, hfile, haccepted, hfinalised, hstate⟩ := state_outside henv
  refine ⟨hnew, h.declared.outside henv, ?_, hfinalised ▸ h.faithful⟩
  exact h.holder.congr (fun j _ hstage => hstage.congr hfile haccepted hstate)
    (fun hclean => hclean.congr hfile haccepted hstate)

theorem Staging.initial (hN : ∀ i, N i = {}) (clock : Time) (s : Store Uuid)
    (u : TusUpload Uuid) : Staging u.uploadId u.uploadLength N (.created clock s u) where
  declared := .initial hN clock s u
  holder := by
    constructor
    · intro i j hi
      simp [hN, inProgress] at hi
    · intro i hi
      simp [hN, inProgress] at hi
    · intro _ v hv
      have hcreated := state_created clock s u
      cases hv.symm.trans hcreated
      refine ⟨[], rfl, rfl, by simp [InPlace, World.created], ?_⟩
      intro v' hv'
      cases hv'.symm.trans hcreated
      rfl
  faithful c hc := by simp [World.created] at hc

end Steps

/-- **A finalised upload holds the bytes that were accepted**, if no claim is accepted while
another request is in progress and no truncation fails. -/
theorem finalised_file_faithful (knowledge : Bool) (clock : Time) (s : Store Uuid)
    (u : TusUpload Uuid) (rs : List (PatchRequest Uuid)) (ms : List (Move Input (Event Uuid)))
    (p : Requests Uuid) (hall : AllSteps (machine u.uploadId)
      (atRecords {} (keepApart u.uploadId) fun _ _ _ => True) ms (start knowledge clock s u rs))
    (hrun : run (machine u.uploadId) ms (start knowledge clock s u rs) = some p) :
    ∀ c ∈ p.world.finalised, c.Faithful u.uploadLength := by
  have hinv := records_invariant
    (R := Staging u.uploadId u.uploadLength) ?_ ?_ hall (obeyed_start knowledge clock s u rs)
    (.initial (locOf_launch _ _ _) clock s u) hrun
  · exact hinv.2.faithful
  · intro N w i o input r w' hok hapart hR hact
    exact hR.step hok hapart (Option.some.inj hact)
  · intro N w e w' new _ hR henv
    exact hR.outside henv

/-! ## Two schedules -/

/-- A test for `keepApart`, with the number of requests. -/
def keepsApart (id : Uuid) (i : ℕ) (input : Input) (n : ℕ) (N : ℕ → Notes Uuid) (o : Op Uuid)
    (w : World Uuid) : Bool :=
  match o with
  | .cas _ expectedOffset _ _ _ =>
    !((w.state id).any fun u => u.uploadOffset == expectedOffset) ||
      (List.range n).all fun j => j == i || !(N j).inProgress
  | .truncate _ => !input.truncateFault
  | _ => true

omit [DecidableEq Uuid] in
theorem keepApart_of_keepsApart (id : Uuid) (i : ℕ) (input : Input) (n : ℕ)
    (N : ℕ → Notes Uuid) (o : Op Uuid) (w : World Uuid) (hN : ∀ j, n ≤ j → N j = {})
    (h : keepsApart id i input n N o w = true) : keepApart id i input N o w := by
  cases o with
  | cas =>
    rintro ⟨v, hv, hoffset⟩ j hij
    by_cases hj : j < n
    · simp only [keepsApart, hv, Option.any_some, hoffset, BEq.rfl, Bool.not_true,
        Bool.false_or, all_eq_true, mem_range] at h
      simpa [hij] using h j hj
    · rw [hN j (Nat.not_lt.mp hj)]
      rfl
  | truncate => simpa [keepsApart, keepApart] using h
  | _ => trivial

/-- An upload of so many bytes. -/
def uploadOf (length : ℕ) : TusUpload (Fin 1) where
  uploadId := 0
  userId := 0
  uploadLength := length
  uploadOffset := 0
  purpose := .chatAttachment
  projectId := 0
  chatroomId := some 0
  ragConfigId := none
  knowmapConfigId := none
  filename := "a.txt"
  mime := "text/plain"
  stagingPath := "/tmp/smap-tus/a.part"
  metadataRaw := ""

/-- A request takes so many steps, and no operation fails. -/
def steps (i n : ℕ) : List (Move Input (Event (Fin 1))) := List.replicate n (.step i {})

/-- A request whose append fails after one byte, the same request again, and the last one. -/
def inTurn : List (Move Input (Event (Fin 1))) :=
  steps 0 5 ++ [.step 0 { appendFault := some (some 1) }] ++ steps 0 3 ++ steps 1 7 ++ steps 2 12

def threeRequests : Requests (Fin 1) :=
  start false 0 .empty (uploadOf 2) [⟨0, 0, [1]⟩, ⟨0, 0, [1]⟩, ⟨0, 1, [2]⟩]

/-- The file of requests that take turns. -/
theorem requests_in_turn :
    (run (machine 0) inTurn threeRequests).any
        (fun p => p.world.finalised.map Call.file == [some [1, 2]]) = true ∧
      ∀ p, run (machine 0) inTurn threeRequests = some p →
        ∀ c ∈ p.world.finalised, c.Faithful 2 := by
  have hcheck : checkSteps (machine 0) (checkRecords {} (keepsApart 0)) inTurn threeRequests =
      true := by
    decide +kernel
  have hall := allSteps_of_checkSteps
    (atRecords_of_checkRecords (keepApart_of_keepsApart 0)) _ _ hcheck
  refine ⟨by decide +kernel, fun p hp => ?_⟩
  exact finalised_file_faithful false 0 .empty (uploadOf 2) _ inTurn p hall hp

/-- The second request claims, and appends, before the first one appends. -/
def overtaking : List (Move Input (Event (Fin 1))) :=
  steps 0 5 ++ steps 1 6 ++ steps 0 2 ++ steps 1 2

def twoRequests : Requests (Fin 1) :=
  start false 0 .empty (uploadOf 2) [⟨0, 0, [1]⟩, ⟨0, 1, [2]⟩]

/-- **Bodies swapped.**  Both requests are accepted, the file has the declared length, and a
finaliser is given the two bodies in the wrong order. -/
theorem bodies_swapped :
    ∃ p, run (machine 0) overtaking twoRequests = some p ∧
      ∃ c ∈ p.world.finalised, c.file = some [2, 1] ∧ c.accepted = [(1, [2]), (0, [1])] ∧
        ¬ c.Faithful 2 := by
  obtain ⟨p, hp, c, hc, hfile, haccepted⟩ : ∃ p ∈ run (machine 0) overtaking twoRequests,
      ∃ c ∈ p.world.finalised, c.file = some [2, 1] ∧ c.accepted = [(1, [2]), (0, [1])] := by
    decide +kernel
  refine ⟨p, hp, c, hc, hfile, haccepted, ?_⟩
  rintro ⟨bytes, hbytes, -, hplace⟩
  cases hfile.symm.trans hbytes
  rw [haccepted] at hplace
  exact absurd (hplace (1, [2]) mem_cons_self) (by decide)

end Smap.Uploads
