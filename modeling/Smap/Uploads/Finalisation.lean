import Smap.Uploads.Staging

/-!
# Finalising an upload

A PATCH request whose claim reaches the declared length finalises the upload.  Once a claim
has reached it, no request with a body can claim any more.  One without a body can: its claim
moves the offset nowhere and is accepted until the state has been deleted, and it then
finalises the upload like the request before it.
-/

namespace Smap.Uploads

open Smap.Program Smap.Expiring Smap.Holders Function Notes

variable {Uuid : Type}

/-- The claim was accepted up to this offset and has not been rolled back. -/
def Notes.reaches (length : ℕ) (l : Notes Uuid) : Bool :=
  l.standing && l.newOffset == length

/-- A request without a body is accepted at the end of the upload only if no claim of
another request has reached it. -/
def endsOnce (id : Uuid) (i : ℕ) (_input : Input) (N : ℕ → Notes Uuid) (o : Op Uuid)
    (w : World Uuid) : Prop :=
  match o with
  | .cas _ expectedOffset newOffset _ _ =>
    expectedOffset = newOffset →
      (∃ u, w.state id = some u ∧ u.uploadOffset = newOffset ∧ u.uploadLength = newOffset) →
        ∀ j, j ≠ i → (N j).reaches newOffset = false
  | _ => True

/-- The state is at the end of the upload, as long as there is one. -/
def AtEnd (id : Uuid) (length : ℕ) (_l : Notes Uuid) (w : World Uuid) : Prop :=
  ∀ u, w.state id = some u → u.uploadOffset = length

/-- What every step keeps. -/
structure Once (id : Uuid) (length : ℕ) (N : ℕ → Notes Uuid) (w : World Uuid) : Prop where
  declared : Declared id length N w
  holder : OneHolder (reaches length) (AtEnd id length) (fun _ => True) N w
  calls : w.finalised = [] ∨
    ∃ i c, (N i).reaches length = true ∧ (N i).finalised = true ∧ w.finalised = [c]

section Steps

variable {id : Uuid} {length : ℕ} {N : ℕ → Notes Uuid} {w w' : World Uuid} {i : ℕ}
  {l : Notes Uuid}

theorem reaches_iff : l.reaches length = true ↔ l.standing = true ∧ l.newOffset = length := by
  simp [reaches]

/-- A step that leaves the claim of its request as it is, and the state or less of it. -/
theorem claims_kept
    (h : OneHolder (reaches length) (AtEnd id length) (fun _ => True) N w)
    (hstanding : l.standing = (N i).standing) (hnewOffset : l.newOffset = (N i).newOffset)
    (hstate : ∀ u, w'.state id = some u → w.state id = some u) :
    OneHolder (reaches length) (AtEnd id length) (fun _ => True) (update N i l) w' := by
  have hsame : OneHolder (reaches length) (AtEnd id length) (fun _ => True) N w' :=
    h.congr (fun j _ hend u hu => hend u (hstate u hu)) fun _ => trivial
  have hreaches : l.reaches length = (N i).reaches length := by
    unfold reaches
    rw [hstanding, hnewOffset]
  cases hi : (N i).reaches length with
  | false => exact hsame.wait hi (hreaches.trans hi)
  | true => exact hsame.advance hi (hreaches.trans hi) (hsame.stage i hi)

/-- Whoever has called the finaliser keeps its claim. -/
theorem calls_kept
    (h : w.finalised = [] ∨
      ∃ i c, (N i).reaches length = true ∧ (N i).finalised = true ∧ w.finalised = [c])
    (hfinalised : w'.finalised = w.finalised)
    (hl : (N i).finalised = true → l.finalised = true ∧ l.standing = (N i).standing ∧
      l.newOffset = (N i).newOffset) :
    w'.finalised = [] ∨ ∃ j c, (update N i l j).reaches length = true ∧
      (update N i l j).finalised = true ∧ w'.finalised = [c] := by
  rw [hfinalised]
  rcases h with hnone | ⟨j, c, hreaches, hcalled, hone⟩
  · exact .inl hnone
  have hkept : (update N i l j).reaches length = true ∧ (update N i l j).finalised = true := by
    refine update_keeps ⟨hreaches, hcalled⟩ fun hi => ?_
    obtain ⟨hcalled, hstanding, hnewOffset⟩ := hl hi.2
    rw [reaches, hstanding, hnewOffset]
    exact ⟨hi.1, hcalled⟩
  exact .inr ⟨j, c, hkept.1, hkept.2, hone⟩

variable [DecidableEq Uuid]

variable {o : Op Uuid} {input : Input} {r : Res o}

theorem claims_step (h : OneHolder (reaches length) (AtEnd id length) (fun _ => True) N w)
    (hdeclared : Declared id length N w) (hok : Ok (N i) o) (hends : endsOnce id i input N o w)
    (hact : act id i o input (N i) w = (r, w')) :
    OneHolder (reaches length) (AtEnd id length) (fun _ => True)
      (update N i (note (N i) o r)) w' := by
  cases o with
  | get =>
    cases hact
    cases get w.store.uploads w.clock id with
    | none | some =>
      simp only [note]
      split <;> exact claims_kept h rfl rfl fun _ hu => hu
  | cas u expectedOffset newOffset hour now =>
    cases hact
    obtain ⟨hrejected, hsame⟩ | ⟨haccepted, data, hdata, hoffset, hmoved⟩ :=
      state_cas id u expectedOffset newOffset hour now w
    · simp only [note, hrejected, ↓reduceIte, hsame]
      exact claims_kept h rfl rfl fun _ hu => hu
    simp only [note, haccepted, ↓reduceIte]
    obtain ⟨-, -, -, hle, v, hseen, hbound⟩ := hok
    rw [(hdeclared.seen i v hseen).2] at hbound
    refine OneHolder.settle ?_ ?_ fun _ => trivial
    · -- A claim that has reached the end leaves room for a request without a body only.
      intro j hij
      cases hj : (N j).reaches length with
      | false => rfl
      | true =>
        have hend := h.stage j hj data hdata
        have hnewOffset : newOffset = length := by omega
        have hapart := hends (by omega)
          ⟨data, hdata, by omega, hnewOffset ▸ (hdeclared.stored data hdata).2⟩ j hij
        simp [hnewOffset, hj] at hapart
    · intro hreaches v' hv'
      cases hv'.symm.trans hmoved
      exact (reaches_iff.mp hreaches).2
  | rollback u expectedOffset newOffset hour =>
    obtain ⟨-, hstanding, -, hseen, rfl, rfl⟩ := hok
    cases hact
    have hu := (hdeclared.seen i u hseen).1
    obtain ⟨hsame, -⟩ | ⟨hrolledBack, data, hdata, hoffset, -⟩ :=
      state_rollback hu (N i).newOffset (N i).offset hour w
    · rw [hsame]
      exact claims_kept h (by simp [note, hstanding]) rfl fun _ hu => hu
    simp only [note, hrolledBack]
    refine OneHolder.settle ?_ (fun hreaches => ?_) fun _ => trivial
    · -- The offset was at this request's claim, and so not at the end for another one.
      intro j hij
      cases hj : (N j).reaches length with
      | false => rfl
      | true =>
        have hend := h.stage j hj data hdata
        have hi : (N i).reaches length = true :=
          reaches_iff.mpr ⟨hstanding, hoffset.symm.trans hend⟩
        exact absurd (h.sole j i hj hi) hij
    · cases (reaches_iff.mp hreaches).1
  | delete =>
    cases hact
    refine claims_kept h rfl rfl fun v hv => ?_
    simp [state_delete] at hv
  | _ => exact claims_kept h rfl rfl fun v hv => state_act rfl hact ▸ hv

omit [DecidableEq Uuid] in
/-- A request that has called the finaliser neither claims nor rolls back any more. -/
theorem claim_note (r : Res o) (hok : Ok (N i) o) (hcalled : (N i).finalised = true) :
    (note (N i) o r).finalised = true ∧ (note (N i) o r).standing = (N i).standing ∧
      (note (N i) o r).newOffset = (N i).newOffset := by
  cases o with
  | cas | rollback =>
    simp [hok.2.2.1] at hcalled
  | get =>
    cases r with
    | none | some =>
      simp only [note]
      split <;> exact ⟨hcalled, rfl, rfl⟩
  | finalise => exact ⟨rfl, rfl, rfl⟩
  | _ => exact ⟨hcalled, rfl, rfl⟩

variable (h : Once id length N w)

include h

/-- **One step of a request.** -/
theorem Once.step (hok : Ok (N i) o) (hends : endsOnce id i input N o w)
    (hact : act id i o input (N i) w = (r, w')) :
    Once id length (update N i (note (N i) o r)) w' where
  declared := h.declared.step hok hact
  holder := claims_step h.holder h.declared hok hends hact
  calls := by
    by_cases ho : ∀ f, o ≠ .finalise f
    · exact calls_kept h.calls (finalised_act ho hact) (claim_note r hok)
    simp only [not_forall, not_not] at ho
    obtain ⟨f, rfl⟩ := ho
    cases hact
    obtain ⟨-, hstanding, hfresh, u, hseen, hlength⟩ := hok
    have hi : (N i).reaches length = true :=
      reaches_iff.mpr ⟨hstanding, hlength.trans (h.declared.seen i u hseen).2⟩
    have hnone : w.finalised = [] := by
      rcases h.calls with hnone | ⟨j, c, hreaches, hcalled, -⟩
      · exact hnone
      · obtain rfl := h.holder.sole j i hreaches hi
        simp [hfresh] at hcalled
    refine .inr ⟨i, ⟨i, f, w.file, w.accepted⟩, ?_, ?_, by simp [hnone]⟩
    · rw [update_self]
      exact hi
    · rw [update_self]
      rfl

theorem Once.outside {e : Event Uuid} {new : List (Notes Uuid × Prog Uuid Unit)}
    (henv : Uploads.outside id e w = some (w', new)) : new = [] ∧ Once id length N w' := by
  obtain ⟨hnew, -, -, hfinalised, hstate⟩ := state_outside henv
  refine ⟨hnew, h.declared.outside henv, ?_, hfinalised ▸ h.calls⟩
  exact h.holder.congr (fun j _ hend u hu => hend u (hstate u hu)) fun _ => trivial

omit h in
theorem Once.initial (hN : ∀ i, N i = {}) (clock : Time) (s : Store Uuid) (u : TusUpload Uuid) :
    Once u.uploadId u.uploadLength N (.created clock s u) where
  declared := .initial hN clock s u
  holder := by
    constructor
    · intro i j hi
      simp [hN, reaches] at hi
    · intro i hi
      simp [hN, reaches] at hi
    · exact fun _ => trivial
  calls := .inl rfl

omit [DecidableEq Uuid] in
theorem Once.length_le : w.finalised.length ≤ 1 := by
  rcases h.calls with hnone | ⟨i, c, -, -, hone⟩
  · simp [hnone]
  · simp [hone]

end Steps

variable [DecidableEq Uuid]

/-- **An upload is finalised at most once**, if no request without a body is accepted at its
end while a claim of another request has reached the end. -/
theorem upload_finalised_once (knowledge : Bool) (clock : Time) (s : Store Uuid)
    (u : TusUpload Uuid) (rs : List (PatchRequest Uuid)) (ms : List (Move Input (Event Uuid)))
    (p : Requests Uuid) (hall : AllSteps (machine u.uploadId)
      (atRecords {} (endsOnce u.uploadId) fun _ _ _ => True) ms (start knowledge clock s u rs))
    (hrun : run (machine u.uploadId) ms (start knowledge clock s u rs) = some p) :
    p.world.finalised.length ≤ 1 := by
  have hinv := records_invariant
    (R := Once u.uploadId u.uploadLength) ?_ ?_ hall (obeyed_start knowledge clock s u rs)
    (.initial (locOf_launch _ _ _) clock s u) hrun
  · exact hinv.2.length_le
  · intro N w i o input r w' hok hends hR hact
    exact hR.step hok hends (Option.some.inj hact)
  · intro N w e w' new _ hR henv
    exact hR.outside henv

/-! ## Two schedules -/

/-- A test for `endsOnce`, with the number of requests. -/
def endsOnceB (id : Uuid) (i : ℕ) (_input : Input) (n : ℕ) (N : ℕ → Notes Uuid) (o : Op Uuid)
    (w : World Uuid) : Bool :=
  match o with
  | .cas _ expectedOffset newOffset _ _ =>
    !(expectedOffset == newOffset && (w.state id).any fun u =>
        u.uploadOffset == newOffset && u.uploadLength == newOffset) ||
      (List.range n).all fun j => j == i || !(N j).reaches newOffset
  | _ => true

omit [DecidableEq Uuid] in
theorem endsOnce_of_endsOnceB (id : Uuid) (i : ℕ) (input : Input) (n : ℕ) (N : ℕ → Notes Uuid)
    (o : Op Uuid) (w : World Uuid) (hN : ∀ j, n ≤ j → N j = {})
    (h : endsOnceB id i input n N o w = true) : endsOnce id i input N o w := by
  cases o with
  | cas =>
    rintro rfl ⟨v, hv, hoffset, hlength⟩ j hij
    by_cases hj : j < n
    · simp only [endsOnceB, hv, Option.any_some, hoffset, hlength, BEq.rfl, Bool.and_self,
        Bool.not_true, Bool.false_or, List.all_eq_true, List.mem_range] at h
      simpa [hij] using h j hj
    · rw [hN j (Nat.not_lt.mp hj)]
      rfl
  | _ => trivial

/-- The last request of an upload, and one without a body that comes too late. -/
def lastAndEmpty : Requests (Fin 1) :=
  start false 0 .empty (uploadOf 1)
    [⟨(uploadOf 1).uploadId, 0, [1]⟩, ⟨(uploadOf 1).uploadId, 1, []⟩]

/-- A request without a body that begins after the upload has been finalised. -/
theorem empty_request_too_late :
    (run (machine 0) (steps 0 12 ++ steps 1 2) lastAndEmpty).any
        (fun p => p.world.finalised.length == 1) = true ∧
      ∀ p, run (machine 0) (steps 0 12 ++ steps 1 2) lastAndEmpty = some p →
        p.world.finalised.length ≤ 1 := by
  have hcheck : checkSteps (machine 0) (checkRecords {} (endsOnceB 0)) (steps 0 12 ++ steps 1 2)
      lastAndEmpty = true := by
    decide +kernel
  have hall := allSteps_of_checkSteps
    (atRecords_of_checkRecords (endsOnce_of_endsOnceB 0)) _ _ hcheck
  refine ⟨by decide +kernel, fun p hp => ?_⟩
  exact upload_finalised_once false 0 .empty (uploadOf 1) _ _ p hall hp

/-- **Finalised twice.**  The request without a body claims after the last request has
appended, and both call the finaliser; nothing fails and no time passes. -/
theorem upload_finalised_twice :
    ∃ p, run (machine 0) (steps 0 6 ++ steps 1 8 ++ steps 0 2) lastAndEmpty = some p ∧
      p.world.finalised.map Call.caller = [1, 0] ∧ ¬ p.world.finalised.length ≤ 1 := by
  decide +kernel

end Smap.Uploads
