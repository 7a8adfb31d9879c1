import Smap.Tenancy.Service

/-!
# One Original Creator

`flip_original_creator` clears the bit of one member and sets that of another.  The exclusion
constraint forbids two Original Creators, but nothing forbids none: the second statement may
find that its member has been removed since it was read, changes no row, and the transaction
commits all the same.
-/

namespace Smap.Tenancy

open Smap.Program Smap.RowVersions Function

variable {Uuid : Type}

/-- The user is a committed member and the Original Creator. -/
def World.isOriginalCreator (w : World Uuid) (user : Uuid) : Prop :=
  ∃ r, (w.members.row user).committed = some r ∧ isOc r = true

/-- The member who is given the bit is still there. -/
def staysMember (i : ℕ) (_l : Notes) (o : Op Uuid) (w : World Uuid) : Prop :=
  match o with
  | .setOriginalCreator user => ∃ m, (w.members.row user).seenBy i = some (some m)
  | _ => True

/-- Exactly one member is the Original Creator, and the transactions under way keep it so. -/
def OneOc (N : ℕ → Notes) (w : World Uuid) : Prop :=
  Sole isOc (fun i => (N i).mid = true) w.members

section Steps

variable {N : ℕ → Notes} {w w' : World Uuid} {i : ℕ} {l : Notes}

theorem mid_update_of_ne {j : ℕ} (hij : j ≠ i) (hj : (N j).mid = true) :
    (update N i l j).mid = true := by
  rwa [update_of_ne hij]

theorem mid_update (hl : (N i).mid = true → l.mid = true) (j : ℕ) (hj : (N j).mid = true) :
    (update N i l j).mid = true := by
  by_cases hij : j = i
  · subst hij
    rw [update_self]
    exact hl hj
  · exact mid_update_of_ne hij hj

/-- A statement that does not touch the members. -/
theorem OneOc.keep (h : OneOc N w) (hmembers : w'.members = w.members) :
    OneOc (update N i (N i)) w' := by
  rw [update_eq_self, OneOc, hmembers]
  exact h

theorem OneOc.rollback (h : OneOc N w) : OneOc (update N i l) (w.rollback i) :=
  Sole.rollback h fun _ hij hj => mid_update_of_ne hij hj

theorem OneOc.commit (h : OneOc N w) (hi : (N i).mid = false) :
    OneOc (update N i (N i)) (w.commit i) := by
  rw [update_eq_self]
  exact Sole.commit h (by simp [hi])

variable [DecidableEq Uuid]

variable {user org : Uuid} {f : Option OrgMember → Option OrgMember} {rowcount : ℕ}
  {r : Option OrgMember} {o : Op Uuid}

theorem members_updateMember {p : Option OrgMember → Bool}
    (h : w.updateMember i user p f = some (rowcount, w')) :
    ∃ changed, w.members.update i user p f = some (changed, w'.members) := by
  unfold World.updateMember at h
  split at h
  · cases h
  · rename_i changed members hupdate
    cases h
    exact ⟨changed, hupdate⟩

theorem isOc_of_presentNotOc (h : presentNotOc r = true) : isOc r = false := by
  cases r with
  | none => cases h
  | some => simpa [presentNotOc, isOc] using h

@[simp] theorem isOc_setRole (newRole : OrgMemberRole) (r : Option OrgMember) :
    isOc (setRole newRole r) = isOc r := by
  cases r <;> rfl

@[simp] theorem isOc_clearBit (r : Option OrgMember) : isOc (clearBit r) = false := by
  cases r <;> rfl

theorem isOc_setBit (h : present r = true) : isOc (setBit r) = true := by
  cases r with
  | none => cases h
  | some => rfl

variable (h : OneOc N w)

include h

/-- A statement whose condition spares the Original Creator. -/
theorem OneOc.spare (hupdate : w.updateMember i user presentNotOc f = some (rowcount, w'))
    (hf : ∀ r, isOc r = false → isOc (f r) = false) : OneOc (update N i (N i)) w' := by
  obtain ⟨changed, hmembers⟩ := members_updateMember hupdate
  rw [update_eq_self]
  exact Sole.update h hmembers (fun r hr => hf r (isOc_of_presentNotOc hr)) (fun _ hj => hj)
    (.inr fun r hr => isOc_of_presentNotOc hr)

/-- The bit is taken from a member, and the transaction is mid way. -/
theorem OneOc.clear (hupdate : w.updateMember i user present clearBit = some (rowcount, w')) :
    OneOc (update N i ⟨true⟩) w' := by
  obtain ⟨changed, hmembers⟩ := members_updateMember hupdate
  refine Sole.update h hmembers (fun r _ => isOc_clearBit r) (mid_update fun _ => rfl) (.inl ?_)
  rw [update_self]

/-- The bit is given to a member who is there. -/
theorem OneOc.set {changed : Bool} {members : Table Uuid (Option OrgMember)}
    (hmember : ∃ m, (w.members.row user).seenBy i = some (some m))
    (hupdate : w.members.updateFlag isOc i user present setBit = some (some changed, members)) :
    OneOc (update N i ⟨false⟩) { w with members := members } := by
  cases changed with
  | true =>
    exact Sole.updateFlag h hupdate (fun r hr => isOc_setBit hr)
      fun _ hij hj => mid_update_of_ne hij hj
  | false =>
    obtain ⟨m, hm⟩ := hmember
    have hnone := Table.update_of_updateFlag_eq_some_false hupdate
    obtain ⟨-, -, hno⟩ | ⟨hfalse, -⟩ := Table.update_eq_some hnone
    · cases hno (some m) hm
    · cases hfalse

theorem OneOc.step_execute {newId : Uuid} {r : Res o} (hok : Ok (N i) o)
    (hcond : staysMember i (N i) o w) (hact : execute org i newId o w = some (r, w')) :
    OneOc (update N i (note (N i) o r)) w' := by
  cases o with
  | now | getTransfer id | getMember user | originalCreator | elsewhere =>
    cases hact
    exact h.keep rfl
  | createTransfer =>
    simp only [execute] at hact
    split at hact
    · cases hact
      exact h.rollback
    split at hact
    · cases hact
    · split at hact
      · cases hact
      · cases hact
        exact h.keep rfl
  | resolve =>
    simp only [execute] at hact
    split at hact
    · cases hact
    · cases hact
      exact h.keep rfl
  | remove =>
    simp only [execute] at hact
    split at hact
    · cases hact
    · rename_i rowcount w'' hupdate
      cases hact
      exact h.spare hupdate fun _ _ => rfl
  | changeRole =>
    simp only [execute] at hact
    split at hact
    · cases hact
    · rename_i rowcount w'' hupdate
      cases hact
      exact h.spare hupdate fun r hr => by rw [isOc_setRole, hr]
  | clearOriginalCreator =>
    simp only [execute] at hact
    split at hact
    · cases hact
    · rename_i rowcount w'' hupdate
      cases hact
      exact h.clear hupdate
  | setOriginalCreator =>
    simp only [execute] at hact
    split at hact
    · cases hact
    · cases hact
      exact h.rollback
    · rename_i changed members hupdate
      cases hact
      exact h.set hcond hupdate
  | commit =>
    cases hact
    exact h.commit hok
  | rollback =>
    cases hact
    exact h.rollback

/-- **One statement** of any transaction. -/
theorem OneOc.step {input : Input Uuid} {r : Res o} (hok : Ok (N i) o)
    (hcond : staysMember i (N i) o w) (hact : act org i o input w = some (r, w')) :
    OneOc (update N i (note (N i) o r)) w' := by
  unfold act at hact
  split at hact
  · cases hact
    exact h.rollback
  · exact h.step_execute hok hcond hact

end Steps

/-! ## Runs -/

section Runs

variable [DecidableEq Uuid]

/-- **Exactly one Original Creator**: an organisation that starts with one has one after every
commit of any requests side by side, if `staysMember` holds at every step. -/
theorem one_original_creator (org : Uuid) (clock : ℕ) (members : List (Uuid × OrgMember))
    (transfers : List (Uuid × OCTransfer Uuid)) (rs : List (Request Uuid))
    (ms : List (Move (Input Uuid) Tick)) (p : Requests Uuid)
    (hone : ∃! user, (World.stored clock members transfers).isOriginalCreator user)
    (hall : AllSteps (machine org) (atTasks staysMember) ms
      (start org (.stored clock members transfers) rs))
    (hrun : run (machine org) ms (start org (.stored clock members transfers) rs) = some p) :
    ∃! user, p.world.isOriginalCreator user := by
  have hstart : OneOc ((start org (.stored clock members transfers) rs).locOf {})
      (World.stored clock members transfers) :=
    Sole.of_existsUnique (fun _ => rfl) hone
  have hinv := tasks_invariant (R := OneOc) ?_ ?_ hall (obeyed_start _ rs) hstart hrun
  · exact Sole.existsUnique hinv.2
  · intro N w i o input r w' hok hcond hR hact
    exact hR.step hok hcond hact
  · intro N w e w' new hR henv
    cases henv
    exact ⟨rfl, hR⟩

end Runs

/-! ## Two schedules -/

/-- A test for `staysMember`. -/
def staysMemberB (i : ℕ) (_l : Notes) (o : Op Uuid) (w : World Uuid) : Bool :=
  match o with
  | .setOriginalCreator user => ((w.members.row user).seenBy i).any present
  | _ => true

theorem staysMember_of_staysMemberB (i : ℕ) (l : Notes) (o : Op Uuid) (w : World Uuid)
    (h : staysMemberB i l o w = true) : staysMember i l o w := by
  cases o with
  | setOriginalCreator =>
    simp only [staysMemberB, Option.any_eq_true, present, Option.isSome_iff_exists] at h
    obtain ⟨r, hr, m, rfl⟩ := h
    exact ⟨m, hr⟩
  | _ => trivial

/-- Users 1 and 2 own organisation 0; user 1 is its Original Creator. -/
def twoOwners : List (ℕ × OrgMember) := [(1, ⟨.owner, true⟩), (2, ⟨.owner, false⟩)]

/-- User 1 has offered the transfer to user 2. -/
def offered : List (ℕ × OCTransfer ℕ) := [(0, ⟨0, 1, 2, .pending, ttl, none⟩)]

def twoOwnersStored : World ℕ := .stored 0 twoOwners offered

theorem twoOwners_one : ∃! user, twoOwnersStored.isOriginalCreator user := by
  refine ⟨1, ⟨_, rfl, rfl⟩, ?_⟩
  rintro user ⟨r, hr, hoc⟩
  have hkey := Table.mem_keys_of_committed hr
  have hkeys : ∀ k ∈ twoOwnersStored.members.keys,
      (twoOwnersStored.members.row k).committed.any isOc = true → k = 1 := by
    decide +kernel
  exact hkeys user hkey (by rw [hr]; exact hoc)

/-- User 2 accepts while somebody removes them. -/
def acceptAndRemove : List (Request ℕ) := [.accept 0 2, .removeMember 2]

def statements (i n : ℕ) : List (Move (Input ℕ) Tick) := List.replicate n (.step i ⟨false, 1⟩)

/-- The removal has read the member before the transfer, and deletes after it. -/
theorem removal_after_transfer :
    (run (machine 0) (statements 1 1 ++ statements 0 9 ++ statements 1 3)
        (start 0 twoOwnersStored acceptAndRemove)).any
        (fun p => (p.world.members.row 2).committed == some (some ⟨.owner, true⟩)) = true ∧
      ∀ p, run (machine 0) (statements 1 1 ++ statements 0 9 ++ statements 1 3)
        (start 0 twoOwnersStored acceptAndRemove) = some p →
        ∃! user, p.world.isOriginalCreator user := by
  have hcheck : checkSteps (machine 0) (checkTasks staysMemberB)
      (statements 1 1 ++ statements 0 9 ++ statements 1 3)
      (start 0 twoOwnersStored acceptAndRemove) = true := by
    decide +kernel
  have hall := allSteps_of_checkSteps (atTasks_of_checkTasks staysMember_of_staysMemberB) _ _ hcheck
  refine ⟨by decide +kernel, fun p hp => ?_⟩
  exact one_original_creator 0 0 twoOwners offered acceptAndRemove _ p twoOwners_one hall hp

/-- **No Original Creator.**  The removal commits between the checks of the transfer and its
flip; nothing waits and nothing fails. -/
theorem original_creator_lost :
    (∃! user, twoOwnersStored.isOriginalCreator user) ∧
      ∃ p, run (machine 0) (statements 0 4 ++ statements 1 4 ++ statements 0 5)
          (start 0 twoOwnersStored acceptAndRemove) = some p ∧
        ∀ user, ¬ p.world.isOriginalCreator user := by
  obtain ⟨p, hp, hnone⟩ :
      ∃ p ∈ run (machine 0) (statements 0 4 ++ statements 1 4 ++ statements 0 5)
        (start 0 twoOwnersStored acceptAndRemove), ∀ user ∈ p.world.members.keys,
        (p.world.members.row user).committed.any isOc = false := by
    decide +kernel
  refine ⟨twoOwners_one, p, hp, ?_⟩
  rintro user ⟨r, hr, hoc⟩
  have hfalse := hnone user (Table.mem_keys_of_committed hr)
  simp [hr, Option.any_some, hoc] at hfalse

end Smap.Tenancy
