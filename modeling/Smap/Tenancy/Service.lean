import Smap.Lib.Flags
import Smap.Lib.Roles

/-!
# Members of an organisation and its Original Creator

The transactions of `contexts/tenancy/application/oc_transfer_service.py` and the two of
`org_service.py` that write to the members of an organisation, for any number of them side by
side on one organisation.

The session of a request commits when the request returns and rolls back when it raises.  Its
statements run under read committed: rows are those of `RowVersions`, a statement on a row that
another transaction has written waits for its end, and a statement that fails ends its
transaction.  The schedule chooses which statements fail.  Where two constraints make a
statement wait (`ex_org_members_one_oc`, `uq_oct_one_pending_per_org`), the row is written when
the wait is over.

Only rows of the organisation are members here; transfers may be of any organisation.  The
audit trail and the cascade of a removal to projects, keys and groups are statements that may
fail and change nothing here.
-/

namespace Smap.Tenancy

open Smap.Program Smap.RowVersions

inductive OrgMemberRole where
  | owner
  | member
  deriving DecidableEq

/-- A row of `org_members`, without its key. -/
structure OrgMember where
  role : OrgMemberRole
  isOriginalCreator : Bool
  deriving DecidableEq

inductive OCTransferState where
  | pending
  | accepted
  | rejected
  | cancelled
  | expired
  | adminForced
  deriving DecidableEq

/-- A row of `original_creator_transfers`, without its key. -/
structure OCTransfer (Uuid : Type) where
  orgId : Uuid
  initiatorUserId : Uuid
  targetUserId : Uuid
  state : OCTransferState
  /-- In seconds. -/
  expiresAt : ℕ
  resolvedAt : Option ℕ
  deriving DecidableEq

inductive Error (Uuid : Type) where
  | transferNotFound (id : Uuid)
  /-- `TransferNotFound`, of a transfer that has expired. -/
  | transferExpired (id : Uuid)
  | transferConflict (message : String)
  | originalCreatorConflict (message : String)
  | memberNotFound (user : Uuid)
  | integrityError
  /-- Any other error of the database. -/
  | databaseError

/-- The lifetime of a transfer: 7 days. -/
def ttl : ℕ := 7 * 24 * 60 * 60

structure World (Uuid : Type) where
  clock : ℕ
  /-- The members; a row that has been deleted is `none`. -/
  members : Table Uuid (Option OrgMember)
  transfers : Table Uuid (OCTransfer Uuid)

inductive Op (Uuid : Type) where
  | now
  | getTransfer (id : Uuid)
  | createTransfer (initiator target : Uuid)
  | resolve (id : Uuid) (newState : OCTransferState)
  | getMember (user : Uuid)
  | originalCreator
  | remove (user : Uuid)
  | changeRole (user : Uuid) (newRole : OrgMemberRole)
  /-- The first statement of `flip_original_creator`. -/
  | clearOriginalCreator (user : Uuid)
  /-- The second statement of `flip_original_creator`. -/
  | setOriginalCreator (user : Uuid)
  /-- Statements on other tables. -/
  | elsewhere
  | commit
  | rollback

variable {Uuid : Type}

@[reducible] def Answer : Op Uuid → Type
  | .now | .changeRole .. => ℕ
  | .getTransfer _ | .resolve .. => Option (OCTransfer Uuid)
  | .createTransfer .. => OCTransfer Uuid
  | .getMember _ => Option OrgMember
  | .originalCreator => Option Uuid
  | .remove _ | .clearOriginalCreator _ | .setOriginalCreator _ | .elsewhere | .commit
  | .rollback => Unit

@[reducible] def Res (o : Op Uuid) : Type := Except (Error Uuid) (Answer o)

/-- What the schedule chooses at a step. -/
structure Input (Uuid : Type) where
  fails : Bool := false
  /-- The id of a transfer that is created. -/
  newId : Uuid

/-! ## Statements -/

/-- The row is there. -/
def present (r : Option OrgMember) : Bool := r.isSome

/-- The row is the Original Creator's. -/
def isOc (r : Option OrgMember) : Bool := r.any (·.isOriginalCreator)

/-- The row is there, and not the Original Creator's. -/
def presentNotOc (r : Option OrgMember) : Bool := r.any fun m => !m.isOriginalCreator

def setRole (newRole : OrgMemberRole) (r : Option OrgMember) : Option OrgMember :=
  r.map fun m => { m with role := newRole }

def clearBit (r : Option OrgMember) : Option OrgMember :=
  r.map fun m => { m with isOriginalCreator := false }

def setBit (r : Option OrgMember) : Option OrgMember :=
  r.map fun _ => ⟨.owner, true⟩

/-- A transfer of the organisation that waits for an answer. -/
def pendingIn [DecidableEq Uuid] (org : Uuid) (r : OCTransfer Uuid) : Bool :=
  decide (r.orgId = org) && r.resolvedAt.isNone

namespace World

def commit (w : World Uuid) (i : ℕ) : World Uuid :=
  { w with members := w.members.commit i, transfers := w.transfers.commit i }

def rollback (w : World Uuid) (i : ℕ) : World Uuid :=
  { w with members := w.members.rollback i, transfers := w.transfers.rollback i }

/-- An `UPDATE` or `DELETE` on the row of a member, and how many rows it has changed. -/
def updateMember [DecidableEq Uuid] (w : World Uuid) (i : ℕ) (user : Uuid)
    (p : Option OrgMember → Bool) (f : Option OrgMember → Option OrgMember) :
    Option (ℕ × World Uuid) :=
  match w.members.update i user p f with
  | none => none
  | some (changed, members) => some (changed.toNat, { w with members := members })

end World

/-- A statement that does not fail by chance. -/
def execute [DecidableEq Uuid] (org : Uuid) (i : ℕ) (newId : Uuid) :
    (o : Op Uuid) → World Uuid → Option (Res o × World Uuid)
  | .now, w => some (.ok w.clock, w)
  | .getTransfer id, w => some (.ok ((w.transfers.row id).seenBy i), w)
  | .createTransfer initiator target, w =>
    if newId ∈ w.transfers.keys ∨ w.transfers.violates (pendingIn org) i newId = true then
      some (.error .integrityError, w.rollback i)
    else if w.transfers.contends (pendingIn org) i newId = true then none
    else
      let transfer := ⟨org, initiator, target, .pending, w.clock + ttl, none⟩
      match w.transfers.upsert i newId transfer with
      | none => none
      | some transfers => some (.ok transfer, { w with transfers := transfers })
  | .resolve id newState, w =>
    match w.transfers.update i id (fun r => r.resolvedAt.isNone)
        (fun r => { r with state := newState, resolvedAt := some w.clock }) with
    | none => none
    | some (changed, transfers) =>
      some (.ok (if changed then (transfers.row id).seenBy i else none),
        { w with transfers := transfers })
  | .getMember user, w => some (.ok ((w.members.row user).seenBy i).join, w)
  | .originalCreator, w =>
    some (.ok (w.members.keys.find? fun user => ((w.members.row user).seenBy i).any isOc), w)
  | .remove user, w =>
    match w.updateMember i user presentNotOc fun _ => none with
    | none => none
    | some (_, w') => some (.ok (), w')
  | .changeRole user newRole, w =>
    match w.updateMember i user presentNotOc (setRole newRole) with
    | none => none
    | some (rowcount, w') => some (.ok rowcount, w')
  | .clearOriginalCreator user, w =>
    match w.updateMember i user present clearBit with
    | none => none
    | some (_, w') => some (.ok (), w')
  | .setOriginalCreator user, w =>
    match w.members.updateFlag isOc i user present setBit with
    | none => none
    | some (none, _) => some (.error .integrityError, w.rollback i)
    | some (some _, members) => some (.ok (), { w with members := members })
  | .elsewhere, w => some (.ok (), w)
  | .commit, w => some (.ok (), w.commit i)
  | .rollback, w => some (.ok (), w.rollback i)

/-- Nothing goes to the database, or the transaction is given up anyway. -/
def Op.neverFails : Op Uuid → Bool
  | .now | .rollback => true
  | _ => false

def act [DecidableEq Uuid] (org : Uuid) (i : ℕ) (o : Op Uuid) (input : Input Uuid)
    (w : World Uuid) : Option (Res o × World Uuid) :=
  if input.fails && !o.neverFails then some (.error .databaseError, w.rollback i)
  else execute org i input.newId o w

/-! ## Transactions -/

abbrev Prog (Uuid : Type) := Program.Prog (Op Uuid) Res

/-- A part of a transaction, which may raise. -/
abbrev Tx (Uuid : Type) := ExceptT (Error Uuid) (Prog Uuid)

def perform (o : Op Uuid) : Tx Uuid (Answer o) := ExceptT.mk (Program.Prog.perform o)

def raiseIf (condition : Bool) (e : Error Uuid) : Tx Uuid Unit :=
  if condition then throw e else return ()

def require {α : Type} (e : Error Uuid) : Option α → Tx Uuid α
  | some a => return a
  | none => throw e

def createTransfer (initiator target : Uuid) : Tx Uuid (OCTransfer Uuid) :=
  tryCatch (perform (.createTransfer initiator target)) fun
    | .integrityError => throw (.transferConflict "another transfer is pending for this org")
    | e => throw e

/-- Two statements, the second of which may find no row. -/
def flipOriginalCreator (fromUser toUser : Uuid) : Tx Uuid Unit := do
  perform (.clearOriginalCreator fromUser)
  perform (.setOriginalCreator toUser)

def initiate (initiator target : Uuid) : Tx Uuid (OCTransfer Uuid) := do
  let targetMember ← perform (.getMember target)
  raiseIf (!targetMember.any (·.role = .owner))
    (.transferConflict "target must already be an OrgOwner")
  let initiatorMember ← perform (.getMember initiator)
  raiseIf (!isOc initiatorMember)
    (.originalCreatorConflict "only the Original Creator may transfer")
  let transfer ← createTransfer initiator target
  perform .elsewhere
  return transfer

section Transfers

variable [DecidableEq Uuid]

/-- The transfer, if it waits for an answer and is of the organisation. -/
def openTransfer (org transferId : Uuid) : Tx Uuid (OCTransfer Uuid) := do
  let transfer ← require (.transferNotFound transferId) (← perform (.getTransfer transferId))
  raiseIf transfer.resolvedAt.isSome (.transferNotFound transferId)
  raiseIf (transfer.orgId ≠ org) (.transferNotFound transferId)
  return transfer

def checkExpiry (transferId : Uuid) (transfer : OCTransfer Uuid) : Tx Uuid Unit := do
  if transfer.expiresAt < (← perform .now) then
    let _ ← perform (.resolve transferId .expired)
    throw (.transferExpired transferId)
  else return ()

def resolveOpen (transferId : Uuid) (newState : OCTransferState) : Tx Uuid (OCTransfer Uuid) := do
  require (.transferNotFound transferId) (← perform (.resolve transferId newState))

def accept (org transferId caller : Uuid) : Tx Uuid (OCTransfer Uuid) := do
  let transfer ← openTransfer org transferId
  raiseIf (transfer.targetUserId ≠ caller) (.transferConflict "only the target may accept")
  checkExpiry transferId transfer
  let targetMember ← perform (.getMember transfer.targetUserId)
  raiseIf (!targetMember.any (·.role = .owner))
    (.transferConflict "target is no longer an OrgOwner")
  let initiatorMember ← perform (.getMember transfer.initiatorUserId)
  raiseIf (!isOc initiatorMember) (.transferConflict "initiator is no longer the Original Creator")
  let updated ← resolveOpen transferId .accepted
  flipOriginalCreator transfer.initiatorUserId transfer.targetUserId
  perform .elsewhere
  return updated

def cancel (org transferId caller : Uuid) (callerIsAdmin : Bool) :
    Tx Uuid (OCTransfer Uuid) := do
  let transfer ← openTransfer org transferId
  raiseIf (!callerIsAdmin && transfer.initiatorUserId ≠ caller)
    (.transferConflict "only the initiator or an admin may cancel")
  let updated ← resolveOpen transferId .cancelled
  perform .elsewhere
  return updated

def reject (org transferId caller : Uuid) : Tx Uuid (OCTransfer Uuid) := do
  let transfer ← openTransfer org transferId
  raiseIf (transfer.targetUserId ≠ caller) (.transferConflict "only the target may reject")
  checkExpiry transferId transfer
  let updated ← resolveOpen transferId .rejected
  perform .elsewhere
  return updated

end Transfers

/-- The target becomes an owner first if it is none. -/
def promote (target : Uuid) (m : OrgMember) : Tx Uuid Unit :=
  if m.role = .owner then return ()
  else do
    let _ ← perform (.changeRole target .owner)
    return ()

/-- Without an Original Creator the target stands on both sides. -/
def adminForce (target : Uuid) : Tx Uuid Unit := do
  let oc ← perform .originalCreator
  let targetMember ← require (.transferConflict "target is not a member of the org")
    (← perform (.getMember target))
  promote target targetMember
  flipOriginalCreator (oc.getD target) target
  perform .elsewhere

def removeMember (target : Uuid) : Tx Uuid Unit := do
  let member ← require (.memberNotFound target) (← perform (.getMember target))
  raiseIf member.isOriginalCreator (.originalCreatorConflict "Original Creator cannot be removed")
  perform (.remove target)
  perform .elsewhere

def changeMemberRole (target : Uuid) (newRole : OrgMemberRole) : Tx Uuid Unit := do
  let member ← require (.memberNotFound target) (← perform (.getMember target))
  raiseIf member.isOriginalCreator
    (.originalCreatorConflict "Original Creator role cannot be changed")
  let rowcount ← perform (.changeRole target newRole)
  raiseIf (rowcount = 0) (.originalCreatorConflict "role change blocked")
  perform .elsewhere

inductive Request (Uuid : Type) where
  | initiate (initiator target : Uuid)
  | accept (transferId caller : Uuid)
  | cancel (transferId caller : Uuid) (callerIsAdmin : Bool)
  | reject (transferId caller : Uuid)
  | adminForce (target : Uuid)
  | removeMember (target : Uuid)
  | changeMemberRole (target : Uuid) (newRole : OrgMemberRole)

/-- A request as the session sees it. -/
def body [DecidableEq Uuid] (org : Uuid) : Request Uuid → Tx Uuid Unit
  | .initiate initiator target => discard (initiate initiator target)
  | .accept transferId caller => discard (accept org transferId caller)
  | .cancel transferId caller callerIsAdmin =>
    discard (cancel org transferId caller callerIsAdmin)
  | .reject transferId caller => discard (reject org transferId caller)
  | .adminForce target => adminForce target
  | .removeMember target => removeMember target
  | .changeMemberRole target newRole => changeMemberRole target newRole

/-- `db_session`: commit, or roll back if the request has raised. -/
def dbSession (tx : Tx Uuid Unit) : Prog Uuid Unit := do
  match ← tx.run with
  | .ok () =>
    let _ ← (perform .commit).run
    return ()
  | .error _ =>
    let _ ← (perform .rollback).run
    return ()

/-! ## Transactions side by side -/

/-- A transaction that has taken the bit from a member is mid way until it has executed the
statement that gives it to another. -/
structure Notes where
  mid : Bool := false

def note (l : Notes) : (o : Op Uuid) → Res o → Notes
  | .clearOriginalCreator _, .ok _ => ⟨true⟩
  | .setOriginalCreator _, .ok _ => ⟨false⟩
  | .rollback, .ok _ => ⟨false⟩
  | _, .ok _ => l
  | _, .error _ => ⟨false⟩

/-- Time goes by. -/
structure Tick where
  seconds : ℕ

def tick (e : Tick) (w : World Uuid) : Option (World Uuid × List (Notes × Prog Uuid Unit)) :=
  some ({ w with clock := w.clock + e.seconds }, [])

section Machine

variable [DecidableEq Uuid]

def machine (org : Uuid) :
    Machine (Op Uuid) Res Notes (World Uuid) Unit (Input Uuid) Tick where
  view _ _ := ()
  record l _ o r := note l o r
  act i o input _ w := act org i o input w
  env := tick

abbrev Requests (Uuid : Type) := Pool (Op Uuid) Res Notes (World Uuid)

/-- An organisation with the given members, and the transfers there are. -/
def World.stored (clock : ℕ) (members : List (Uuid × OrgMember))
    (transfers : List (Uuid × OCTransfer Uuid)) : World Uuid :=
  ⟨clock, .ofList (members.map fun r => (r.1, some r.2)), .ofList transfers⟩

def start (org : Uuid) (w : World Uuid) (rs : List (Request Uuid)) : Requests Uuid :=
  launch {} w (rs.map fun r => dbSession (body org r))

end Machine

/-! ## What a transaction does -/

/-- A transaction commits only when it is not mid way. -/
def Ok (l : Notes) : Op Uuid → Prop
  | .commit => l.mid = false
  | _ => True

section Settles

variable [DecidableEq Uuid] {org : Uuid} {α β : Type}

/-- A transaction that is not mid way is not mid way afterwards, unless it has raised. -/
def Settles (org : Uuid) (tx : Tx Uuid α) : Prop :=
  ∀ l : Notes, l.mid = false →
    Obeys (free (machine org) {}) Ok (fun l' r => r.isOk = true → l'.mid = false) tx.run l

variable {tx : Tx Uuid α} {a : α} {e : Error Uuid} {initiator target transferId caller : Uuid}

theorem settles_pure : Settles org (pure a : Tx Uuid α) := fun _ hl _ => hl

theorem settles_throw : Settles org (throw e : Tx Uuid α) := fun _ _ => nofun

theorem settles_bind {f : α → Tx Uuid β} (htx : Settles org tx) (hf : ∀ a, Settles org (f a)) :
    Settles org (tx >>= f) := by
  intro l hl
  refine obeys_bind_except (fun l' _ => l'.mid = false) ?_ fun l' a hl' => hf a l' hl'
  refine (htx l hl).mono (fun _ _ h => h) ?_
  rintro l' (e | a) hr
  · exact nofun
  · exact hr rfl

/-- The statements that neither end the transaction nor move the bit. -/
def Op.plain : Op Uuid → Bool
  | .clearOriginalCreator _ | .setOriginalCreator _ | .commit | .rollback => false
  | _ => true

theorem settles_perform {o : Op Uuid} (ho : o.plain = true) : Settles org (perform o) := by
  intro l hl
  refine obeys_perform ?_ fun _ r _ hr => ?_
  · cases o <;> trivial
  · cases r with
    | error => cases hr
    | ok => cases o <;> first | exact hl | cases ho

theorem settles_perform_bind {o : Op Uuid} {f : Answer o → Tx Uuid β} (ho : o.plain = true)
    (hf : ∀ a, Settles org (f a)) : Settles org (perform o >>= f) :=
  settles_bind (settles_perform ho) hf

theorem settles_raiseIf {condition : Bool} : Settles org (raiseIf condition e) := by
  cases condition with
  | false => exact settles_pure
  | true => exact settles_throw

theorem settles_require {a : Option α} : Settles org (require e a) := by
  cases a with
  | none => exact settles_throw
  | some a => exact settles_pure

theorem settles_discard (htx : Settles org tx) : Settles org (discard tx) :=
  settles_bind htx fun _ => settles_pure

theorem settles_createTransfer : Settles org (createTransfer initiator target) := by
  intro l hl
  refine obeys_bind (settles_perform rfl l hl) fun l' r hr => ?_
  cases r with
  | ok => exact fun _ => hr rfl
  | error e => cases e <;> exact nofun

/-- Mid way only between the two statements. -/
theorem settles_flipOriginalCreator : Settles org (flipOriginalCreator initiator target) := by
  intro l _
  refine obeys_bind_except (fun _ _ => True) ?_ fun l' _ _ => ?_
  · refine obeys_perform trivial fun _ r _ => ?_
    cases r with
    | ok => trivial
    | error => exact nofun
  · refine obeys_perform trivial fun _ r _ hr => ?_
    cases r with
    | ok => rfl
    | error => cases hr

theorem settles_initiate : Settles org (initiate initiator target) := by
  refine settles_perform_bind rfl fun _ => ?_
  refine settles_bind settles_raiseIf fun _ => ?_
  refine settles_perform_bind rfl fun _ => ?_
  refine settles_bind settles_raiseIf fun _ => ?_
  refine settles_bind settles_createTransfer fun _ => ?_
  exact settles_perform_bind rfl fun _ => settles_pure

theorem settles_openTransfer : Settles org (openTransfer org transferId) := by
  refine settles_perform_bind rfl fun _ => ?_
  refine settles_bind settles_require fun _ => ?_
  refine settles_bind settles_raiseIf fun _ => ?_
  exact settles_bind settles_raiseIf fun _ => settles_pure

theorem settles_checkExpiry {transfer : OCTransfer Uuid} :
    Settles org (checkExpiry transferId transfer) := by
  refine settles_perform_bind rfl fun now => ?_
  split
  · exact settles_perform_bind rfl fun _ => settles_throw
  · exact settles_pure

theorem settles_resolveOpen {newState : OCTransferState} :
    Settles org (resolveOpen transferId newState) :=
  settles_perform_bind rfl fun _ => settles_require

theorem settles_accept : Settles org (accept org transferId caller) := by
  refine settles_bind settles_openTransfer fun transfer => ?_
  refine settles_bind settles_raiseIf fun _ => ?_
  refine settles_bind settles_checkExpiry fun _ => ?_
  refine settles_perform_bind rfl fun _ => ?_
  refine settles_bind settles_raiseIf fun _ => ?_
  refine settles_perform_bind rfl fun _ => ?_
  refine settles_bind settles_raiseIf fun _ => ?_
  refine settles_bind settles_resolveOpen fun _ => ?_
  refine settles_bind settles_flipOriginalCreator fun _ => ?_
  exact settles_perform_bind rfl fun _ => settles_pure

theorem settles_cancel {callerIsAdmin : Bool} :
    Settles org (cancel org transferId caller callerIsAdmin) := by
  refine settles_bind settles_openTransfer fun transfer => ?_
  refine settles_bind settles_raiseIf fun _ => ?_
  refine settles_bind settles_resolveOpen fun _ => ?_
  exact settles_perform_bind rfl fun _ => settles_pure

theorem settles_reject : Settles org (reject org transferId caller) := by
  refine settles_bind settles_openTransfer fun transfer => ?_
  refine settles_bind settles_raiseIf fun _ => ?_
  refine settles_bind settles_checkExpiry fun _ => ?_
  refine settles_bind settles_resolveOpen fun _ => ?_
  exact settles_perform_bind rfl fun _ => settles_pure

theorem settles_promote {m : OrgMember} : Settles org (promote target m) := by
  unfold promote
  split
  · exact settles_pure
  · exact settles_perform_bind rfl fun _ => settles_pure

theorem settles_adminForce : Settles org (adminForce target) := by
  refine settles_perform_bind rfl fun oc => ?_
  refine settles_perform_bind rfl fun _ => ?_
  refine settles_bind settles_require fun _ => ?_
  refine settles_bind settles_promote fun _ => ?_
  exact settles_bind settles_flipOriginalCreator fun _ => settles_perform rfl

theorem settles_removeMember : Settles org (removeMember target) := by
  refine settles_perform_bind rfl fun _ => ?_
  refine settles_bind settles_require fun _ => ?_
  refine settles_bind settles_raiseIf fun _ => ?_
  exact settles_perform_bind rfl fun _ => settles_perform rfl

theorem settles_changeMemberRole {newRole : OrgMemberRole} :
    Settles org (changeMemberRole target newRole) := by
  refine settles_perform_bind rfl fun _ => ?_
  refine settles_bind settles_require fun _ => ?_
  refine settles_bind settles_raiseIf fun _ => ?_
  refine settles_perform_bind rfl fun _ => ?_
  exact settles_bind settles_raiseIf fun _ => settles_perform rfl

theorem settles_body (r : Request Uuid) : Settles org (body org r) := by
  cases r with
  | initiate => exact settles_discard settles_initiate
  | accept => exact settles_discard settles_accept
  | cancel => exact settles_discard settles_cancel
  | reject => exact settles_discard settles_reject
  | adminForce => exact settles_adminForce
  | removeMember => exact settles_removeMember
  | changeMemberRole => exact settles_changeMemberRole

theorem obeys_dbSession {tx : Tx Uuid Unit} (htx : Settles org tx) :
    Obeys (free (machine org) {}) Ok (fun _ _ => True) (dbSession tx) {} := by
  refine obeys_bind (htx {} rfl) fun l r hr => ?_
  cases r with
  | ok => exact obeys_perform_bind (hr rfl) fun _ _ _ => trivial
  | error => exact obeys_perform_bind trivial fun _ _ _ => trivial

theorem obeyed_start (w : World Uuid) (rs : List (Request Uuid)) :
    Obeyed (machine org) {} (fun _ => Ok) (fun _ _ _ => True) (start org w rs) := by
  refine obeyed_launch _ ?_
  intro i p hp
  obtain ⟨r, -, rfl⟩ := List.mem_map.mp (List.mem_of_getElem? hp)
  exact obeys_dbSession (settles_body r)

end Settles

end Smap.Tenancy
