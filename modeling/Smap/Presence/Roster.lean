import Mathlib.Data.Int.Notation
import Mathlib.Data.List.Basic

/-!
# Presence in a room

`contexts/conversation/infrastructure/presence.py`, for one room: the set of connections of
each user, the roster of users, and the calls that change them.  A call is cut at its Redis
round trips, each of which is one atomic step; the commands of a non-transactional pipeline
are steps of their own where they touch the two structures.  The reverse index, the reconnect
marks and the times to live are left out: none of them is read here, and no key expires.
-/

namespace Smap.Presence

open Function

variable {User Conn : Type} [DecidableEq User] [DecidableEq Conn]

/-- The `conns` sets of all users of the room, and the roster. -/
structure Room (User Conn : Type) where
  conns : List (User × Conn) := []
  roster : List User := []

open Room

/-- A `join`, `heartbeat` or `leave` call at the step it takes next. -/
inductive Call (User Conn : Type) where
  | idle
  | joining (u : User) (k : Conn)
  | joinedConns (u : User) (first : Bool)
  | joinedRoster (first : Bool) (rosterSize : ℕ)
  | beating (u : User) (k : Conn)
  | leaving (u : User) (k : Conn)
  | marking (u : User)
  | dropping (u : User)
  | unindexing
  | reading
  | checking (members live stale : List User)
  | evicting (stale live : List User)
  | returned (edge : Bool) (rosterSize : ℤ)

inductive Request (User Conn : Type) where
  | join (u : User) (k : Conn)
  | heartbeat (u : User) (k : Conn)
  | leave (u : User) (k : Conn)

/-- A call of `join` or `leave` that has not returned. -/
def Call.inProgress : Call User Conn → Bool
  | .idle | .returned _ _ | .beating _ _ => false
  | _ => true

namespace Room

/-- `EXISTS` on the user's `conns` key: Redis keeps no empty set. -/
def connected (r : Room User Conn) (u : User) : Bool := r.conns.any fun c => c.1 = u

/-- `SCARD` of the user's `conns` key. -/
def connCount (r : Room User Conn) (u : User) : ℕ := (r.conns.filter fun c => c.1 = u).length

def addConn (r : Room User Conn) (u : User) (k : Conn) : Room User Conn :=
  { r with conns := r.conns.insert (u, k) }

def removeConn (r : Room User Conn) (u : User) (k : Conn) : Room User Conn :=
  { r with conns := r.conns.filter fun c => c ≠ (u, k) }

def enter (r : Room User Conn) (u : User) : Room User Conn := { r with roster := r.roster.insert u }

def drop (r : Room User Conn) (u : User) : Room User Conn :=
  { r with roster := r.roster.filter fun v => v ≠ u }

/-- `list_room`, with nothing else going on: the roster members who are connected. -/
def listRoom (r : Room User Conn) : List User := r.roster.filter r.connected

end Room

/-- The next step of a call.  `leave` ends in `_reconcile_roster`: the roster is read, every
member's key is looked up, and the members without one are evicted. -/
def Call.step (r : Room User Conn) : Call User Conn → Call User Conn × Room User Conn
  | .joining u k =>
    let r' := r.addConn u k
    (.joinedConns u (r'.connCount u == 1), r')
  | .joinedConns u first =>
    let r' := r.enter u
    (.joinedRoster first r'.roster.length, r')
  | .joinedRoster first size => (.returned first size, r)
  | .beating u k => (.idle, r.addConn u k)
  | .leaving u k =>
    let r' := r.removeConn u k
    (if 0 < r'.connCount u then .returned false (-1) else .marking u, r')
  | .marking u => (.dropping u, r)
  | .dropping u => (.unindexing, r.drop u)
  | .unindexing => (.reading, r)
  | .reading => (.checking r.roster [] [], r)
  | .checking (m :: members) live stale =>
    (if r.connected m then .checking members (live ++ [m]) stale
      else .checking members live (stale ++ [m]), r)
  | .checking [] live stale => (.evicting stale live, r)
  | .evicting (m :: stale) live => (.evicting stale live, r.drop m)
  | .evicting [] live => (.returned true live.length, r)
  | c => (c, r)

/-- The room, the calls, and which connections have joined and not left: a `join` counts from
its start, a `leave` too. -/
structure State (User Conn : Type) where
  room : Room User Conn
  calls : ℕ → Call User Conn := fun _ => .idle
  opened : List (User × Conn) := []

open State

inductive Move (User Conn : Type) where
  | start (i : ℕ) (request : Request User Conn)
  | step (i : ℕ)

namespace State

def start (s : State User Conn) (i : ℕ) : Request User Conn → State User Conn
  | .join u k =>
    { s with calls := update s.calls i (.joining u k), opened := s.opened.insert (u, k) }
  | .heartbeat u k => { s with calls := update s.calls i (.beating u k) }
  | .leave u k =>
    { s with
      calls := update s.calls i (.leaving u k)
      opened := s.opened.filter fun c => c ≠ (u, k) }

def move (s : State User Conn) : Move User Conn → State User Conn
  | .start i request =>
    match s.calls i with
    | .idle | .returned _ _ => s.start i request
    | _ => s
  | .step i =>
    let (c, room) := (s.calls i).step s.room
    { s with room, calls := update s.calls i c }

def run (s : State User Conn) (moves : List (Move User Conn)) : State User Conn :=
  moves.foldl move s

end State

/-- A connection joins again only when its earlier `leave` calls have taken their first step,
and a user is removed from the roster only while without a connection. -/
def Careful (s : State User Conn) : Move User Conn → Prop
  | .start _ (.join u k) => ∀ j, s.calls j ≠ .leaving u k
  | .start _ _ => True
  | .step i =>
    match s.calls i with
    | .dropping u => s.room.connected u = false
    | .evicting (u :: _) _ => s.room.connected u = false
    | _ => True

def AllCareful (s : State User Conn) : List (Move User Conn) → Prop
  | [] => True
  | m :: rest => Careful s m ∧ AllCareful (s.move m) rest

/-- Every open connection is about to be recorded, or is recorded and its user is on the roster
or about to be. -/
structure Present (s : State User Conn) : Prop where
  opened : ∀ u k, (u, k) ∈ s.opened → (∃ i, s.calls i = .joining u k) ∨
    (u, k) ∈ s.room.conns ∧ (u ∈ s.room.roster ∨ ∃ i first, s.calls i = .joinedConns u first)
  leaving : ∀ i u k, s.calls i = .leaving u k → (u, k) ∉ s.opened

variable {s : State User Conn} {i : ℕ} {c : Call User Conn}

omit [DecidableEq User] [DecidableEq Conn] in
theorem exists_update {P : Call User Conn → Prop} :
    (∃ j, P (update s.calls i c j)) ↔ P c ∨ ∃ j, j ≠ i ∧ P (s.calls j) := by
  constructor
  · rintro ⟨j, hj⟩
    by_cases hji : j = i
    · subst hji
      simpa using Or.inl hj
    · exact .inr ⟨j, hji, by simpa [hji] using hj⟩
  · rintro (hc | ⟨j, hji, hj⟩)
    · exact ⟨i, by simpa using hc⟩
    · exact ⟨j, by simpa [hji] using hj⟩

omit [DecidableEq User] [DecidableEq Conn] in
theorem exists_split {P : Call User Conn → Prop} :
    (∃ j, P (s.calls j)) ↔ P (s.calls i) ∨ ∃ j, j ≠ i ∧ P (s.calls j) := by
  simpa using exists_update (s := s) (i := i) (c := s.calls i) (P := P)

theorem step_ne_leaving {r : Room User Conn} {u : User} {k : Conn} :
    (c.step r).1 ≠ .leaving u k := by
  fun_cases Call.step r c <;> grind

theorem Present.step (h : Present s) (hc : Careful s (.step i)) : Present (s.move (.step i)) := by
  constructor
  · intro u k hmem
    have hopen := h.opened u k hmem
    have hleave := h.leaving i
    rw [exists_split (i := i) (P := fun c => c = .joining u k),
      exists_split (i := i) (P := fun c => ∃ first, c = .joinedConns u first)] at hopen
    simp only [move, exists_update (P := fun c => c = .joining u k),
      exists_update (P := fun c => ∃ first, c = .joinedConns u first)]
    simp only [move] at hmem
    simp only [Careful] at hc
    cases hcall : s.calls i with
    | joining v l | joinedConns v first | beating v l | dropping v =>
      simp [hcall, Call.step, addConn, enter, drop, connected] at hc hopen ⊢
      grind
    | leaving v l =>
      have hne := hleave v l hcall
      simp [hcall, Call.step, removeConn] at hopen ⊢
      grind
    | checking members live stale =>
      cases members <;> simp [hcall, Call.step] at hopen ⊢ <;> grind
    | evicting stale live =>
      cases stale <;> simp [hcall, Call.step, drop, connected] at hc hopen ⊢ <;> grind
    | _ =>
      simp [hcall, Call.step] at hopen ⊢
      grind
  · intro j u k hj
    by_cases hji : j = i
    · subst hji
      simp only [move, update_self] at hj
      exact absurd hj step_ne_leaving
    · exact h.leaving j u k (by simpa [move, hji] using hj)

theorem Present.start (h : Present s) {request : Request User Conn}
    (hfree : s.calls i = .idle ∨ ∃ edge size, s.calls i = .returned edge size)
    (hc : Careful s (.start i request)) : Present (s.start i request) := by
  constructor
  · intro u k hmem
    have hopen := h.opened u k
    rw [exists_split (i := i) (P := fun c => c = .joining u k),
      exists_split (i := i) (P := fun c => ∃ first, c = .joinedConns u first)] at hopen
    cases request <;>
      simp only [State.start, exists_update (P := fun c => c = .joining u k),
        exists_update (P := fun c => ∃ first, c = .joinedConns u first)] at hmem ⊢ <;>
      grind
  · intro j u k hj
    have hleave := h.leaving j u k
    cases request <;> simp only [State.start, Careful] at hj hc ⊢ <;>
      grind [update_apply]

theorem Present.run (moves : List (Move User Conn)) :
    ∀ {s : State User Conn}, Present s → AllCareful s moves → Present (s.run moves) := by
  induction moves with
  | nil => exact fun h _ => h
  | cons m rest ih =>
    intro s h hc
    refine ih ?_ hc.2
    cases m with
    | step i => exact h.step hc.1
    | start i request =>
      simp only [move]
      split
      · exact h.start (.inl ‹_›) hc.1
      · exact h.start (.inr ⟨_, _, ‹_›⟩) hc.1
      · exact h

/-- **A connected user is present**: after any careful interleaving, when no `join` or `leave` is
in progress, a user with an open connection is on the roster and listed. -/
theorem connected_user_present (room : Room User Conn) (moves : List (Move User Conn))
    (hc : AllCareful { room } moves) (u : User) (k : Conn)
    (hquiet : ∀ i, ((run { room } moves).calls i).inProgress = false)
    (hopen : (u, k) ∈ (run { room } moves).opened) :
    u ∈ (run { room } moves).room.roster ∧
      u ∈ (run { room } moves).room.listRoom := by
  have h : Present (run { room } moves) := Present.run moves ⟨by simp, by simp⟩ hc
  generalize run { room } moves = s at *
  have hin : (u, k) ∈ s.room.conns ∧ u ∈ s.room.roster := by
    obtain ⟨i, hi⟩ | ⟨hconns, hroster | ⟨i, first, hi⟩⟩ := h.opened u k hopen
    · simpa [hi, Call.inProgress] using hquiet i
    · exact ⟨hconns, hroster⟩
    · simpa [hi, Call.inProgress] using hquiet i
  refine ⟨hin.2, ?_⟩
  simp only [listRoom, List.mem_filter, connected, List.any_eq_true, decide_eq_true_eq]
  exact ⟨hin.2, (u, k), hin.1, rfl⟩

/-- Tab 0 joins and leaves; tab 1 joins while the `leave` is between its two sets. -/
def overtaken : List (Move ℕ ℕ) :=
  [.start 0 (.join 9 0), .step 0, .step 0, .step 0, .start 0 (.leave 9 0), .step 0, .step 0,
    .start 1 (.join 9 1), .step 1, .step 1, .step 1, .step 0, .step 0, .step 0, .step 0, .step 0]

/-- The `leave` of the first tab takes the user off the roster after the second has joined. -/
theorem connected_user_absent :
    let s := run ({ room := {} } : State ℕ ℕ) overtaken
    (∀ i, (s.calls i).inProgress = false) ∧ (9, 1) ∈ s.opened ∧ (9, 1) ∈ s.room.conns ∧
      s.room.roster = [] ∧ s.room.listRoom = [] := by
  refine ⟨fun i => ?_, by decide +kernel, by decide +kernel, by decide +kernel, by decide +kernel⟩
  match i with
  | 0 => decide +kernel
  | 1 => decide +kernel
  | i + 2 => rfl

/-- The first tab joins and leaves, which takes the user off the roster; then the second joins. -/
def inTurn : List (Move ℕ ℕ) :=
  [.start 0 (.join 9 0), .step 0, .step 0, .step 0, .start 0 (.leave 9 0), .step 0, .step 0,
    .step 0, .step 0, .step 0, .step 0, .step 0, .start 1 (.join 9 1), .step 1, .step 1, .step 1]

theorem present_in_turn :
    (run ({ room := {} } : State ℕ ℕ) (inTurn.take 8)).room.roster = [] ∧
      9 ∈ (run ({ room := {} } : State ℕ ℕ) inTurn).room.listRoom := by
  refine ⟨by decide +kernel,
    (connected_user_present {} inTurn ?_ 9 1 (fun i => ?_) (by decide +kernel)).2⟩
  · refine ⟨nofun, trivial, trivial, trivial, ?_⟩
    -- the third step of the `leave` removes the user, who has no connection then
    refine ⟨trivial, trivial, trivial, rfl, trivial, trivial, trivial, trivial, fun j h => ?_, ?_⟩
    · match j with
      | 0 => exact absurd (congrArg Call.inProgress h) (by decide +kernel)
      | j + 1 => cases h
    · exact ⟨trivial, trivial, trivial, trivial⟩
  · match i with
    | 0 => decide +kernel
    | 1 => decide +kernel
    | i + 2 => rfl

end Smap.Presence
