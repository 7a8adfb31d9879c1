import Smap.Lib.SoftDelete

/-!
# Deleting and restoring organisations

`OrgService.soft_delete` and `restore` (`contexts/tenancy/application/org_service.py`), and
those of `ProjectService`, on the organisations, the projects and the two kinds of graph
configs.  Both run in one transaction; one that raises changes nothing.

A project's deletion stamps its live graph configs with its own instant, and
`ProjectService.restore` takes back the configs that carry it.  `OrgService.restore` does not
call it: it clears the stamp of every deleted project of the organisation in the table of
projects, whoever has deleted it, and leaves the configs alone.

Skills, invites, transfers and the audit trail are left out.
-/

namespace Smap.Tenancy

open Smap.SoftDelete SoftTable Option

/-- Who owns a project. -/
inductive Owner (Uuid : Type) where
  | user (id : Uuid)
  | org (id : Uuid)
  deriving DecidableEq

/-- Who owns a Concept Map. -/
inductive GraphOwner (Uuid : Type) where
  | chatroom (id : Uuid)
  | agentGroup (id : Uuid)
  | workspace (id : Uuid)
  deriving DecidableEq

/-- The tables, each with its index on the rows that are live. -/
structure Database (Uuid Name : Type) where
  /-- `uq_orgs_name_active`. -/
  orgs : SoftTable Uuid Name Unit
  /-- `uq_projects_user_name` and `uq_projects_org_name`. -/
  projects : SoftTable Uuid (Owner Uuid × Name) Unit
  /-- `uq_knowmap_configs_project_name_active`. -/
  knowmapConfigs : SoftTable Uuid (Uuid × Name) Unit
  /-- `uq_graphrag_configs_owner_…`; the project is not part of the index. -/
  graphragConfigs : SoftTable Uuid (GraphOwner Uuid) Uuid

variable {Uuid Name : Type}

/-- The rows of a project that are live. -/
def liveOf [DecidableEq Uuid] {κ δ : Type} (projectOf : SoftRow κ δ → Uuid) (project : Uuid)
    (_id : Uuid) (r : SoftRow κ δ) : Bool :=
  decide (projectOf r = project) && r.deletedAt.isNone

/-- The rows of a project that were stamped at an instant. -/
def stampedOf [DecidableEq Uuid] {κ δ : Type} (projectOf : SoftRow κ δ → Uuid)
    (project : Uuid) (deletedAt : ℕ) (_id : Uuid) (r : SoftRow κ δ) : Bool :=
  decide (projectOf r = project) && decide (r.deletedAt = some deletedAt)

def knowmapProject {δ : Type} (r : SoftRow (Uuid × Name) δ) : Uuid := r.key.1

def graphragProject {κ : Type} (r : SoftRow κ Uuid) : Uuid := r.data

section Repositories

variable [DecidableEq Uuid]

/-- The row of an id. -/
def withId {κ δ : Type} (id : Uuid) (id' : Uuid) (_r : SoftRow κ δ) : Bool := decide (id' = id)

/-- The row of an id, if it has been deleted. -/
def deletedWithId {κ δ : Type} (id : Uuid) (id' : Uuid) (r : SoftRow κ δ) : Bool :=
  decide (id' = id) && r.deletedAt.isSome

/-- `list_by_org`. -/
def listByOrg (org : Uuid) (includeDeleted : Bool) (db : Database Uuid Name) : List Uuid :=
  db.projects.ids.filter fun id =>
    (db.projects.row id).any fun r =>
      decide (r.key.1 = .org org) && (includeDeleted || r.deletedAt.isNone)

/-- Of `list_by_org` with the deleted ones, those that are. -/
def deletedByOrg (org : Uuid) (db : Database Uuid Name) : List Uuid :=
  (listByOrg org true db).filter fun id =>
    (db.projects.row id).any fun r => r.deletedAt.isSome

end Repositories

/-! ## Services -/

section Services

variable [DecidableEq Uuid]

namespace ProjectService

/-- `soft_delete`, at an instant. -/
def softDelete (now : ℕ) (project : Uuid) (db : Database Uuid Name) : Database Uuid Name :=
  let projects := db.projects.stamp (withId project) now
  -- The cascade runs if there is a row to stamp.
  if (db.projects.row project).isSome then
    { db with
      projects := projects
      knowmapConfigs := db.knowmapConfigs.stamp (liveOf knowmapProject project) now
      graphragConfigs := db.graphragConfigs.stamp (liveOf graphragProject project) now }
  else { db with projects := projects }

/-- `restore`: the instant is read before it is cleared. -/
def restore [DecidableEq Name] (project : Uuid) (db : Database Uuid Name) :
    Option (Database Uuid Name) := do
  let prior := db.projects.row project
  let projects ← db.projects.clear (deletedWithId project)
  match prior.bind SoftRow.deletedAt with
  | none => return { db with projects := projects }
  | some deletedAt =>
    let knowmapConfigs ← db.knowmapConfigs.clear (stampedOf knowmapProject project deletedAt)
    let graphragConfigs ← db.graphragConfigs.clear (stampedOf graphragProject project deletedAt)
    return { db with
      projects := projects
      knowmapConfigs := knowmapConfigs
      graphragConfigs := graphragConfigs }

end ProjectService

namespace OrgService

/-- `soft_delete`; `now` is what the clock shows when a project, or at last the organisation,
is stamped. -/
def softDelete (now : Option Uuid → ℕ) (org : Uuid) (db : Database Uuid Name) :
    Database Uuid Name :=
  let db' := (listByOrg org false db).foldl
    (fun db project => ProjectService.softDelete (now (some project)) project db) db
  { db' with orgs := db'.orgs.stamp (withId org) (now none) }

/-- `restore`: each project of the organisation that is deleted is restored in the table of
projects. -/
def restore [DecidableEq Name] (org : Uuid) (db : Database Uuid Name) :
    Option (Database Uuid Name) := do
  let orgs ← db.orgs.clear (deletedWithId org)
  let db := { db with orgs := orgs }
  let projects ← db.projects.clearEach deletedWithId (deletedByOrg org db)
  return { db with projects := projects }

end OrgService

end Services

/-- The same projects and graph configs are live. -/
structure SameLive (db db' : Database Uuid Name) : Prop where
  projects : ∀ id, db'.projects.IsLive id ↔ db.projects.IsLive id
  knowmapConfigs : ∀ id, db'.knowmapConfigs.IsLive id ↔ db.knowmapConfigs.IsLive id
  graphragConfigs : ∀ id, db'.graphragConfigs.IsLive id ↔ db.graphragConfigs.IsLive id

/-! ## A project -/

variable {κ δ : Type} {t : SoftTable Uuid κ δ}

section Project

variable [DecidableEq Uuid]

/-- No row of the project carries the instant. -/
def Unstamped {κ δ : Type} (projectOf : SoftRow κ δ → Uuid) (project : Uuid) (time : ℕ)
    (t : SoftTable Uuid κ δ) : Prop :=
  ∀ id r, t.row id = some r → stampedOf projectOf project time id r = false

variable {project : Uuid}

/-- A cascade and back: the stamped rows are those that were live. -/
theorem cascade_undone [DecidableEq κ] (projectOf : SoftRow κ δ → Uuid) {time : ℕ}
    (hproject : ∀ r s : SoftRow κ δ, r.key = s.key → r.data = s.data → projectOf r = projectOf s)
    (hfresh : Unstamped projectOf project time t) :
    ∃ t', (t.stamp (liveOf projectOf project) time).clear (stampedOf projectOf project time) =
        some t' ∧ ∀ id, t'.IsLive id ↔ t.IsLive id := by
  refine clear_stamp ?_ ?_ ?_
  · intro id r _ hr
    simpa [liveOf] using (Bool.and_eq_true_iff.mp hr).2
  · intro id r hr
    have hkept : projectOf { r with deletedAt := some time } = projectOf r := hproject _ _ rfl rfl
    simp only [liveOf, Bool.and_eq_true] at hr
    simpa [stampedOf, hkept] using hr.1
  · exact fun id r hr _ => hfresh id r hr

/-- The row of a project that was live. -/
theorem restoreProject_undoes [DecidableEq κ] (time : ℕ) (hlive : t.IsLive project) :
    ∃ t', (t.stamp (withId project) time).clear (deletedWithId project) = some t' ∧
      ∀ id, t'.IsLive id ↔ t.IsLive id := by
  refine clear_stamp ?_ (fun id r hid => ?_) (fun id r _ hid => ?_)
  · rintro id r hr hid
    obtain rfl : id = project := of_decide_eq_true hid
    obtain ⟨r', hr', hlive⟩ := hlive
    cases hr.symm.trans hr'
    exact hlive
  · simpa [withId, deletedWithId] using hid
  · simp_all [withId, deletedWithId]

/-- **A project comes back with its graph configs**, if none of them had been deleted at the
very instant of the project. -/
theorem project_restore_undoes_delete [DecidableEq Name] {db : Database Uuid Name} {now : ℕ}
    (hlive : db.projects.IsLive project)
    (hknowmap : Unstamped knowmapProject project now db.knowmapConfigs)
    (hgraphrag : Unstamped graphragProject project now db.graphragConfigs) :
    ∃ db', ProjectService.restore project (ProjectService.softDelete now project db) = some db' ∧
      SameLive db db' := by
  obtain ⟨r, hr, hr'⟩ := hlive
  have hdeleted : ProjectService.softDelete now project db =
      { db with
        projects := db.projects.stamp (withId project) now
        knowmapConfigs := db.knowmapConfigs.stamp (liveOf knowmapProject project) now
        graphragConfigs := db.graphragConfigs.stamp (liveOf graphragProject project) now } :=
    if_pos (by rw [hr]; rfl)
  have hrow : (db.projects.stamp (withId project) now).row project =
      some { r with deletedAt := some now } := by
    simp [stamp, hr, withId]
  obtain ⟨projects, hprojects, hsame⟩ := restoreProject_undoes now ⟨r, hr, hr'⟩
  obtain ⟨knowmap, hk, hksame⟩ := cascade_undone knowmapProject
    (fun r s hkey _ => congrArg Prod.fst hkey) hknowmap
  obtain ⟨graphrag, hg, hgsame⟩ := cascade_undone graphragProject
    (fun r s _ hdata => hdata) hgraphrag
  refine ⟨{ db with projects := projects, knowmapConfigs := knowmap, graphragConfigs := graphrag },
    ?_, hsame, hksame, hgsame⟩
  rw [hdeleted]
  simp only [ProjectService.restore, hrow, bind_some, hprojects, hk, hg, bind, pure]

end Project

/-! ## An organisation -/

section Org

variable [DecidableEq Uuid]

variable {now : Uuid → ℕ} {db db' : Database Uuid Name} {org id : Uuid}

/-- The loop of `soft_delete`, table by table. -/
theorem foldl_softDelete {ps : List Uuid} (h : ∀ p ∈ ps, (db.projects.row p).isSome = true) :
    ps.foldl (fun db p => ProjectService.softDelete (now p) p db) db =
      { db with
        projects := db.projects.stampEach withId now ps
        knowmapConfigs := db.knowmapConfigs.stampEach (liveOf knowmapProject) now ps
        graphragConfigs := db.graphragConfigs.stampEach (liveOf graphragProject) now ps } := by
  induction ps generalizing db with
  | nil => rfl
  | cons p ps ih =>
    rw [List.foldl_cons]
    have hstep : ProjectService.softDelete (now p) p db =
        { db with
          projects := db.projects.stamp (withId p) (now p)
          knowmapConfigs := db.knowmapConfigs.stamp (liveOf knowmapProject p) (now p)
          graphragConfigs := db.graphragConfigs.stamp (liveOf graphragProject p) (now p) } :=
      if_pos (h p List.mem_cons_self)
    rw [hstep]
    refine ih fun q hq => ?_
    simpa [stamp] using h q (List.mem_cons_of_mem p hq)

theorem mem_listByOrg {includeDeleted : Bool} :
    id ∈ listByOrg org includeDeleted db ↔ ∃ r, db.projects.row id = some r ∧
      r.key.1 = .org org ∧ (includeDeleted = true ∨ r.deletedAt = none) := by
  simp only [listByOrg, List.mem_filter, any_eq_true, Bool.and_eq_true, decide_eq_true_eq,
    Bool.or_eq_true, isNone_iff_eq_none]
  constructor
  · rintro ⟨-, r, hr, howner, hlive⟩
    exact ⟨r, hr, howner, hlive⟩
  · rintro ⟨r, hr, howner, hlive⟩
    exact ⟨db.projects.listed id r hr, r, hr, howner, hlive⟩

/-- `soft_delete`, table by table. -/
theorem softDelete_eq (now : Option Uuid → ℕ) (org : Uuid) (db : Database Uuid Name) :
    OrgService.softDelete now org db =
      { orgs := db.orgs.stamp (withId org) (now none)
        projects := db.projects.stampEach withId (fun p => now (some p)) (listByOrg org false db)
        knowmapConfigs := db.knowmapConfigs.stampEach (liveOf knowmapProject)
          (fun p => now (some p)) (listByOrg org false db)
        graphragConfigs := db.graphragConfigs.stampEach (liveOf graphragProject)
          (fun p => now (some p)) (listByOrg org false db) } := by
  have hsome : ∀ p ∈ listByOrg org false db, (db.projects.row p).isSome = true := by
    intro p hp
    obtain ⟨r, hr, -⟩ := mem_listByOrg.mp hp
    rw [hr]
    rfl
  rw [OrgService.softDelete, foldl_softDelete hsome]

section Restore

variable [DecidableEq κ] {t' : SoftTable Uuid κ δ}

/-- A row can be restored where no other live row has taken its key. -/
theorem exists_clear_deletedWithId
    (hfree : ∀ r, t.row org = some r → ∀ o s, o ≠ org → t.row o = some s →
      s.deletedAt = none → s.key ≠ r.key) :
    ∃ t', t.clear (deletedWithId org) = some t' := by
  have hother : ∀ o r, o ≠ org → t.cleared (deletedWithId org) o = some r → t.row o = some r := by
    intro o r ho hr
    simpa [cleared, deletedWithId, ho] using hr
  have hself : ∀ r, t.cleared (deletedWithId org) org = some r →
      ∃ r', t.row org = some r' ∧ r.key = r'.key := by
    intro r hr
    obtain ⟨r', hr', rfl⟩ := map_eq_some_iff.mp hr
    exact ⟨r', hr', by split <;> rfl⟩
  refine ⟨_, dif_pos (fits_iff.mpr fun i j r s hr hs hrlive hslive hkey => ?_)⟩
  by_cases hi : i = org
  · by_cases hj : j = org
    · rw [hi, hj]
    · subst hi
      obtain ⟨r', hr', hrkey⟩ := hself r hr
      exact absurd (hkey.symm.trans hrkey) (hfree r' hr' j s hj (hother j s hj hs) hslive)
  · by_cases hj : j = org
    · subst hj
      obtain ⟨s', hs', hskey⟩ := hself s hs
      exact absurd (hkey.trans hskey) (hfree s' hs' i r hi (hother i r hi hr) hrlive)
    · exact t.unique i j r s (hother i r hi hr) (hother j s hj hs) hrlive hslive hkey

/-- A loop of restorations brings back the rows of its list. -/
theorem isLive_of_clearEach {ids : List Uuid}
    (h : t.clearEach deletedWithId ids = some t') :
    t'.IsLive id ↔ t.IsLive id ∨ id ∈ ids ∧ (t.row id).isSome = true := by
  induction ids generalizing t with
  | nil =>
    cases h
    simp
  | cons a ids ih =>
    obtain ⟨t₁, ht₁, ht'⟩ := bind_eq_some_iff.mp h
    have hsome : (t₁.row id).isSome = (t.row id).isSome := by
      rw [row_of_clear ht₁, cleared, isSome_map]
    rw [ih ht', isLive_of_clear ht₁, hsome, List.mem_cons]
    cases hr : t.row id with
    | none => simp [SoftTable.IsLive, hr]
    | some r =>
      cases hlive : r.deletedAt with
      | none => simp [SoftTable.IsLive, hr, hlive]
      | some =>
        simp [SoftTable.IsLive, hr, hlive, deletedWithId, or_comm]

end Restore

/-- The project is the organisation's. -/
def Database.ofOrg (db : Database Uuid Name) (org project : Uuid) : Prop :=
  ∃ r, db.projects.row project = some r ∧ r.key.1 = .org org

/-- No other live organisation has its name. -/
def Database.nameFree (db : Database Uuid Name) (org : Uuid) : Prop :=
  ∀ r, db.orgs.row org = some r → ∀ o s, o ≠ org → db.orgs.row o = some s →
    s.deletedAt = none → s.key ≠ r.key

/-- No graph config of the organisation's projects is live. -/
def NoneLive {κ δ : Type} (projectOf : SoftRow κ δ → Uuid) (db : Database Uuid Name) (org : Uuid)
    (t : SoftTable Uuid κ δ) : Prop :=
  ∀ id r, t.row id = some r → db.ofOrg org (projectOf r) → r.deletedAt ≠ none

/-- The configs that a deletion leaves live are those of other projects. -/
theorem sameLive_stampEach_iff {projectOf : SoftRow κ δ → Uuid}
    (hprojects : ∀ id r, db.projects.row id = some r → r.key.1 = .org org → r.deletedAt = none) :
    (∀ id, (t.stampEach (liveOf projectOf) now (listByOrg org false db)).IsLive id ↔ t.IsLive id) ↔
      NoneLive projectOf db org t := by
  simp only [isLive_stampEach]
  constructor
  · rintro h id r hr ⟨p, hp, howner⟩ hlive
    obtain ⟨r', hr', -, hspared⟩ := (h id).mpr ⟨r, hr, hlive⟩
    rw [hr] at hr'
    cases hr'
    have hmem : projectOf r ∈ listByOrg org false db :=
      mem_listByOrg.mpr ⟨p, hp, howner, .inr (hprojects _ p hp howner)⟩
    simpa [liveOf, hlive] using hspared _ hmem
  · intro h id
    constructor
    · rintro ⟨r, hr, hlive, -⟩
      exact ⟨r, hr, hlive⟩
    rintro ⟨r, hr, hlive⟩
    refine ⟨r, hr, hlive, fun p hp => ?_⟩
    obtain ⟨s, hs, howner, -⟩ := mem_listByOrg.mp hp
    have hne : projectOf r ≠ p := by
      rintro rfl
      exact h id r hr ⟨s, hs, howner⟩ hlive
    simp [liveOf, hne]

theorem mem_deletedByOrg : id ∈ deletedByOrg org db ↔ ∃ r, db.projects.row id = some r ∧
      r.key.1 = .org org ∧ r.deletedAt ≠ none := by
  simp only [deletedByOrg, List.mem_filter, mem_listByOrg, any_eq_true, isSome_iff_ne_none]
  constructor
  · rintro ⟨⟨r, hr, howner, -⟩, r', hr', hdeleted⟩
    rw [hr] at hr'
    cases hr'
    exact ⟨r, hr, howner, hdeleted⟩
  · rintro ⟨r, hr, howner, hdeleted⟩
    exact ⟨⟨r, hr, howner, .inl trivial⟩, r, hr, hdeleted⟩

/-- After a deletion `restore` goes through every project of the organisation. -/
theorem mem_deletedByOrg_softDelete
    (h : db'.projects = db.projects.stampEach withId now (listByOrg org false db)) :
    id ∈ deletedByOrg org db' ↔ db.ofOrg org id := by
  have hbelow : db'.projects.Below db.projects :=
    h ▸ (SoftTable.Below.refl db.projects).stampEach (listByOrg org false db)
  rw [mem_deletedByOrg]
  constructor
  · rintro ⟨r, hr, howner, -⟩
    obtain ⟨r₀, hr₀, hkey, -⟩ := hbelow id r hr
    exact ⟨r₀, hr₀, by rw [← hkey]; exact howner⟩
  · rintro ⟨r₀, hr₀, howner⟩
    have hsome : (db'.projects.row id).isSome = true := by
      rw [h, isSome_row_stampEach, hr₀]
      rfl
    obtain ⟨r, hr⟩ := isSome_iff_exists.mp hsome
    obtain ⟨r₁, hr₁, hkey, hlive⟩ := hbelow id r hr
    rw [hr₀] at hr₁
    cases hr₁
    refine ⟨r, hr, by rw [hkey]; exact howner, fun hrlive => ?_⟩
    -- A live row would have been stamped by the loop.
    have hstill : (db.projects.stampEach withId now (listByOrg org false db)).IsLive id :=
      h ▸ ⟨r, hr, hrlive⟩
    obtain ⟨r', -, -, hspared⟩ := isLive_stampEach.mp hstill
    have hmem : id ∈ listByOrg org false db :=
      mem_listByOrg.mpr ⟨r₀, hr₀, howner, .inr (hlive hrlive)⟩
    simpa [withId] using hspared id hmem

/-- The projects that a deletion leaves live are those of others. -/
theorem isLive_softDelete : (db.projects.stampEach withId now (listByOrg org false db)).IsLive id ↔
      db.projects.IsLive id ∧ ¬ db.ofOrg org id := by
  rw [isLive_stampEach]
  constructor
  · rintro ⟨r, hr, hlive, hspared⟩
    refine ⟨⟨r, hr, hlive⟩, ?_⟩
    rintro ⟨r', hr', howner⟩
    rw [hr] at hr'
    cases hr'
    simpa [withId] using hspared id (mem_listByOrg.mpr ⟨r, hr, howner, .inr hlive⟩)
  · rintro ⟨⟨r, hr, hlive⟩, hother⟩
    refine ⟨r, hr, hlive, fun p hp => ?_⟩
    have hne : id ≠ p := by
      rintro rfl
      obtain ⟨r', hr', howner, -⟩ := mem_listByOrg.mp hp
      exact hother ⟨r', hr', howner⟩
    simp [withId, hne]

variable [DecidableEq Name]

theorem restore_eq_some : OrgService.restore org db = some db' ↔
      ∃ orgs projects, db.orgs.clear (deletedWithId org) = some orgs ∧
        db.projects.clearEach deletedWithId (deletedByOrg org db) = some projects ∧
        db' = { db with orgs := orgs, projects := projects } := by
  simp only [OrgService.restore, bind, pure, bind_eq_some_iff, Option.some.injEq]
  constructor
  · rintro ⟨orgs, horgs, projects, hprojects, rfl⟩
    exact ⟨orgs, projects, horgs, hprojects, rfl⟩
  · rintro ⟨orgs, projects, horgs, hprojects, rfl⟩
    exact ⟨orgs, horgs, projects, hprojects, rfl⟩

/-- The organisation's own row comes back exactly where its name is free. -/
theorem exists_clear_org_iff {now : ℕ} :
    (∃ orgs, (db.orgs.stamp (withId org) now).clear (deletedWithId org) = some orgs) ↔
      db.nameFree org := by
  have hother : ∀ o, o ≠ org → (db.orgs.stamp (withId org) now).row o = db.orgs.row o := by
    intro o ho
    simp [stamp, withId, ho]
  constructor
  · rintro ⟨orgs, horgs⟩ r hr o s ho hs hslive hkey
    have hrow : orgs.row org = some { r with deletedAt := none } := by
      rw [row_of_clear horgs]
      simp [cleared, stamp, hr, withId, deletedWithId]
    have hrow' : orgs.row o = some s := by
      rw [row_of_clear horgs, cleared, hother o ho, hs]
      simp [deletedWithId, ho]
    exact ho (orgs.unique o org s _ hrow' hrow hslive rfl hkey)
  · intro hfree
    refine exists_clear_deletedWithId fun r hr o s ho hs hslive => ?_
    obtain ⟨r₀, hr₀, rfl⟩ := map_eq_some_iff.mp hr
    rw [hother o ho] at hs
    have hkey := hfree r₀ hr₀ o s ho hs hslive
    split
    · exact hkey
    · exact hkey

/-- **When an organisation comes back as it was**: all of its projects were live, none of them
had a live graph config, and no other live organisation has its name. -/
theorem org_restore_undoes_delete_iff (now : Option Uuid → ℕ) (org : Uuid)
    (db : Database Uuid Name) :
    (∃ db', OrgService.restore org (OrgService.softDelete now org db) = some db' ∧
        SameLive db db') ↔
      (∀ id r, db.projects.row id = some r → r.key.1 = .org org → r.deletedAt = none) ∧
        NoneLive knowmapProject db org db.knowmapConfigs ∧
        NoneLive graphragProject db org db.graphragConfigs ∧ db.nameFree org := by
  have horgs := congrArg Database.orgs (softDelete_eq now org db)
  have hprojects := congrArg Database.projects (softDelete_eq now org db)
  have hknowmaps := congrArg Database.knowmapConfigs (softDelete_eq now org db)
  have hgraphrags := congrArg Database.graphragConfigs (softDelete_eq now org db)
  generalize OrgService.softDelete now org db = deleted at horgs hprojects hknowmaps hgraphrags ⊢
  simp only [restore_eq_some]
  constructor
  · rintro ⟨-, ⟨orgs, projects, horgs', hprojects', rfl⟩, hsame⟩
    have hlive : ∀ id r, db.projects.row id = some r → r.key.1 = .org org →
        r.deletedAt = none := by
      intro id r hr howner
      have hsome : (deleted.projects.row id).isSome = true := by
        rw [hprojects, isSome_row_stampEach, hr]
        rfl
      have hback := (isLive_of_clearEach hprojects').mpr
        (.inr ⟨(mem_deletedByOrg_softDelete hprojects).mpr ⟨r, hr, howner⟩, hsome⟩)
      obtain ⟨r', hr', hlive⟩ := (hsame.projects id).mp hback
      rw [hr] at hr'
      cases hr'
      exact hlive
    have hk := hsame.knowmapConfigs
    have hg := hsame.graphragConfigs
    rw [hknowmaps] at hk
    rw [hgraphrags] at hg
    exact ⟨hlive, (sameLive_stampEach_iff hlive).mp hk, (sameLive_stampEach_iff hlive).mp hg,
      exists_clear_org_iff.mp ⟨orgs, horgs ▸ horgs'⟩⟩
  · rintro ⟨hlive, hk, hg, hfree⟩
    have hof : ∀ id, db.ofOrg org id → db.projects.IsLive id := by
      rintro id ⟨r, hr, howner⟩
      exact ⟨r, hr, hlive id r hr howner⟩
    have hbelow : deleted.projects.Below db.projects :=
      hprojects ▸ (SoftTable.Below.refl db.projects).stampEach (listByOrg org false db)
    obtain ⟨orgs, horgs'⟩ := exists_clear_org_iff.mpr hfree
    have hcleared : ∀ p ∈ deletedByOrg org deleted, ∀ id (r : SoftRow (Owner Uuid × Name) Unit),
        deletedWithId p id r = true → db.projects.IsLive id := by
      intro p hp id r hid
      simp only [deletedWithId, Bool.and_eq_true, decide_eq_true_eq] at hid
      rw [hid.1]
      exact hof p ((mem_deletedByOrg_softDelete hprojects).mp hp)
    obtain ⟨projects, hprojects', -⟩ := hbelow.clearEach hcleared
    refine ⟨_, ⟨orgs, projects, horgs ▸ horgs', hprojects', rfl⟩, fun id => ?_, ?_, ?_⟩
    · rw [isLive_of_clearEach hprojects', mem_deletedByOrg_softDelete hprojects, hprojects,
        isLive_softDelete, isSome_row_stampEach]
      constructor
      · rintro (⟨hid, -⟩ | ⟨hid, -⟩)
        · exact hid
        · exact hof id hid
      · intro hid
        by_cases howned : db.ofOrg org id
        · obtain ⟨r, hr, -⟩ := hid
          exact .inr ⟨howned, by rw [hr]; rfl⟩
        · exact .inl ⟨hid, howned⟩
    · rw [hknowmaps]
      exact (sameLive_stampEach_iff hlive).mpr hk
    · rw [hgraphrags]
      exact (sameLive_stampEach_iff hlive).mpr hg

/-- Organisation 0 with a live project 1, whose Knowledge Map config is 3, and a project 2 that
was deleted before. -/
def oneDeletedBefore : Database ℕ ℕ where
  orgs :=
    { ids := [0]
      row := fun id => if id = 0 then some ⟨0, (), none⟩ else none
      listed := by simp
      unique := by grind }
  projects :=
    { ids := [1, 2]
      row := fun id => if id = 1 then some ⟨(.org 0, 0), (), none⟩
        else if id = 2 then some ⟨(.org 0, 1), (), some 0⟩ else none
      listed := by grind
      unique := by grind }
  knowmapConfigs :=
    { ids := [3]
      row := fun id => if id = 3 then some ⟨(1, 0), (), none⟩ else none
      listed := by simp
      unique := by grind }
  graphragConfigs := { ids := [], row := fun _ => none, listed := nofun, unique := nofun }

/-- Whether a row is live. -/
def liveRow {κ δ : Type} (t : SoftTable ℕ κ δ) (id : ℕ) : Bool :=
  (t.row id).any fun r => r.deletedAt.isNone

theorem isLive_iff_liveRow {t : SoftTable ℕ κ δ} {id : ℕ} : t.IsLive id ↔ liveRow t id = true := by
  simp [SoftTable.IsLive, liveRow, any_eq_true]

theorem config_comes_back :
    ∃ db', ProjectService.restore 1 (ProjectService.softDelete 1 1 oneDeletedBefore) = some db' ∧
      SameLive oneDeletedBefore db' :=
  project_restore_undoes_delete (isLive_iff_liveRow.mpr rfl)
    (by simp [Unstamped, oneDeletedBefore, stampedOf]) nofun

/-- Deleted and restored, the organisation has one project more and one config less. -/
theorem org_restore_differs :
    ∃ db', OrgService.restore 0 (OrgService.softDelete (fun _ => 1) 0 oneDeletedBefore) =
        some db' ∧
      (¬ oneDeletedBefore.projects.IsLive 2 ∧ db'.projects.IsLive 2) ∧
      (oneDeletedBefore.knowmapConfigs.IsLive 3 ∧ ¬ db'.knowmapConfigs.IsLive 3) := by
  have hrun : (OrgService.restore 0 (OrgService.softDelete (fun _ => 1) 0 oneDeletedBefore)).any
      (fun db' => liveRow db'.projects 2 && !liveRow db'.knowmapConfigs 3) = true := by decide
  simp only [any_eq_true, Bool.and_eq_true, Bool.not_eq_true'] at hrun
  obtain ⟨db', hdb', hlive⟩ := hrun
  refine ⟨db', hdb', ?_⟩
  simp only [isLive_iff_liveRow, hlive.1, hlive.2]
  decide

end Org

end Smap.Tenancy
