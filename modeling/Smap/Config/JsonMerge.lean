import Smap.Workflow.Definition

/-!
# The additive merge of config columns

`merge_json_config` writes a patch over a stored JSON object: a null deletes its key, an object
that meets an object is merged into it, and any other value replaces what is there.  An object
that meets none is stored as it stands, with the nulls in it, and a second write of the patch
deletes those.  The laws hold exactly if there is a stored object around each null (`merge_laws`).
-/

namespace Smap.Config

open Smap.Workflow JsonObject

/-- `merged.pop(key, None)`, or `merged[key] = value`, which keeps the place of a key. -/
def put (key : String) : Option Json → JsonObject → JsonObject
  | none, o => o.filter fun entry => entry.1 ≠ key
  | some value, [] => [(key, value)]
  | some value, (k, v) :: rest =>
    if k = key then (k, value) :: rest else (k, v) :: put key (some value) rest

mutual

/-- What a value of the patch makes of the existing one. -/
def mergeValue (existing : Option Json) : Json → Option Json
  | .null => none
  | .obj fields =>
    match existing with
    | some (.obj stored) => some (.obj (mergeJsonConfig stored fields))
    | _ => some (.obj fields)
  | value => some value

/-- `merge_json_config`; a column that is null is the empty object. -/
def mergeJsonConfig (merged : JsonObject) : List (String × Json) → JsonObject
  | [] => merged
  | (key, value) :: rest =>
    mergeJsonConfig (put key (mergeValue (merged.get? key) value) merged) rest

end

/-- The value at a path of keys. -/
def valueAt : Json → List String → Option Json
  | value, [] => some value
  | .obj fields, key :: path => (get? fields key).bind (valueAt · path)
  | _, _ :: _ => none

/-- No object in it has a key twice. -/
def IsDict : List (String × Json) → Prop
  | [] => True
  | (key, .obj fields) :: rest => key ∉ rest.map Prod.fst ∧ IsDict fields ∧ IsDict rest
  | (key, _) :: rest => key ∉ rest.map Prod.fst ∧ IsDict rest

/-- Around each null of the patch there is an object in what is stored. -/
def NullsMeetObjects (stored patch : JsonObject) : Prop :=
  ∀ path key, valueAt (.obj patch) (path ++ [key]) = some .null →
    ∃ fields, valueAt (.obj stored) path = some (.obj fields)

variable {o stored patch fields : JsonObject} {k key : String} {v : Json}
  {existing : Option Json} {path : List String}

/-! ## One key -/

theorem get?_cons : get? ((key, v) :: o) k = if k = key then some v else o.get? k := by
  by_cases h : k = key
  · simp [get?, h]
  · simp [get?, List.lookup_cons, h, beq_false_of_ne]

theorem get?_put : (put key existing o).get? k = if k = key then existing else o.get? k := by
  induction o with
  | nil =>
    cases existing with
    | none => simp [put, get?]
    | some => exact get?_cons
  | cons entry rest ih => cases existing <;> grind [put, get?_cons]

theorem put_get? : put key (o.get? key) o = o := by
  induction o with
  | nil => rfl
  | cons entry rest ih => cases h : get? rest key <;> grind [put, get?_cons]

theorem get?_of_mem (hnodup : (o.map Prod.fst).Nodup) (hmem : (k, v) ∈ o) : o.get? k = some v := by
  induction o with
  | nil => cases hmem
  | cons entry rest ih => grind [get?_cons]

theorem mergeValue_of_not_obj (h : ¬∃ e, existing = some (.obj e)) :
    mergeValue existing (.obj fields) = some (.obj fields) := by
  unfold mergeValue
  split
  · exact absurd ⟨_, rfl⟩ h
  · rfl

/-- What is under a key after the merge. -/
theorem get?_mergeJsonConfig (hnodup : (patch.map Prod.fst).Nodup) :
    (mergeJsonConfig stored patch).get? k =
      (patch.get? k).elim (stored.get? k) (mergeValue (stored.get? k)) := by
  induction patch generalizing stored with
  | nil => rfl
  | cons entry rest ih =>
    obtain ⟨key, value⟩ := entry
    obtain ⟨hkey, hrest⟩ := List.nodup_cons.mp hnodup
    rw [mergeJsonConfig, ih hrest, get?_put, get?_cons]
    by_cases h : k = key
    · subst h
      have hnone : get? rest k = none := by
        refine List.lookup_eq_none_iff.mpr fun e he => ?_
        have hne : k ≠ e.1 := by
          rintro rfl
          exact hkey (List.mem_map.mpr ⟨e, he, rfl⟩)
        simpa using hne
      simp [hnone]
    · simp [h]

/-- A patch that changes nothing under its keys. -/
theorem mergeJsonConfig_eq_self
    (h : ∀ entry ∈ patch, mergeValue (o.get? entry.1) entry.2 = o.get? entry.1) :
    mergeJsonConfig o patch = o := by
  induction patch with
  | nil => rfl
  | cons entry rest ih =>
    rw [mergeJsonConfig, h entry List.mem_cons_self, put_get?]
    exact ih fun e he => h e (List.mem_cons_of_mem entry he)

/-! ## Paths -/

theorem valueAt_cons (h : o.get? k = some v) : valueAt (.obj o) (k :: path) = valueAt v path := by
  rw [valueAt, h, Option.bind_some]

theorem IsDict.nodup (h : IsDict o) : (o.map Prod.fst).Nodup := by
  fun_induction IsDict o with
  | case1 => exact .nil
  | case2 _ _ _ _ ih => exact .cons h.1 (ih h.2.2)
  | case3 _ _ _ _ ih => exact .cons h.1 (ih h.2)

theorem IsDict.field (h : IsDict o) (hk : o.get? k = some (.obj fields)) : IsDict fields := by
  fun_induction IsDict o with
  | case1 => cases hk
  | _ => grind [get?_cons]

theorem NullsMeetObjects.field (h : NullsMeetObjects stored patch) {e : JsonObject}
    (hp : patch.get? k = some (.obj fields)) (hs : stored.get? k = some (.obj e)) :
    NullsMeetObjects e fields := by
  intro path key hnull
  rw [← valueAt_cons hs]
  exact h (k :: path) key ((valueAt_cons hp).trans hnull)

/-- An object that meets none has no null. -/
theorem NullsMeetObjects.no_null (h : NullsMeetObjects stored patch)
    (hp : patch.get? k = some (.obj fields)) (hs : ¬∃ e, stored.get? k = some (.obj e)) :
    valueAt (.obj fields) path ≠ some .null := by
  intro hnull
  rcases List.eq_nil_or_concat' path with rfl | ⟨path, key, rfl⟩
  · cases hnull
  · obtain ⟨below, hbelow⟩ := h (k :: path) key ((valueAt_cons hp).trans hnull)
    obtain ⟨v, hv, hbelow⟩ := Option.bind_eq_some_iff.mp hbelow
    cases v with
    | obj e => exact hs ⟨e, hv⟩
    | _ => cases path <;> cases hbelow

/-! ## The laws -/

theorem sizeOf_lt_of_field (h : (k, .obj fields) ∈ o) : sizeOf fields < sizeOf o := by
  have hlt := List.sizeOf_lt_of_mem h
  simp only [Prod.mk.sizeOf_spec, Json.obj.sizeOf_spec] at hlt
  omega

/-- An object without nulls, merged into itself. -/
theorem mergeJsonConfig_self (o : JsonObject) (hdict : IsDict o)
    (hnull : ∀ path, valueAt (.obj o) path ≠ some .null) : mergeJsonConfig o o = o := by
  refine mergeJsonConfig_eq_self fun ⟨k, v⟩ hmem => ?_
  have hget : o.get? k = some v := get?_of_mem hdict.nodup hmem
  rw [hget]
  cases v with
  | null => exact absurd (valueAt_cons hget) (hnull [k])
  | obj fields =>
    have hfields := mergeJsonConfig_self fields (hdict.field hget) fun path hp =>
      hnull (k :: path) ((valueAt_cons hget).trans hp)
    rw [mergeValue, hfields]
  | _ => rfl
termination_by sizeOf o
decreasing_by exact sizeOf_lt_of_field hmem

theorem mergeJsonConfig_twice (stored patch : JsonObject) (hdict : IsDict patch)
    (h : NullsMeetObjects stored patch) :
    mergeJsonConfig (mergeJsonConfig stored patch) patch = mergeJsonConfig stored patch := by
  refine mergeJsonConfig_eq_self fun ⟨k, v⟩ hmem => ?_
  have hget : patch.get? k = some v := get?_of_mem hdict.nodup hmem
  rw [get?_mergeJsonConfig hdict.nodup, hget, Option.elim_some]
  cases v with
  | obj fields =>
    by_cases hs : ∃ e, stored.get? k = some (.obj e)
    · obtain ⟨e, he⟩ := hs
      rw [he, mergeValue, mergeValue,
        mergeJsonConfig_twice e fields (hdict.field hget) (h.field hget he)]
    · rw [mergeValue_of_not_obj hs, mergeValue,
        mergeJsonConfig_self fields (hdict.field hget) fun path => h.no_null hget hs]
  | _ => rfl
termination_by sizeOf patch
decreasing_by exact sizeOf_lt_of_field hmem

theorem valueAt_of_null (hdict : IsDict patch) (h : NullsMeetObjects stored patch)
    (hnull : valueAt (.obj patch) path = some .null) :
    valueAt (.obj (mergeJsonConfig stored patch)) path = none := by
  induction path generalizing stored patch with
  | nil => cases hnull
  | cons k path ih =>
    obtain ⟨v, hget, hnull⟩ := Option.bind_eq_some_iff.mp hnull
    rw [valueAt, get?_mergeJsonConfig hdict.nodup, hget, Option.elim_some]
    cases v with
    | null => rfl
    | obj fields =>
      by_cases hs : ∃ e, stored.get? k = some (.obj e)
      · obtain ⟨e, he⟩ := hs
        rw [he]
        exact ih (hdict.field hget) (h.field hget he) hnull
      · exact absurd hnull (h.no_null hget hs)
    | _ => cases path <;> cases hnull

/-- A null that is deleted meets an object: one that meets none is stored. -/
theorem nullsMeetObjects_of_deleted (hdict : IsDict patch)
    (h : ∀ path, valueAt (.obj patch) path = some .null →
      valueAt (.obj (mergeJsonConfig stored patch)) path = none) :
    NullsMeetObjects stored patch := by
  intro path key hnull
  induction path generalizing stored patch with
  | nil => exact ⟨stored, rfl⟩
  | cons k path ih =>
    have hgone := h _ hnull
    obtain ⟨v, hget, hbelow⟩ := Option.bind_eq_some_iff.mp hnull
    have hmerged : (mergeJsonConfig stored patch).get? k = mergeValue (stored.get? k) v := by
      rw [get?_mergeJsonConfig hdict.nodup, hget, Option.elim_some]
    cases v with
    | obj fields =>
      by_cases hs : ∃ e, stored.get? k = some (.obj e)
      · obtain ⟨e, he⟩ := hs
        rw [he, mergeValue] at hmerged
        obtain ⟨below, hstored⟩ := ih (hdict.field hget) (fun p hp =>
          (valueAt_cons hmerged).symm.trans (h (k :: p) ((valueAt_cons hget).trans hp))) hbelow
        exact ⟨below, (valueAt_cons he).trans hstored⟩
      · rw [mergeValue_of_not_obj hs] at hmerged
        cases hbelow.symm.trans ((valueAt_cons hmerged).symm.trans hgone)
    | _ => cases path <;> cases hbelow

/-- **The laws of the merge.**  A patch is idempotent and deletes at each null exactly if there is
a stored object around each of its nulls. -/
theorem merge_laws (hdict : IsDict patch) :
    (mergeJsonConfig (mergeJsonConfig stored patch) patch = mergeJsonConfig stored patch ∧
      ∀ path, valueAt (.obj patch) path = some .null →
        valueAt (.obj (mergeJsonConfig stored patch)) path = none) ↔
      NullsMeetObjects stored patch :=
  ⟨fun h => nullsMeetObjects_of_deleted hdict h.2,
    fun h => ⟨mergeJsonConfig_twice stored patch hdict h, fun _ => valueAt_of_null hdict h⟩⟩

/-- The null meets the object under `a`. -/
theorem merge_laws_of_nested_null :
    let stored := [("a", .obj [("b", .int 1), ("c", .int 2)])]
    let patch := [("a", .obj [("b", .null)])]
    IsDict patch ∧ NullsMeetObjects stored patch ∧
      mergeJsonConfig (mergeJsonConfig stored patch) patch = mergeJsonConfig stored patch ∧
      valueAt (.obj (mergeJsonConfig stored patch)) ["a", "b"] = none := by
  intro stored patch
  have hdict : IsDict patch := by simp [patch, IsDict]
  have hmeet : NullsMeetObjects stored patch := by
    rintro (_ | ⟨k, path⟩) key hnull
    · exact ⟨_, rfl⟩
    · obtain ⟨v, hv, hbelow⟩ := Option.bind_eq_some_iff.mp hnull
      rw [get?_cons] at hv
      split at hv <;> cases hv
      subst k
      cases path with
      | nil => exact ⟨_, rfl⟩
      | cons k path =>
        obtain ⟨v, hv, hbelow⟩ := Option.bind_eq_some_iff.mp hbelow
        rw [get?_cons] at hv
        split at hv <;> cases hv
        cases path <;> cases hbelow
  obtain ⟨htwice, hdeleted⟩ := (merge_laws hdict).mpr hmeet
  exact ⟨hdict, hmeet, htwice, hdeleted ["a", "b"] rfl⟩

/-- A null in an object that is new is stored, and the second write of the patch deletes it. -/
theorem null_stored_in_new_object :
    let patch := [("a", .obj [("b", .null)])]
    IsDict patch ∧ valueAt (.obj (mergeJsonConfig [] patch)) ["a", "b"] = some .null ∧
      mergeJsonConfig (mergeJsonConfig [] patch) patch ≠ mergeJsonConfig [] patch := by
  refine ⟨by simp [IsDict], rfl, fun h => ?_⟩
  cases h

end Smap.Config
