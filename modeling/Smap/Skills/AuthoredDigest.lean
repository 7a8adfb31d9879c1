import Mathlib.Data.Finmap
import Mathlib.Data.Finset.Sort
import Mathlib.Data.Char
import Mathlib.Data.List.Lex
import Smap.Lib.Redis

/-!
# The digest of an authored skill

`authored_digest` of `contexts/skills/application/bundle_service.py` feeds a hash with fields that
each begin with a label and the length of their text, so that no text can pass for the beginning of
the next field.  The two lists of tool names are joined to one text each.

No name and a single empty name are joined to the same text (`blank_name_not_seen`).  Otherwise,
as no name holds the separator, the digest tells any two skills apart (`digest_identifies`).
-/

namespace Smap.Skills

open List

abbrev Text := List Char

/-- `\x00`. -/
def nul : Char := '\x00'

/-- What a bundle says of a skill. -/
structure Authored where
  name : Text
  description : Text
  body : Text
  requires : List Text
  allowedTools : List Text
  fileDigests : Finmap fun _ : Text => Text

/-- `f"{label}:{len(value)}:"`, and the value. -/
def field (label value : Text) : Text :=
  label ++ ':' :: ((toString value.length).toList ++ ':' :: value)

/-- The files of the loop, in the order of `sorted`. -/
def items (files : Finmap fun _ : Text => Text) : List (Text × Text) :=
  files.keys.sort.map fun path => (path, (files.lookup path).getD [])

def fileFields (file : Text × Text) : Text :=
  field "file".toList file.1 ++ field "sha256".toList file.2

/-- What the hash is fed with, before it is encoded as UTF-8. -/
def Authored.hashed (s : Authored) : Text :=
  field "name".toList s.name ++ (field "description".toList s.description ++
    (field "body".toList s.body ++ (field "requires".toList (intercalate [nul] s.requires) ++
      (field "allowed_tools".toList (intercalate [nul] s.allowedTools) ++
        (items s.fileDigests).flatMap fileFields))))

variable {Digest : Type} [DecidableEq Digest]

/-- `authored_digest`. -/
def authoredDigest (sha256 : Text → Digest) (s : Authored) : Digest := sha256 s.hashed

/-- `is_diverged`, of a skill with its `bundle_sha256`. -/
def isDiverged (sha256 : Text → Digest) (bundleSha256 : Option Digest) (s : Authored) : Bool :=
  match bundleSha256 with
  | none => false
  | some digest => decide (authoredDigest sha256 s ≠ digest)

/-! ## Fields are told apart -/

/-- A text up to the first mark. -/
theorem cut_inj {c : Char} {s t x y : Text} (hs : c ∉ s) (ht : c ∉ t)
    (h : s ++ c :: x = t ++ c :: y) : s = t ∧ x = y := by
  induction s generalizing t with
  | nil => cases t <;> grind
  | cons a s ih => cases t <;> grind

theorem field_append_inj {label v v' rest rest' : Text}
    (h : field label v ++ rest = field label v' ++ rest') : v = v' ∧ rest = rest' := by
  have hdigits (n : ℕ) : ':' ∉ (toString n).toList := by
    intro hmem
    rw [Nat.toString_eq_repr, Nat.toList_repr] at hmem
    have hdigit := Nat.isDigit_of_mem_toDigits (b := 10) (by decide) (by decide) hmem
    simp at hdigit
  simp only [field, append_assoc, append_cancel_left_eq, cons_append, cons.injEq, true_and] at h
  obtain ⟨hlength, h⟩ := cut_inj (hdigits _) (hdigits _) h
  exact append_inj h (Redis.toString_injective (String.toList_inj.mp hlength))

theorem files_inj {l l' : List (Text × Text)}
    (h : l.flatMap fileFields = l'.flatMap fileFields) : l = l' := by
  induction l generalizing l' with
  | nil => cases l' <;> simp [fileFields, field] at h ⊢
  | cons file l ih =>
    cases l' with
    | nil => simp [fileFields, field] at h
    | cons file' l' =>
      simp only [flatMap_cons, fileFields, append_assoc] at h
      obtain ⟨hpath, h⟩ := field_append_inj h
      obtain ⟨hdigest, h⟩ := field_append_inj h
      rw [ih h, Prod.ext hpath hdigest]

theorem items_injective : Function.Injective items := by
  intro files files' h
  have hsort : files.keys.sort = files'.keys.sort := by
    simpa [items, Function.comp_def] using congrArg (map Prod.fst) h
  have hmem (path : Text) : path ∈ files ↔ path ∈ files' := by
    rw [← Finmap.mem_keys, ← Finmap.mem_keys, ← Finset.mem_sort (· ≤ ·), hsort, Finset.mem_sort]
  rw [items, items, hsort, map_inj_left] at h
  refine Finmap.ext_lookup fun path => ?_
  by_cases hpath : path ∈ files'
  · obtain ⟨digest, hdigest⟩ := Finmap.mem_iff.mp hpath
    obtain ⟨digest', hdigest'⟩ := Finmap.mem_iff.mp ((hmem path).mpr hpath)
    simpa [hdigest, hdigest'] using h path (by simpa [Finmap.mem_keys] using hpath)
  · rw [Finmap.lookup_eq_none.mpr hpath, Finmap.lookup_eq_none.mpr (mt (hmem path).mp hpath)]

/-- The list of just an empty name read as the empty list. -/
def unblanked (names : List Text) : List Text := if names = [[]] then [] else names

theorem intercalate_unblanked (names : List Text) :
    intercalate [nul] (unblanked names) = intercalate [nul] names := by
  unfold unblanked
  split
  · rename_i h
    rw [h]
    rfl
  · rfl

/-- What is joined is split again, as long as no name holds the separator. -/
theorem unblanked_eq_iff {l l' : List Text} (hl : ∀ name ∈ l, nul ∉ name)
    (hl' : ∀ name ∈ l', nul ∉ name) :
    unblanked l = unblanked l' ↔ intercalate [nul] l = intercalate [nul] l' := by
  refine ⟨fun h => ?_, fun h => ?_⟩
  · rw [← intercalate_unblanked l, h, intercalate_unblanked]
  · have hsplit {names : List Text} (hnames : ∀ name ∈ names, nul ∉ name) :
        unblanked (splitOn nul (intercalate [nul] names)) = unblanked names := by
      cases names with
      | nil => rfl
      | cons name names => rw [splitOn_intercalate nul hnames (by simp)]
    rw [← hsplit hl, h, hsplit hl']

/-- A skill as the digest sees it. -/
def Authored.unblanked (s : Authored) : Authored :=
  { s with
    requires := Skills.unblanked s.requires
    allowedTools := Skills.unblanked s.allowedTools }

/-- No name of the two lists holds `\x00`. -/
def Authored.Named (s : Authored) : Prop :=
  (∀ name ∈ s.requires, nul ∉ name) ∧ ∀ name ∈ s.allowedTools, nul ∉ name

/-- **What the digest identifies**: two skills have the same digest, and the one has not diverged
from the other, exactly if they are equal up to a list of just an empty name, which is read as the
empty list. -/
theorem digest_identifies (sha256 : Text → Digest) (hsha256 : Function.Injective sha256)
    (s t : Authored) (hs : s.Named) (ht : t.Named) :
    (authoredDigest sha256 s = authoredDigest sha256 t ↔ s.unblanked = t.unblanked) ∧
      (isDiverged sha256 (some (authoredDigest sha256 t)) s = false ↔
        s.unblanked = t.unblanked) := by
  have hiff : authoredDigest sha256 s = authoredDigest sha256 t ↔ s.unblanked = t.unblanked := by
    simp only [Authored.unblanked, Authored.mk.injEq]
    rw [unblanked_eq_iff hs.1 ht.1, unblanked_eq_iff hs.2 ht.2]
    constructor
    · intro h
      obtain ⟨hname, h⟩ := field_append_inj (hsha256 h)
      obtain ⟨hdescription, h⟩ := field_append_inj h
      obtain ⟨hbody, h⟩ := field_append_inj h
      obtain ⟨hrequires, h⟩ := field_append_inj h
      obtain ⟨htools, h⟩ := field_append_inj h
      exact ⟨hname, hdescription, hbody, hrequires, htools, items_injective (files_inj h)⟩
    · rintro ⟨hname, hdescription, hbody, hrequires, htools, hfiles⟩
      rw [authoredDigest, authoredDigest, Authored.hashed, Authored.hashed, hname, hdescription,
        hbody, hrequires, htools, hfiles]
  exact ⟨hiff, by simpa [isDiverged] using hiff⟩

/-- A skill that requires these tools. -/
def requiring (tools : List Text) : Authored :=
  ⟨['a'], [], [], tools, [], ∅⟩

/-- A tool that is no longer required is seen, also where the one left has no name. -/
theorem digest_identifies_requiring :
    isDiverged id (some (authoredDigest id (requiring [['x'], []]))) (requiring [[]]) = true := by
  have h := (digest_identifies id Function.injective_id (requiring [[]]) (requiring [['x'], []])
    (by simp [requiring, Authored.Named]) (by simp [requiring, Authored.Named, nul])).2
  simpa [requiring, Authored.unblanked, unblanked] using h

/-- **An edit that is not seen.**  A bundle requires a tool without a name, and the skill no longer
does.  What is hashed is the same, so it is so for every hash. -/
theorem blank_name_not_seen :
    requiring [[]] ≠ requiring [] ∧ (∀ name ∈ (requiring [[]]).requires, nul ∉ name) ∧
      authoredDigest id (requiring []) = authoredDigest id (requiring [[]]) ∧
      isDiverged id (some (authoredDigest id (requiring [[]]))) (requiring []) = false := by
  have hsame : authoredDigest id (requiring []) = authoredDigest id (requiring [[]]) := rfl
  refine ⟨by simp [requiring], by simp [requiring], hsame, ?_⟩
  simp [isDiverged, hsame]

end Smap.Skills
