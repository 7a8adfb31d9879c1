import Mathlib.Data.Rat.Floor
import Smap.Workflow.Executors

/-!
# Reading a payload

How the executors, the trigger dispatch and the A2A handler read a payload that came in as
JSON: `payload.get(key)`, `x or default`, `int(x)`, iteration over a value, and identifiers
parsed with `uuid.UUID`.  A payload can hold anything under any key, so each reading says
what it does with every kind of value; `none` stands for an exception.

What Python does with the text of a number or of an identifier is a parameter (`Texts`).
-/

namespace Smap.Chains

open Smap.Workflow Json

/-- What Python's `str`, `int` and `uuid.UUID` do, as far as the chains depend on it. -/
structure Texts (Uuid : Type) where
  /-- `str` of an identifier. -/
  str : Uuid → String
  /-- `uuid.UUID` of a text. -/
  parse : String → Option Uuid
  /-- `str` of a JSON value. -/
  text : Json → String
  /-- `int` of a text. -/
  int : String → Option ℤ
  parse_str : ∀ u, parse (str u) = some u
  str_ne_empty : ∀ u, str u ≠ ""
  text_str : ∀ s, text (.str s) = s

attribute [simp] Texts.parse_str Texts.str_ne_empty Texts.text_str

variable {Uuid : Type} (T : Texts Uuid)

/-- Identifiers of one letter. -/
def letters : Texts Char where
  str := String.singleton
  parse s := if s.length = 1 then s.toList.head? else none
  text
    | .str s => s
    | _ => ""
  int _ := none
  parse_str := by simp
  str_ne_empty := by simp
  text_str _ := rfl

/-! ## Lookups -/

/-- `o.get(key)`, where `None` stands for a missing key as well. -/
def getValue? (o : JsonObject) (key : String) : Option Json :=
  match o.get? key with
  | some .null => none
  | v => v

/-- `v or default`. -/
def orDefault (v : Option Json) (default : Json) : Json := (v.filter truthy).getD default

/-- `o.get(key) or default`. -/
def getOr (o : JsonObject) (key : String) (default : Json) : Json := orDefault (o.get? key) default

/-- `{**o, **p}`: a key of `p` hides the same key of `o`. -/
def merge (o p : JsonObject) : JsonObject := p ++ o

theorem get?_merge (o p : JsonObject) (key : String) :
    (merge o p).get? key = (p.get? key).or (o.get? key) := by
  simp [merge, JsonObject.get?, List.lookup_append]

/-! ## Numbers -/

/-- `int` of a number with a fraction. -/
def truncate (q : ℚ) : ℤ := if 0 ≤ q then q.floor else -(-q).floor

@[simp] theorem truncate_intCast (n : ℤ) : truncate n = n := by
  have hneg : (-(n : ℚ)).floor = -n := by
    rw [← Int.cast_neg, Rat.floor_intCast]
  rw [truncate, hneg, Rat.floor_intCast, neg_neg, ite_self]

/-- `int(v)`. -/
def toInt? : Json → Option ℤ
  | .int n => some n
  | .float q => some (truncate q)
  | .bool b => some b.toInt
  | .str s => T.int s
  | _ => none

/-- `v` as an operand of an addition or a comparison of numbers. -/
def number? : Json → Option ℚ
  | .int n => some n
  | .float q => some q
  | .bool b => some b.toInt
  | _ => none

/-- A number on the wire. -/
def ofNumber (q : ℚ) : Json := if q.den = 1 then .int q.num else .float q

@[simp] theorem number?_ofNumber (q : ℚ) : number? (ofNumber q) = some q := by
  by_cases h : q.den = 1
  · simp [ofNumber, h, number?, Rat.coe_int_num_of_den_eq_one h]
  · simp [ofNumber, h, number?]

@[simp] theorem toInt?_ofNumber (q : ℚ) : toInt? T (ofNumber q) = some (truncate q) := by
  by_cases h : q.den = 1
  · have hq : truncate q = q.num := by
      conv_lhs => rw [← Rat.coe_int_num_of_den_eq_one h]
      exact truncate_intCast q.num
    simp [ofNumber, h, toInt?, hq]
  · simp [ofNumber, h, toInt?]

/-- A falsy number reads as zero anyway. -/
@[simp] theorem number?_orDefault_ofNumber (q : ℚ) :
    number? (orDefault (some (ofNumber q)) (.int 0)) = some q := by
  by_cases hq : q = 0
  · subst hq
    rfl
  · have h : (ofNumber q).truthy = true := by
      by_cases hd : q.den = 1
      · simp [ofNumber, hd, truthy, hq]
      · simp [ofNumber, hd, truthy, hq]
    simp [orDefault, Option.filter, h]

@[simp] theorem toInt?_orDefault_int (n : ℤ) :
    toInt? T (orDefault (some (.int n)) (.int 0)) = some n := by
  by_cases h : n = 0
  · simp [orDefault, Option.filter, truthy, h, toInt?]
  · simp [orDefault, Option.filter, truthy, h, toInt?]

/-! ## Sequences -/

/-- `for x in v`: a text is iterated by its characters, an object by its keys. -/
def items? : Json → Option (List Json)
  | .arr items => some items
  | .obj fields => some (fields.map fun f => .str f.1)
  | .str s => some (s.toList.map fun c => .str (String.singleton c))
  | _ => none

@[simp] theorem items?_orDefault_arr (l : List Json) :
    items? (orDefault (some (.arr l)) (.arr [])) = some l := by
  cases l <;> simp [orDefault, Option.filter, truthy, items?]

/-- `text in items`. -/
def hasText (text : String) (items : List Json) : Bool :=
  items.any fun
    | .str s => s == text
    | _ => false

@[simp] theorem hasText_iff {text : String} {items : List Json} :
    hasText text items = true ↔ str text ∈ items := by
  rw [hasText, List.any_eq_true]
  constructor
  · rintro ⟨v, hv, h⟩
    cases v with
    | str =>
      rw [beq_iff_eq] at h
      exact h ▸ hv
    | _ => simp at h
  · intro h
    exact ⟨_, h, by simp⟩

/-! ## Identifiers -/

/-- `_as_uuid`, `_maybe_uuid`: an identifier, or nothing. -/
def asUuid (v : Json) : Option Uuid := if v.truthy then T.parse (T.text v) else none

@[simp] theorem asUuid_str (u : Uuid) : asUuid T (.str (T.str u)) = some u := by
  simp [asUuid, truthy]

/-- The identifiers among the items of `v or []`. -/
def asUuids (v : Option Json) : Option (List Uuid) :=
  (items? (orDefault v (.arr []))).map fun items => items.filterMap (asUuid T)

@[simp] theorem asUuids_arr (l : List Uuid) :
    asUuids T (some (.arr (l.map fun u => .str (T.str u)))) = some l := by
  simp [asUuids, List.filterMap_map]

end Smap.Chains
