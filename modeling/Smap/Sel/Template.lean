import Mathlib.Data.List.DropRight
import Smap.Workflow.Schema

/-!
# Variable references in templates and in expressions

`contexts/workflow/sel`: a placeholder of `template.py` is found by a regular expression and
its path taken apart by index scanning; the same text as an expression goes through the lexer
and the recursive-descent parser.  Both then read the variable scopes.  On a text that starts
with a reference and ends after it every operator level of the parser falls through to
`_var_ref`, which is the only level modelled.  Positions in error messages, the time budget
and Python's limit on the digits of an integer are left out.

The main result, `template_reads_as_expression`, says of which texts the two readers make the
same, whatever the variables hold: `Placeholder.Plain`.
-/

namespace Smap.Sel

open Workflow List Schema

/-- The blanks the lexer skips. -/
def blanks : List Char := [' ', '\t', '\r', '\n']

/-- The characters that `strip` takes off a key, and that open a string. -/
def quoteChars : List Char := ['"', '\'']

/-- The operators and delimiters of one character. -/
def singles : List Char := ['<', '>', '+', '-', '*', '/', '%', '(', ')', '[', ']', '.', ',']

/-- The characters that can come after a name of a reference. -/
def stops : List Char := [' ', '\t', '\r', '\n', '\x7d', '[', ']', '.']

/-- What Python knows of characters and numbers. -/
structure Unicode where
  /-- `\s` and `\d` of `re`. -/
  isSpace : Char → Bool
  isDecimal : Char → Bool
  isDigit : Char → Bool
  isAlpha : Char → Bool
  isAlnum : Char → Bool
  /-- `int(text)`, and `int(float(text))`. -/
  intOf : List Char → Option ℕ
  truncOf : List Char → Option ℕ
  decimal : ∀ c, isDecimal c = true → isDigit c = true
  letter : ∀ c, Schema.isLetter c = true → isAlpha c = true ∧ isAlnum c = true ∧ isDigit c = false
  digit : ∀ c, Schema.isDigit c = true → isAlnum c = true
  ascii : ∀ c ∈ ['\x7b', '\x7d', '=', '!', '_'] ++ blanks ++ quoteChars ++ singles,
    isDigit c = false
  punctuation : ∀ c ∈ stops, isAlnum c = false
  space : ∀ c, isSpace c = true → isAlnum c = false ∧ isAlpha c = false ∧ isDigit c = false ∧
    c ∉ ['\x7b', '\x7d', '=', '!', '_'] ++ quoteChars ++ singles
  int : ∀ text, text ≠ [] → text.all isDecimal = true → (intOf text).isSome = true

/-- A step of a path: into an object, or into a list. -/
inductive Segment where
  | key (name : String)
  | index (i : ℕ)
  deriving DecidableEq

/-- `SELSyntaxError` in its kinds, and the exceptions of Python that get through. -/
inductive SelError where
  | unexpectedCharacter (c : Char)
  | malformedNumber (text : List Char)
  | unterminatedString
  | expected (what : String)
  | overflow
  | tooLong
  | valueError
  deriving DecidableEq

variable (u : Unicode)

/-! ## The lexer and `_var_ref` -/

/-- The tokens of the lexer. -/
inductive Token where
  | varRefStart
  | varRefEnd
  | op (text : String)
  | int (n : ℕ)
  | float (text : List Char)
  | string (s : List Char)
  | ident (name : List Char)
  | keyword (name : List Char)
  | eof
  deriving DecidableEq

/-- The words that are no identifiers. -/
def keywords : List (List Char) := ["and", "or", "not", "true", "false", "null"].map String.toList

/-- The rest of a string literal after its opening quote. -/
def lexString (quote : Char) : List Char → Option (List Char × List Char)
  | [] => none
  | '\\' :: c :: rest =>
    (lexString quote rest).map fun (s, tail) =>
      ((if c = 'n' then '\n' else if c = 't' then '\t' else c) :: s, tail)
  | c :: rest =>
    if c = quote then some ([], rest)
    else (lexString quote rest).map fun (s, tail) => (c :: s, tail)

/-- A literal without a point is an integer. -/
def lexNumber (text : List Char) : Except SelError Token :=
  if '.' ∈ text then .ok (.float text)
  else match u.intOf text with
    | some n => .ok (.int n)
    | none => .error (.malformedNumber text)

/-- The two-character tokens. -/
def lexPair (a b : Char) : Option Token :=
  if a = '\x7b' ∧ b = '\x7b' then some .varRefStart
  else if a = '\x7d' ∧ b = '\x7d' then some .varRefEnd
  else if b = '=' ∧ a ∈ ['=', '!', '<', '>'] then some (.op (String.ofList [a, b]))
  else none

/-- One token from a text that starts with no blank, and what is left. -/
def lexOne (c : Char) (rest : List Char) : Except SelError (Token × List Char) :=
  match rest.head?.bind (lexPair c) with
  | some t => .ok (t, rest.tail)
  | none =>
    if c ∈ singles then .ok (.op (String.ofList [c]), rest)
    else if u.isDigit c then do
      let more := fun x => u.isDigit x || x == '.'
      return (← lexNumber u (c :: rest.takeWhile more), rest.dropWhile more)
    else if c ∈ quoteChars then
      match lexString c rest with
      | some (s, tail) => .ok (.string s, tail)
      | none => .error .unterminatedString
    else if u.isAlpha c || c == '_' then
      let more := fun x => u.isAlnum x || x == '_'
      let name := c :: rest.takeWhile more
      .ok (if name ∈ keywords then .keyword name else .ident name, rest.dropWhile more)
    else .error (.unexpectedCharacter c)

/-- `tokenize`, with fuel for one turn of the loop per character. -/
def tokenizeLoop : ℕ → List Char → Except SelError (List Token)
  | 0, _ | _ + 1, [] => .ok [.eof]
  | fuel + 1, c :: rest =>
    if c ∈ blanks then tokenizeLoop fuel rest
    else do
      let (t, tail) ← lexOne u c rest
      return t :: (← tokenizeLoop fuel tail)

def tokenize (source : List Char) : Except SelError (List Token) :=
  tokenizeLoop u (source.length + 1) source

/-- The loop of `_var_ref`, up to the end of the input. -/
def varRefItems : List Token → Except SelError (List Segment)
  | .op "." :: .ident name :: rest => return .key (String.ofList name) :: (← varRefItems rest)
  | .op "[" :: .int n :: .op "]" :: rest => return .index n :: (← varRefItems rest)
  | .op "[" :: .float text :: .op "]" :: rest =>
    match u.truncOf text with
    | some n => return .index n :: (← varRefItems rest)
    | none => .error .overflow
  | .op "[" :: .string s :: .op "]" :: rest => return .key (String.ofList s) :: (← varRefItems rest)
  | [.varRefEnd, .eof] => .ok []
  | _ => .error (.expected "\x7d\x7d")

/-- `parse`, of a text that starts with a reference. -/
def parse : List Token → Except SelError (List Segment)
  | .varRefStart :: .ident name :: rest =>
    return .key (String.ofList name) :: (← varRefItems u rest)
  | _ => .error (.expected "IDENT")

/-! ## `_parse_path` -/

/-- `text.strip("'\"")`. -/
def stripQuotes (text : List Char) : List Char :=
  ((text.dropWhile (· ∈ quoteChars)).reverse.dropWhile (· ∈ quoteChars)).reverse

/-- A dot after a bracket is skipped. -/
def dropDot : List Char → List Char
  | '.' :: rest => rest
  | cs => cs

/-- The segment inside a pair of brackets. -/
def bracketSegment (inner : List Char) : Except SelError Segment :=
  if inner ≠ [] ∧ inner.all u.isDigit = true then
    match u.intOf inner with
    | some n => .ok (.index n)
    | none => .error .valueError
  else .ok (.key (String.ofList (stripQuotes inner)))

/-- `_parse_path`: a bracket ends at the first `]`, whatever it holds. -/
def parsePathLoop : ℕ → List Char → Except SelError (List Segment)
  | 0, _ | _ + 1, [] => .ok []
  | fuel + 1, '[' :: rest =>
    match rest.dropWhile (· ≠ ']') with
    | [] => .error .valueError
    | _ :: after => do
      let segment ← bracketSegment u (rest.takeWhile (· ≠ ']'))
      return segment :: (← parsePathLoop fuel (dropDot after))
  | fuel + 1, '.' :: rest => parsePathLoop fuel rest
  | fuel + 1, cs => do
    let inName := fun c => decide (c ≠ '.' ∧ c ≠ '[')
    let name := cs.takeWhile inName
    return .key (String.ofList name) :: (← parsePathLoop fuel (cs.dropWhile inName))

def parsePath (path : List Char) : Except SelError (List Segment) :=
  parsePathLoop u (path.length + 1) path

/-! ## Reading the scopes -/

/-- The scope a path starts in, and what is left of the path. -/
def scope (vars : JsonObject) : List Segment → Json × List Segment
  | .key "trigger" :: rest => ((vars.get? "__trigger__").getD (.obj []), rest)
  | .key "ctx" :: rest => ((vars.get? "__ctx__").getD (.obj []), rest)
  | segments => (.obj vars, segments)

/-- The loop of `_resolve`; `none` is the sentinel for an unresolved path. -/
def walkTemplate : Json → List Segment → Option Json
  | obj, [] => some obj
  | .arr items, .index i :: rest => items[i]?.bind fun x => walkTemplate x rest
  | .obj fields, .key name :: rest =>
    (JsonObject.get? fields name).bind fun x => walkTemplate x rest
  | _, _ :: _ => none

/-- The loop of `_resolve_var`. -/
def walkSel : Json → List Segment → Json
  | obj, [] => obj
  | .arr items, .index i :: rest => (items[i]?.map fun x => walkSel x rest).getD .null
  | .obj fields, .key name :: rest => walkSel ((JsonObject.get? fields name).getD .null) rest
  | _, _ :: _ => .null

/-- `_resolve`. -/
def resolve (segments : List Segment) (vars : JsonObject) : Option Json :=
  if segments = [] then none else walkTemplate (scope vars segments).1 (scope vars segments).2

/-- `_resolve_var`. -/
def resolveVar (segments : List Segment) (vars : JsonObject) : Json :=
  if segments = [] then .null else walkSel (scope vars segments).1 (scope vars segments).2

/-- `MAX_EXPR_LENGTH`. -/
def maxExprLength : ℕ := 1000

/-- `evaluate` on the text of a reference. -/
def evaluate (source : List Char) (vars : JsonObject) : Except SelError Json :=
  if maxExprLength < source.length then .error .tooLong
  else do
    let segments ← parse u (← tokenize u source)
    return resolveVar segments vars

/-- `_format_value`, with `str` for the values that are neither null nor a Boolean. -/
def formatValue (str : Json → List Char) : Json → List Char
  | .null => "null".toList
  | .bool b => (if b then "true" else "false").toList
  | v => str v

/-! ## Placeholders -/

/-- `[A-Za-z_]`. -/
def isNameStart (c : Char) : Bool := isLetter c || c == '_'

/-- `[A-Za-z0-9_]`. -/
def isNameChar (c : Char) : Bool := isLetter c || isDigit c || c == '_'

/-- A name, as the regular expression has it. -/
def isName : List Char → Bool
  | [] => false
  | c :: cs => isNameStart c && cs.all isNameChar

/-- One repetition of the regular expression: `.name`, `[123]`, `["key"]` or `['key']`. -/
inductive Item where
  | name (n : List Char)
  | index (digits : List Char)
  | quoted (quote : Char) (key : List Char)

namespace Item

/-- The item as it is written. -/
def text : Item → List Char
  | .name n => '.' :: n
  | .index digits => '[' :: digits ++ [']']
  | .quoted quote key => '[' :: quote :: key ++ [quote, ']']

/-- The item is one the regular expression matches. -/
def Matches : Item → Prop
  | .name n => isName n = true
  | .index digits => digits ≠ [] ∧ digits.all u.isDecimal = true
  | .quoted quote key => quote ∈ quoteChars ∧ quote ∉ key

/-- The item is no keyword. -/
def Unreserved : Item → Prop
  | .name n => n ∉ keywords
  | _ => True

/-- A key that both readers take as it stands: it holds no closing bracket and no backslash, and
has no quote at an end. -/
def Plain : Item → Prop
  | .quoted _ key => ']' ∉ key ∧ '\\' ∉ key ∧ ∀ c ∈ quoteChars, key.head? ≠ some c ∧
      key.getLast? ≠ some c
  | _ => True

/-- What the item means. -/
def segment : Item → Segment
  | .name n => .key (String.ofList n)
  | .index digits => .index ((u.intOf digits).getD 0)
  | .quoted _ key => .key (String.ofList key)

/-- The tokens of an item that is plain. -/
def tokens : Item → List Token
  | .name n => [.op ".", .ident n]
  | .index digits => [.op "[", .int ((u.intOf digits).getD 0), .op "]"]
  | .quoted _ key => [.op "[", .string key, .op "]"]

end Item

open Item

/-- A text the regular expression matches, in its parts. -/
structure Placeholder where
  lead : List Char
  first : List Char
  items : List Item
  trail : List Char

namespace Placeholder

/-- Group 1 of the match. -/
def path (p : Placeholder) : List Char := p.first ++ p.items.flatMap text

/-- Group 0 of the match. -/
def text (p : Placeholder) : List Char :=
  "\x7b\x7b".toList ++ p.lead ++ p.path ++ p.trail ++ "\x7d\x7d".toList

/-- The regular expression matches it. -/
structure Matches (p : Placeholder) : Prop where
  lead : p.lead.all u.isSpace = true
  trail : p.trail.all u.isSpace = true
  first : isName p.first = true
  items : ∀ i ∈ p.items, i.Matches u

/-- No name of the path is a keyword. -/
def Unreserved (p : Placeholder) : Prop :=
  p.first ∉ keywords ∧ ∀ i ∈ p.items, i.Unreserved

/-- The blanks are the lexer's, the keys are taken as they stand, and the text is short enough for
an expression. -/
structure Plain (p : Placeholder) : Prop where
  lead : ∀ c ∈ p.lead, c ∈ blanks
  trail : ∀ c ∈ p.trail, c ∈ blanks
  items : ∀ i ∈ p.items, i.Plain
  length : p.text.length ≤ maxExprLength

/-- `interpolate` on the text of one placeholder: `_replace`. -/
def interpolate (str : Json → List Char) (p : Placeholder) (vars : JsonObject) :
    Except SelError (List Char) := do
  match resolve (← parsePath u p.path) vars with
  | some v => return formatValue str v
  | none => return p.text

/-- **The template and the expression read the variables alike**: what replaces the placeholder is
the value of the expression, formatted, and if it is left in place, the expression is null. -/
def Agrees (str : Json → List Char) (p : Placeholder) (vars : JsonObject) : Prop :=
  ∃ segments v, parsePath u p.path = .ok segments ∧ evaluate u p.text vars = .ok v ∧
    if (resolve segments vars).isSome then p.interpolate u str vars = .ok (formatValue str v)
    else p.interpolate u str vars = .ok p.text ∧ v = .null

end Placeholder

/-! ## Both readings of the scopes agree -/

theorem walkSel_null (segments : List Segment) : walkSel .null segments = .null := by
  cases segments <;> simp [walkSel]

/-- Where the template finds nothing, the expression finds null. -/
theorem walkSel_eq (segments : List Segment) :
    ∀ obj, walkSel obj segments = (walkTemplate obj segments).getD .null := by
  induction segments with
  | nil => simp [walkSel, walkTemplate]
  | cons segment rest ih =>
    intro obj
    cases obj <;> cases segment <;> simp only [walkSel, walkTemplate, Option.getD_none]
    case arr.index items i => cases items[i]? <;> simp [ih]
    case obj.key fields name =>
      cases hget : JsonObject.get? fields name with
      | none => simp [walkSel_null]
      | some => simp [ih]

theorem resolveVar_eq (segments : List Segment) (vars : JsonObject) :
    resolveVar segments vars = (resolve segments vars).getD .null := by
  simp only [resolveVar, resolve]
  split
  · rfl
  · exact walkSel_eq _ _

/-! ## Loops over a text -/

section Takes

variable {β : Type} {loop : ℕ → List Char → Except SelError (List β)} {cs mid rest : List Char}
  {out out' : List β}

/-- The loop takes the text up to `rest` for `out`, however much fuel it has. -/
def Takes (loop : ℕ → List Char → Except SelError (List β)) (cs : List Char) (out : List β)
    (rest : List Char) : Prop :=
  ∀ fuel, cs.length < fuel → ∃ fuel', rest.length < fuel' ∧
    loop fuel cs = (loop fuel' rest).map (out ++ ·)

/-- The loop fails on the text. -/
def Raises (loop : ℕ → List Char → Except SelError (List β)) (cs : List Char) : Prop :=
  ∀ fuel, cs.length < fuel → ∃ e, loop fuel cs = .error e

theorem forall_fuel {P : ℕ → Prop} {n : ℕ} (h : ∀ fuel, n ≤ fuel → P (fuel + 1)) :
    ∀ fuel, n < fuel → P fuel
  | 0, hfuel => absurd hfuel (Nat.not_lt_zero n)
  | fuel + 1, hfuel => h fuel (Nat.le_of_lt_succ hfuel)

theorem Takes.refl (cs : List Char) : Takes loop cs [] cs := by
  intro fuel hfuel
  refine ⟨fuel, hfuel, ?_⟩
  cases loop fuel cs <;> rfl

theorem Takes.trans (h : Takes loop cs out mid) (h' : Takes loop mid out' rest) :
    Takes loop cs (out ++ out') rest := by
  intro fuel hfuel
  obtain ⟨fuel₁, hfuel₁, hloop⟩ := h fuel hfuel
  obtain ⟨fuel₂, hfuel₂, hloop'⟩ := h' fuel₁ hfuel₁
  refine ⟨fuel₂, hfuel₂, ?_⟩
  rw [hloop, hloop']
  cases loop fuel₂ rest <;> simp [Except.map]

theorem Takes.raises (h : Takes loop cs out rest) (h' : Raises loop rest) : Raises loop cs := by
  intro fuel hfuel
  obtain ⟨fuel', hfuel', hloop⟩ := h fuel hfuel
  obtain ⟨e, he⟩ := h' fuel' hfuel'
  exact ⟨e, by rw [hloop, he]; rfl⟩

end Takes

variable {u} {cs rest tail key : List Char} {c quote : Char} {i : Item}

/-! ## Lexing a placeholder -/

section Lexing

variable {t : Token}

theorem takes_token (hc : c ∉ blanks) (hone : lexOne u c rest = .ok (t, tail))
    (hlen : tail.length ≤ rest.length) : Takes (tokenizeLoop u) (c :: rest) [t] tail := by
  refine forall_fuel fun fuel hfuel => ⟨fuel, ?_, ?_⟩
  · simp only [length_cons] at hfuel
    omega
  · simp only [tokenizeLoop, hc, if_false, hone, bind, Except.bind]
    cases tokenizeLoop u fuel tail <;> rfl

theorem takes_blanks (hcs : ∀ c ∈ cs, c ∈ blanks) :
    Takes (tokenizeLoop u) (cs ++ rest) [] rest := by
  induction cs with
  | nil => exact .refl rest
  | cons c cs ih =>
    rw [forall_mem_cons] at hcs
    have hone : Takes (tokenizeLoop u) (c :: (cs ++ rest)) [] (cs ++ rest) := by
      refine forall_fuel fun fuel hfuel => ⟨fuel, hfuel, ?_⟩
      simp only [tokenizeLoop, hcs.1, if_true]
      cases tokenizeLoop u fuel (cs ++ rest) <;> rfl
    exact hone.trans (ih hcs.2)

theorem lexPair_eq_none {a b : Char} (h : a ∉ ['\x7b', '\x7d', '=', '!', '<', '>']) :
    lexPair a b = none := by
  simp only [lexPair]
  grind

theorem head_pair (h : c ∉ ['\x7b', '\x7d', '=', '!', '<', '>']) :
    rest.head?.bind (lexPair c) = none := by
  cases rest.head? with
  | none => rfl
  | some b => exact lexPair_eq_none h

/-- A space that is none of the lexer's blanks is a character it does not expect. -/
theorem raises_of_space (hcs : cs.all u.isSpace = true) (h : ¬ ∀ c ∈ cs, c ∈ blanks) :
    Raises (tokenizeLoop u) (cs ++ rest) := by
  induction cs with
  | nil => simp at h
  | cons c cs ih =>
    rw [all_cons, Bool.and_eq_true] at hcs
    by_cases hc : c ∈ blanks
    · have hrest : ¬ ∀ c ∈ cs, c ∈ blanks := fun hcs => h (forall_mem_cons.mpr ⟨hc, hcs⟩)
      have hone : Takes (tokenizeLoop u) ([c] ++ (cs ++ rest)) [] (cs ++ rest) :=
        takes_blanks (by simpa using hc)
      exact hone.raises (ih hcs.2 hrest)
    · obtain ⟨-, halpha, hdigit, hout⟩ := u.space c hcs.1
      have hpair : c ∉ ['\x7b', '\x7d', '=', '!', '<', '>'] := by
        intro hmem
        apply hout
        simp only [mem_cons, not_mem_nil, or_false] at hmem
        rcases hmem with rfl | rfl | rfl | rfl | rfl | rfl <;> decide
      have hname : c ≠ '_' := by
        rintro rfl
        exact hout (by decide)
      simp only [mem_append, not_or] at hout
      have hone : lexOne u c (cs ++ rest) = .error (.unexpectedCharacter c) := by
        simp only [lexOne, head_pair hpair, hout.1.2, hout.2, hdigit, halpha, if_false,
          Bool.false_eq_true, Bool.false_or, beq_iff_eq, hname]
      refine forall_fuel fun fuel _ => ⟨.unexpectedCharacter c, ?_⟩
      simp only [cons_append, tokenizeLoop, hc, if_false, hone, bind, Except.bind]

/-- The text ends, or goes on with a character that ends a name. -/
def Stops (u : Unicode) (rest : List Char) : Prop :=
  ∀ c, rest.head? = some c → (u.isAlnum c || c == '_') = false

theorem stops_of_mem (hc : c ∈ stops) : (u.isAlnum c || c == '_') = false := by
  have hne : c ≠ '_' := by
    rintro rfl
    exact absurd hc (by decide)
  simp [u.punctuation c hc, hne]

theorem Stops.items {items : List Item} (h : Stops u rest) :
    Stops u (items.flatMap text ++ rest) := by
  cases items with
  | nil => exact h
  | cons i items =>
    intro c hc
    apply stops_of_mem
    cases i <;> simp [text] at hc <;> subst hc <;> decide

theorem stops_spaces (hcs : cs.all u.isSpace = true) (hc : c ∈ stops) :
    Stops u (cs ++ c :: rest) := by
  intro d hd
  cases cs with
  | nil =>
    obtain rfl : c = d := by simpa using hd
    exact stops_of_mem hc
  | cons e cs =>
    obtain rfl : e = d := by simpa using hd
    rw [all_cons, Bool.and_eq_true] at hcs
    obtain ⟨halnum, -, -, hout⟩ := u.space e hcs.1
    have hne : e ≠ '_' := by
      rintro rfl
      exact hout (by decide)
    simp [halnum, hne]

theorem Stops.takeWhile (h : Stops u rest) :
    rest.takeWhile (fun x => u.isAlnum x || x == '_') = [] ∧
      rest.dropWhile (fun x => u.isAlnum x || x == '_') = rest := by
  cases rest with
  | nil => simp
  | cons c rest => simp [h c rfl]

/-- A single character that stands for itself. -/
theorem takes_op (rest : List Char) (hc : c = '[' ∨ c = ']' ∨ c = '.') :
    Takes (tokenizeLoop u) (c :: rest) [.op (String.ofList [c])] rest := by
  have hpair : rest.head?.bind (lexPair c) = none :=
    head_pair (by rcases hc with rfl | rfl | rfl <;> decide)
  have hsingle : c ∈ singles := by rcases hc with rfl | rfl | rfl <;> decide
  refine takes_token (by rcases hc with rfl | rfl | rfl <;> decide) ?_ (Nat.le_refl _)
  simp only [lexOne, hpair, hsingle, if_true]

/-- What no token but a word can start with. -/
theorem nameStart_spec (h : isNameStart c = true) : c ∉ blanks ∧
    c ∉ ['\x7b', '\x7d', '=', '!', '<', '>'] ∧ c ∉ singles ∧ u.isDigit c = false ∧ c ∉ quoteChars ∧
    (u.isAlpha c || c == '_') = true := by
  simp only [isNameStart, Bool.or_eq_true, beq_iff_eq] at h
  rcases h with hc | rfl
  · have hout : ((blanks ++ ['\x7b', '\x7d', '=', '!', '<', '>'] ++ singles ++ quoteChars).all
        fun x => !isLetter x) = true := by decide
    have hne : c ∉ blanks ++ ['\x7b', '\x7d', '=', '!', '<', '>'] ++ singles ++ quoteChars :=
      fun hmem => by simpa [hc] using all_eq_true.mp hout c hmem
    simp only [mem_append, not_or] at hne
    obtain ⟨halpha, -, hdigit⟩ := u.letter c hc
    exact ⟨hne.1.1.1, hne.1.1.2, hne.1.2, hdigit, hne.2, by simp [halpha]⟩
  · exact ⟨by decide, by decide, by decide, u.ascii _ (by decide), by decide, by simp⟩

theorem nameChar_more (h : isNameChar c = true) : (u.isAlnum c || c == '_') = true := by
  simp only [isNameChar, Bool.or_eq_true, beq_iff_eq] at h
  rcases h with (hc | hc) | rfl
  · simp [(u.letter c hc).2.1]
  · simp [u.digit c hc]
  · simp

/-- A name that is no keyword. -/
theorem takes_ident {n : List Char} (hn : isName n = true) (hk : n ∉ keywords)
    (hrest : Stops u rest) : Takes (tokenizeLoop u) (n ++ rest) [.ident n] rest := by
  cases n with
  | nil => simp [isName] at hn
  | cons c cs =>
    simp only [isName, Bool.and_eq_true, all_eq_true] at hn
    obtain ⟨hblank, hpair, hsingle, hdigit, hquote, halpha⟩ := nameStart_spec (u := u) hn.1
    have hmore : ∀ x ∈ cs, (u.isAlnum x || x == '_') = true := fun x hx => nameChar_more (hn.2 x hx)
    rw [cons_append]
    refine takes_token hblank ?_ (by simp)
    simp only [lexOne, head_pair hpair, hsingle, if_false, hdigit, Bool.false_eq_true, hquote,
      halpha, if_true, takeWhile_append_of_pos hmore, dropWhile_append_of_pos hmore,
      hrest.takeWhile.1, hrest.takeWhile.2, append_nil, hk]

/-- Digits up to a bracket. -/
theorem takes_int {digits : List Char} (hne : digits ≠ []) (hd : digits.all u.isDecimal = true) :
    Takes (tokenizeLoop u) (digits ++ ']' :: rest) [.int ((u.intOf digits).getD 0)]
      (']' :: rest) := by
  obtain ⟨n, hint⟩ := Option.isSome_iff_exists.mp (u.int digits hne hd)
  cases digits with
  | nil => exact absurd rfl hne
  | cons c cs =>
    have hdigit : ∀ x ∈ c :: cs, u.isDigit x = true :=
      fun x hx => u.decimal x (all_eq_true.mp hd x hx)
    have hout : c ∉ ['\x7b', '\x7d', '=', '!', '_'] ++ blanks ++ quoteChars ++ singles :=
      fun hmem => by simp [u.ascii c hmem] at hdigit
    have hdot : '.' ∉ c :: cs := fun hmem => by
      simpa [u.ascii '.' (by decide)] using hdigit '.' hmem
    have hclose : u.isDigit ']' = false := u.ascii ']' (by decide)
    have hmore : ∀ x ∈ cs, (u.isDigit x || x == '.') = true :=
      fun x hx => by simp [hdigit x (mem_cons_of_mem _ hx)]
    have hpair : c ∉ ['\x7b', '\x7d', '=', '!', '<', '>'] := by
      intro hmem
      apply hout
      simp only [mem_cons, not_mem_nil, or_false] at hmem
      rcases hmem with rfl | rfl | rfl | rfl | rfl | rfl <;> decide
    simp only [mem_append, not_or] at hout
    refine takes_token hout.1.1.2 ?_ (by simp)
    simp [lexOne, lexPair_eq_none hpair, hout.2, hdigit c mem_cons_self,
      takeWhile_append_of_pos hmore, dropWhile_append_of_pos hmore, hclose, lexNumber,
      hdot, hint, bind, Except.bind, pure, Except.pure]

/-- What a quote opens is a string. -/
theorem lexOne_quote (rest : List Char) (hquote : quote ∈ quoteChars) : quote ∉ blanks ∧
    lexOne u quote rest = match lexString quote rest with
      | some (s, tail) => .ok (.string s, tail)
      | none => .error .unterminatedString := by
  have hspec : quote ∉ blanks ∧ quote ∉ ['\x7b', '\x7d', '=', '!', '<', '>'] ∧ quote ∉ singles := by
    simp only [quoteChars, mem_cons, not_mem_nil, or_false] at hquote
    rcases hquote with rfl | rfl <;> decide
  have hdigit : u.isDigit quote = false := u.ascii quote (by simp [hquote])
  refine ⟨hspec.1, ?_⟩
  simp [lexOne, head_pair hspec.2.1, hspec.2.2, hdigit, hquote]

theorem lexString_cons (hslash : c ≠ '\\') : lexString quote (c :: rest) =
    if c = quote then some ([], rest)
    else (lexString quote rest).map fun (s, tail) => (c :: s, tail) :=
  lexString.eq_3 quote c rest fun _ _ h _ => hslash h

/-- A key without escapes, up to its quote. -/
theorem lexString_eq (hq : quote ∉ key) (hslash : '\\' ∉ key) (hquote : quote ≠ '\\') :
    lexString quote (key ++ quote :: rest) = some (key, rest) := by
  induction key with
  | nil => simp [lexString_cons hquote]
  | cons c key ih =>
    rw [mem_cons, not_or] at hq hslash
    rw [cons_append, lexString_cons (Ne.symm hslash.1), if_neg (Ne.symm hq.1), ih hq.2 hslash.2]
    rfl

/-- **An item of a path, lexed.** -/
theorem takes_item (hm : i.Matches u) (hk : i.Unreserved) (hp : i.Plain) (hrest : Stops u rest) :
    Takes (tokenizeLoop u) (i.text ++ rest) (i.tokens u) rest := by
  cases i with
  | name n => exact (takes_op _ (by simp)).trans (takes_ident hm hk hrest)
  | index digits =>
    have htakes := (takes_op (u := u) (c := '[') _ (by simp)).trans ((takes_int hm.1 hm.2).trans
      (takes_op (c := ']') rest (by simp)))
    simpa [text, tokens] using htakes
  | quoted quote key =>
    have hquote : quote ≠ '\\' := by
      rintro rfl
      exact absurd hm.1 (by decide)
    have hstring : Takes (tokenizeLoop u) (quote :: (key ++ quote :: ']' :: rest)) [.string key]
        (']' :: rest) := by
      obtain ⟨hblank, hone⟩ := lexOne_quote (u := u) (key ++ quote :: ']' :: rest) hm.1
      rw [lexString_eq hm.2 hp.2.1 hquote] at hone
      exact takes_token hblank hone (by simp; omega)
    have htakes := (takes_op (u := u) (c := '[') _ (by simp)).trans (hstring.trans
      (takes_op (c := ']') rest (by simp)))
    simpa [text, tokens] using htakes

end Lexing

/-! ## Scanning a path -/

section Scanning

theorem takes_dot : Takes (parsePathLoop u) ('.' :: cs) [] cs := by
  refine forall_fuel fun fuel hfuel => ⟨fuel, hfuel, ?_⟩
  simp only [parsePathLoop]
  cases parsePathLoop u fuel cs <;> rfl

/-- A bracket up to the first closing one. -/
theorem takes_bracket (rest : List Char) {inner : List Char} {segment : Segment}
    (hinner : ']' ∉ inner) (hsegment : bracketSegment u inner = .ok segment) :
    Takes (parsePathLoop u) ('[' :: inner ++ ']' :: rest) [segment] rest := by
  have hall : ∀ x ∈ inner, decide (x ≠ ']') = true := by
    intro x hx
    have hne : x ≠ ']' := ne_of_mem_of_not_mem hx hinner
    simp [hne]
  have hdrop : Takes (parsePathLoop u) ('[' :: inner ++ ']' :: rest) [segment] (dropDot rest) := by
    refine forall_fuel fun fuel hfuel => ⟨fuel, ?_, ?_⟩
    · have hlen : (dropDot rest).length ≤ rest.length := by fun_cases dropDot rest <;> simp
      simp only [cons_append, length_cons, length_append] at hfuel
      omega
    · simp only [cons_append, parsePathLoop, takeWhile_append_of_pos hall,
        dropWhile_append_of_pos hall]
      simp only [ne_eq, decide_not, decide_true, Bool.not_true,
        Bool.false_eq_true, not_false_eq_true, dropWhile_cons_of_neg, takeWhile_cons_of_neg,
        append_nil, hsegment]
      cases parsePathLoop u fuel (dropDot rest) <;> rfl
  -- the loop would have skipped the dot by itself
  unfold dropDot at hdrop
  split at hdrop
  · intro fuel hfuel
    obtain ⟨fuel', hfuel', hloop⟩ := hdrop fuel hfuel
    exact ⟨fuel' + 1, Nat.succ_lt_succ hfuel', hloop⟩
  · exact hdrop

/-- No character of a name ends it. -/
theorem nameChar_inside {x : Char} (hx : isNameStart x = true ∨ isNameChar x = true) :
    decide (x ≠ '.' ∧ x ≠ '[') = true := by
  have hdot : isNameStart '.' = false ∧ isNameChar '.' = false := by decide
  have hopen : isNameStart '[' = false ∧ isNameChar '[' = false := by decide
  rw [decide_eq_true_eq]
  constructor
  · rintro rfl
    simp [hdot] at hx
  · rintro rfl
    simp [hopen] at hx

/-- A name up to a dot or a bracket. -/
theorem takes_name {n : List Char} (hn : isName n = true)
    (hrest : ∀ c, rest.head? = some c → c = '.' ∨ c = '[') :
    Takes (parsePathLoop u) (n ++ rest) [.key (String.ofList n)] rest := by
  cases n with
  | nil => simp [isName] at hn
  | cons c n =>
    simp only [isName, Bool.and_eq_true, all_eq_true] at hn
    have hc := nameChar_inside (.inl hn.1)
    have hin : ∀ x ∈ c :: n, decide (x ≠ '.' ∧ x ≠ '[') = true := by
      intro x hx
      rcases mem_cons.mp hx with rfl | hx
      · exact hc
      · exact nameChar_inside (.inr (hn.2 x hx))
    have hout : rest.takeWhile (fun c => decide (c ≠ '.' ∧ c ≠ '[')) = [] ∧
        rest.dropWhile (fun c => decide (c ≠ '.' ∧ c ≠ '[')) = rest := by
      cases rest with
      | nil => simp
      | cons d rest => rcases hrest d rfl with rfl | rfl <;> simp
    rw [decide_eq_true_eq] at hc
    refine forall_fuel fun fuel hfuel => ⟨fuel, ?_, ?_⟩
    · simp only [length_append, length_cons] at hfuel
      omega
    rw [parsePathLoop.eq_5 u (c :: n ++ rest) fuel (by simp) (by simp [hc.2]) (by simp [hc.1])]
    simp only [takeWhile_append_of_pos hin, dropWhile_append_of_pos hin, hout, append_nil]
    cases parsePathLoop u fuel rest <;> rfl

/-! ### Quotes at the ends of a key -/

theorem dropWhile_quotes {l : List Char} (hl : ∀ c ∈ quoteChars, l.head? ≠ some c) :
    l.dropWhile (· ∈ quoteChars) = l := by
  cases l with
  | nil => rfl
  | cons c l =>
    have hc : c ∉ quoteChars := fun hc => hl c hc rfl
    simp [hc]

/-- A key that has no quote at its ends is stripped of its own. -/
theorem stripQuotes_quoted (hquote : quote ∈ quoteChars)
    (hends : ∀ c ∈ quoteChars, key.head? ≠ some c ∧ key.getLast? ≠ some c) :
    stripQuotes (quote :: key ++ [quote]) = key := by
  cases key with
  | nil => simp [stripQuotes, hquote]
  | cons c key =>
    have hfront : (c :: key ++ [quote]).dropWhile (· ∈ quoteChars) = c :: key ++ [quote] :=
      dropWhile_quotes fun d hd => by simpa using (hends d hd).1
    have hback : (c :: key).reverse.dropWhile (· ∈ quoteChars) = (c :: key).reverse :=
      dropWhile_quotes fun d hd => by simpa only [head?_reverse] using (hends d hd).2
    rw [stripQuotes, cons_append, dropWhile_cons_of_pos (by simpa using hquote), hfront,
      reverse_append, reverse_singleton, singleton_append,
      dropWhile_cons_of_pos (by simpa using hquote), hback, reverse_reverse]

theorem bracketSegment_quoted (hquote : quote ∈ quoteChars) (cs : List Char) :
    bracketSegment u (quote :: cs) = .ok (.key (String.ofList (stripQuotes (quote :: cs)))) := by
  have hdigit : u.isDigit quote = false := u.ascii quote (by simp [hquote])
  simp [bracketSegment, hdigit]

/-- **An item of a path, scanned.** -/
theorem takes_segment (hm : i.Matches u) (hp : i.Plain)
    (hrest : ∀ c, rest.head? = some c → c = '.' ∨ c = '[') :
    Takes (parsePathLoop u) (i.text ++ rest) [i.segment u] rest := by
  cases i with
  | name n => exact takes_dot.trans (takes_name hm hrest)
  | index digits =>
    obtain ⟨n, hint⟩ := Option.isSome_iff_exists.mp (u.int digits hm.1 hm.2)
    have hdigit : ∀ x ∈ digits, u.isDigit x = true :=
      fun x hx => u.decimal x (all_eq_true.mp hm.2 x hx)
    have hclose : ']' ∉ digits := fun hmem => by
      simpa [u.ascii ']' (by decide)] using hdigit ']' hmem
    have hsegment : bracketSegment u digits = .ok (.index n) := by
      have hall : digits.all u.isDigit = true := all_eq_true.mpr hdigit
      simp [bracketSegment, hm.1, hall, hint]
    simpa [text, Item.segment, hint] using takes_bracket rest hclose hsegment
  | quoted quote key =>
    have hne : quote ≠ ']' := by
      rintro rfl
      exact absurd hm.1 (by decide)
    have hsegment := bracketSegment_quoted (u := u) hm.1 (key ++ [quote])
    rw [← cons_append, stripQuotes_quoted hm.1 hp.2.2] at hsegment
    have hclose : ']' ∉ quote :: key ++ [quote] := by
      simp [hp.1, hne.symm]
    simpa [text, Item.segment] using takes_bracket rest hclose hsegment

theorem items_head (items : List Item) (c : Char)
    (h : (items.flatMap text).head? = some c) : c = '.' ∨ c = '[' := by
  cases items with
  | nil => simp at h
  | cons i items => cases i <;> simp [text] at h <;> subst h <;> simp

end Scanning

/-! ## Where the readers part -/

section Parting

theorem mem_stripQuotes (h : c ∈ stripQuotes cs) : c ∈ cs := by
  rw [stripQuotes, mem_reverse] at h
  have hfront := (dropWhile_sublist _).subset h
  exact (dropWhile_sublist _).subset (mem_reverse.mp hfront)

theorem count_dropWhile_quotes (l : List Char) :
    (l.dropWhile (· ∈ quoteChars)).count '\\' = l.count '\\' := by
  induction l with
  | nil => rfl
  | cons c l ih =>
    rw [dropWhile_cons]
    split
    · rename_i hc
      have hne : c ≠ '\\' := by
        rintro rfl
        exact absurd hc (by decide)
      rw [ih, count_cons_of_ne hne]
    · rfl

/-- Quotes are stripped, and backslashes are left. -/
theorem count_stripQuotes (cs : List Char) : (stripQuotes cs).count '\\' = cs.count '\\' := by
  rw [stripQuotes, count_reverse, count_dropWhile_quotes, count_reverse, count_dropWhile_quotes]

theorem stripQuotes_ends (cs : List Char) :
    ∀ c ∈ quoteChars, (stripQuotes cs).head? ≠ some c ∧ (stripQuotes cs).getLast? ≠ some c := by
  intro c hc
  have hfirst (l : List Char) : (l.dropWhile (· ∈ quoteChars)).head? ≠ some c := by
    intro h
    have hhead := head?_dropWhile_not (· ∈ quoteChars) l
    rw [h] at hhead
    simp [hc] at hhead
  constructor
  · intro h
    obtain ⟨back, hback⟩ := rdropWhile_prefix (· ∈ quoteChars) (l := cs.dropWhile (· ∈ quoteChars))
    apply hfirst cs
    rw [← hback, head?_append]
    exact Option.or_eq_some_iff.mpr (.inl h)
  · rw [stripQuotes, getLast?_reverse]
    exact hfirst _

/-- A string of the lexer that holds no closing bracket ends with the key, which then holds none
either; and if the key holds backslashes, it has fewer. -/
theorem lexString_key (hquote : quote ∈ quoteChars) : ∀ (key s : List Char), quote ∉ key →
    lexString quote (key ++ quote :: ']' :: rest) = some (s, tail) → ']' ∉ s →
    ']' ∉ key ∧ s.count '\\' ≤ key.count '\\' ∧ ('\\' ∈ key → s.count '\\' < key.count '\\')
  | [], _, hq, h, _ => by
    rw [nil_append, lexString_cons (ne_of_mem_of_not_mem hquote (by decide)), if_pos rfl] at h
    cases h
    simp
  | c :: key, s, hq, h, hs => by
    rw [mem_cons, not_or] at hq
    by_cases hc : c = '\\'
    · subst hc
      cases key with
      | nil =>
        -- the closing quote is escaped, and the string goes on
        have hne : ']' ≠ quote := by
          rintro rfl
          exact absurd hquote (by decide)
        rw [cons_append, nil_append, lexString, lexString_cons (by decide), if_neg hne] at h
        simp only [Option.map_map, Option.map_eq_some_iff] at h
        obtain ⟨⟨s', tail'⟩, -, heq⟩ := h
        cases heq
        simp at hs
      | cons d key =>
        rw [mem_cons, not_or] at hq
        rw [cons_append, cons_append, lexString, Option.map_eq_some_iff] at h
        obtain ⟨⟨s', tail'⟩, hs', heq⟩ := h
        cases heq
        rw [mem_cons, not_or] at hs
        obtain ⟨hbracket, hle, -⟩ := lexString_key hquote key s' hq.2.2 hs' hs.2
        have hd : d ≠ ']' := by
          rintro rfl
          exact hs.1 (by decide)
        -- the backslash of the escape is gone
        have hlt : ((if d = 'n' then '\n' else if d = 't' then '\t' else d) :: s').count '\\' <
            ('\\' :: d :: key).count '\\' := by
          have hescaped : (if (if d = 'n' then '\n' else if d = 't' then '\t' else d) == '\\'
              then 1 else 0) ≤ if d == '\\' then 1 else 0 := by
            split_ifs <;> simp_all
          rw [count_cons_self, count_cons, count_cons]
          omega
        exact ⟨by simp [hd.symm, hbracket], hlt.le, fun _ => hlt⟩
    · rw [cons_append, lexString_cons hc, if_neg (Ne.symm hq.1), Option.map_eq_some_iff] at h
      obtain ⟨⟨s', tail'⟩, hs', heq⟩ := h
      cases heq
      rw [mem_cons, not_or] at hs
      obtain ⟨hbracket, hle, hlt⟩ := lexString_key hquote key s' hq.2 hs' hs.2
      rw [count_cons_of_ne hc, count_cons_of_ne hc]
      exact ⟨by simp [hs.1, hbracket], hle, fun hmem => hlt (mem_of_ne_of_mem (Ne.symm hc) hmem)⟩
  termination_by key => key.length

/-- Both readers succeed, with the same segments. -/
def Agree (x y : Except SelError (List Segment)) : Prop :=
  ∃ segments, x = .ok segments ∧ y = .ok segments

theorem map_eq_ok {x : Except SelError (List Segment)} {segment : Segment}
    {segments : List Segment} (h : x.map ([segment] ++ ·) = .ok segments) :
    ∃ more, segments = segment :: more := by
  cases x with
  | error => cases h
  | ok more => exact ⟨more, (Except.ok.inj h).symm⟩

theorem agree_map {x y : Except SelError (List Segment)} (segment : Segment) :
    Agree (x.map ([segment] ++ ·)) (y.map ([segment] ++ ·)) ↔ Agree x y := by
  cases x <;> cases y <;> simp [Agree, Except.map]

/-- The tokens of an item give its segment. -/
theorem bind_varRefItems (i : Item) (x : Except SelError (List Token)) :
    (x.map (i.tokens u ++ ·)) >>= varRefItems u =
      (x >>= varRefItems u).map ([i.segment u] ++ ·) := by
  cases x with
  | error => rfl
  | ok toks =>
    change varRefItems u (i.tokens u ++ toks) = (varRefItems u toks).map _
    cases i <;> simp only [tokens, cons_append, nil_append, varRefItems, Item.segment] <;>
      cases varRefItems u toks <;> rfl

/-- A string in brackets gives a key. -/
theorem varRefItems_string {s : List Char} {toks : List Token} {segments : List Segment}
    (h : varRefItems u (.op "[" :: .string s :: toks) = .ok segments) :
    ∃ more, segments = .key (String.ofList s) :: more := by
  rw [varRefItems.eq_def] at h
  split at h
  case h_4 rest heq =>
    cases heq
    cases hrest : varRefItems u rest with
    | error => simp [hrest, bind, Except.bind] at h
    | ok more =>
      refine ⟨more, ?_⟩
      simpa [hrest, bind, Except.bind, pure, Except.pure, eq_comm] using h
  case h_6 => cases h
  all_goals
    rename_i heq
    simp at heq

variable {segments : List Segment} {fuel : ℕ}

/-- The template reads a quoted key up to the first closing bracket. -/
theorem parsePathLoop_quoted (hquote : quote ∈ quoteChars) (hclose : ']' ∈ cs)
    (h : parsePathLoop u (fuel + 1) ('[' :: quote :: cs) = .ok segments) : ∃ more,
    segments = .key (String.ofList (stripQuotes ((quote :: cs).takeWhile (· ≠ ']')))) :: more := by
  have hsegment : bracketSegment u ((quote :: cs).takeWhile (· ≠ ']')) =
      .ok (.key (String.ofList (stripQuotes ((quote :: cs).takeWhile (· ≠ ']'))))) := by
    have hne : quote ≠ ']' := ne_of_mem_of_not_mem hquote (by decide)
    rw [takeWhile_cons_of_pos (by simpa using hne)]
    exact bracketSegment_quoted hquote _
  have hrest : (quote :: cs).dropWhile (· ≠ ']') ≠ [] := by
    rw [ne_eq, dropWhile_eq_nil_iff]
    intro hall
    simpa using hall ']' (mem_cons_of_mem _ hclose)
  obtain ⟨close, rest, hrest⟩ := exists_cons_of_ne_nil hrest
  simp only [parsePathLoop, hrest, bind, Except.bind, hsegment] at h
  cases hmore : parsePathLoop u fuel (dropDot rest) with
  | error => simp [hmore] at h
  | ok more =>
    rw [hmore] at h
    exact ⟨more, (Except.ok.inj h).symm⟩

/-- The expression reads a string, with its escapes. -/
theorem tokenizeLoop_quoted (hquote : quote ∈ quoteChars)
    (hfuel : ('[' :: quote :: cs).length < fuel)
    (h : tokenizeLoop u fuel ('[' :: quote :: cs) >>= varRefItems u = .ok segments) :
    ∃ s tail, lexString quote cs = some (s, tail) ∧
      ∃ more, segments = .key (String.ofList s) :: more := by
  obtain ⟨fuel₁, hfuel₁, hloop⟩ := takes_op (u := u) (c := '[') _ (by simp) fuel hfuel
  obtain ⟨hblank, hone⟩ := lexOne_quote (u := u) cs hquote
  rw [hloop] at h
  obtain ⟨fuel₁, rfl⟩ := Nat.exists_eq_succ_of_ne_zero (Nat.ne_of_gt (Nat.zero_lt_of_lt hfuel₁))
  simp only [tokenizeLoop, hblank, if_false, hone] at h
  cases hstring : lexString quote cs with
  | none => simp [hstring, bind, Except.bind, Except.map] at h
  | some found =>
    obtain ⟨s, tail⟩ := found
    refine ⟨s, tail, rfl, ?_⟩
    simp only [hstring, bind, Except.bind] at h
    cases htoks : tokenizeLoop u fuel₁ tail with
    | error => simp [htoks, Except.map] at h
    | ok toks =>
      simp only [htoks, Except.map, pure, Except.pure, singleton_append] at h
      exact varRefItems_string h

/-- **Where the readers agree on a quoted key**, it is one they take as it stands. -/
theorem plain_of_agree (hm : (Item.quoted quote key).Matches u) {fuel' : ℕ}
    {after after' : List Char} (hfuel : ((Item.quoted quote key).text ++ after).length < fuel)
    (h : Agree (tokenizeLoop u fuel ((Item.quoted quote key).text ++ after) >>= varRefItems u)
      (parsePathLoop u (fuel' + 1) ((Item.quoted quote key).text ++ after'))) :
    (Item.quoted quote key).Plain := by
  obtain ⟨hquote, hkey⟩ := hm
  obtain ⟨segments, hsel, hpath⟩ := h
  have htext (after : List Char) : (Item.quoted quote key).text ++ after =
      '[' :: quote :: (key ++ quote :: ']' :: after) := by simp [text]
  rw [htext] at hfuel hsel hpath
  obtain ⟨more, rfl⟩ := parsePathLoop_quoted hquote (by simp) hpath
  obtain ⟨s, tail, hstring, more', hsegments⟩ := tokenizeLoop_quoted hquote hfuel hsel
  have hends : quote ≠ ']' ∧ quote ≠ '\\' :=
    ⟨ne_of_mem_of_not_mem hquote (by decide), ne_of_mem_of_not_mem hquote (by decide)⟩
  generalize hinner : (quote :: (key ++ quote :: ']' :: after')).takeWhile (· ≠ ']') = inner
    at hsegments
  obtain rfl : stripQuotes inner = s := by
    simpa [String.ofList_inj] using (cons.inj hsegments).1
  have hopen : ']' ∉ inner := by
    rw [← hinner]
    exact fun hmem => by simpa using mem_takeWhile_imp hmem
  obtain ⟨hbracket, -, hfewer⟩ := lexString_key hquote key _ hkey hstring
    fun hmem => hopen (mem_stripQuotes hmem)
  -- the key holds no closing bracket, so the template has read all of it
  obtain rfl : quote :: key ++ [quote] = inner := by
    have hall : ∀ x ∈ quote :: key ++ [quote], decide (x ≠ ']') = true := by
      intro x hx
      have hne : x ≠ ']' := by
        rintro rfl
        simp [hbracket, hends.1.symm] at hx
      simpa using hne
    have hsplit : quote :: (key ++ quote :: ']' :: after') =
        (quote :: key ++ [quote]) ++ ']' :: after' := by simp
    rw [← hinner, hsplit, takeWhile_append_of_pos hall]
    simp
  have hslash : '\\' ∉ key := by
    intro hmem
    have hlt := hfewer hmem
    rw [count_stripQuotes] at hlt
    simp [count_cons_of_ne hends.2] at hlt
  refine ⟨hbracket, hslash, ?_⟩
  rw [lexString_eq hkey hslash hends.2] at hstring
  have hsame : key = stripQuotes (quote :: key ++ [quote]) :=
    congrArg Prod.fst (Option.some.inj hstring)
  rw [hsame]
  exact stripQuotes_ends _

variable {items : List Item} {trail : List Char}

/-- **The items of a path**, up to the end of the text: both readers make the same of them exactly
if each is plain and the blanks behind them are the lexer's. -/
theorem agree_items (hm : ∀ i ∈ items, i.Matches u) (hk : ∀ i ∈ items, i.Unreserved)
    (htrail : trail.all u.isSpace = true) : ∀ fuel fuel',
    (items.flatMap text ++ (trail ++ ['\x7d', '\x7d'])).length < fuel →
    (items.flatMap text).length < fuel' →
    (Agree
        (tokenizeLoop u fuel (items.flatMap text ++ (trail ++ ['\x7d', '\x7d'])) >>= varRefItems u)
        (parsePathLoop u fuel' (items.flatMap text)) ↔
      (∀ i ∈ items, i.Plain) ∧ ∀ c ∈ trail, c ∈ blanks) := by
  induction items with
  | nil =>
    intro fuel fuel' hfuel hfuel'
    obtain ⟨fuel', rfl⟩ := Nat.exists_eq_succ_of_ne_zero (Nat.ne_of_gt (Nat.zero_lt_of_lt hfuel'))
    by_cases hblanks : ∀ c ∈ trail, c ∈ blanks
    · have hclose : Takes (tokenizeLoop u) (trail ++ ['\x7d', '\x7d']) [.varRefEnd] [] :=
        (takes_blanks hblanks).trans (takes_token (by decide) rfl (by simp))
      obtain ⟨fuel₁, hfuel₁, hloop⟩ := hclose fuel hfuel
      obtain ⟨fuel₁, rfl⟩ := Nat.exists_eq_succ_of_ne_zero (Nat.ne_of_gt hfuel₁)
      rw [flatMap_nil, nil_append, hloop]
      exact iff_of_true ⟨[], rfl, rfl⟩ ⟨by simp, hblanks⟩
    · obtain ⟨e, he⟩ := raises_of_space htrail hblanks fuel hfuel
      refine iff_of_false ?_ fun h => hblanks h.2
      rintro ⟨segments, hsel, -⟩
      rw [flatMap_nil, nil_append, he] at hsel
      cases hsel
  | cons i items ih =>
    intro fuel fuel' hfuel hfuel'
    rw [forall_mem_cons] at hm hk
    simp only [flatMap_cons, append_assoc] at hfuel hfuel' ⊢
    rw [forall_mem_cons]
    by_cases hp : i.Plain
    · have hstops : Stops u (items.flatMap text ++ (trail ++ ['\x7d', '\x7d'])) :=
        Stops.items (stops_spaces htrail (by decide))
      obtain ⟨fuel₁, hfuel₁, hloop⟩ := takes_item hm.1 hk.1 hp hstops fuel hfuel
      obtain ⟨fuel₁', hfuel₁', hloop'⟩ := takes_segment hm.1 hp (items_head items) fuel' hfuel'
      rw [hloop, hloop', bind_varRefItems, agree_map, ih hm.2 hk.2 fuel₁ fuel₁' hfuel₁ hfuel₁']
      simp [hp]
    · refine iff_of_false (fun h => hp ?_) fun h => hp h.1.1
      cases i with
      | name | index => trivial
      | quoted quote key =>
        obtain ⟨fuel', rfl⟩ :=
          Nat.exists_eq_succ_of_ne_zero (Nat.ne_of_gt (Nat.zero_lt_of_lt hfuel'))
        exact plain_of_agree hm.1 hfuel h

end Parting

/-! ## Stores that tell paths apart -/

/-- A value that is true at the end of the path, and at the end of no other. -/
def chain : List Segment → Json
  | [] => .bool true
  | .key n :: rest => .obj [(n, chain rest)]
  | .index n :: rest => .arr (replicate n .null ++ [chain rest])

theorem walkTemplate_chain (segments : List Segment) :
    walkTemplate (chain segments) segments = some (.bool true) := by
  induction segments with
  | nil => rfl
  | cons segment rest ih => cases segment <;> simp [chain, walkTemplate, JsonObject.get?, ih]

theorem walkTemplate_bool {b : Bool} {path : List Segment} {v : Json}
    (h : walkTemplate (.bool b) path = some v) : v = .bool b ∧ path = [] := by
  cases path with
  | nil => exact ⟨(Option.some.inj h).symm, rfl⟩
  | cons => simp [walkTemplate] at h

theorem walkTemplate_null {path : List Segment} {v : Json}
    (h : walkTemplate .null path = some v) : v = .null := by
  cases path with
  | nil => exact (Option.some.inj h).symm
  | cons => simp [walkTemplate] at h

/-- What is found there is no text, and is true at the end of the path only. -/
theorem of_walkTemplate_chain (segments : List Segment) : ∀ {path : List Segment} {v : Json},
    walkTemplate (chain segments) path = some v →
      (∀ text, v ≠ .str text) ∧ (v = .bool true → path = segments) := by
  induction segments with
  | nil =>
    intro path v h
    obtain ⟨rfl, rfl⟩ := walkTemplate_bool h
    exact ⟨nofun, fun _ => rfl⟩
  | cons segment rest ih =>
    intro path v h
    cases path with
    | nil =>
      obtain rfl := Option.some.inj h
      cases segment <;> exact ⟨nofun, nofun⟩
    | cons step path =>
      cases segment with
      | key n =>
        cases step with
        | index => simp [chain, walkTemplate] at h
        | key m =>
          obtain ⟨x, hx, hwalk⟩ := Option.bind_eq_some_iff.mp h
          rw [JsonObject.get?, lookup_cons] at hx
          split at hx
          · rename_i hmn
            obtain rfl : m = n := beq_iff_eq.mp hmn
            obtain rfl := Option.some.inj hx
            obtain ⟨htext, htrue⟩ := ih hwalk
            exact ⟨htext, fun hv => by rw [htrue hv]⟩
          · cases hx
      | index n =>
        cases step with
        | key => simp [chain, walkTemplate] at h
        | index m =>
          obtain ⟨x, hx, hwalk⟩ := Option.bind_eq_some_iff.mp h
          obtain hlt | rfl | hgt := Nat.lt_trichotomy m n
          · rw [getElem?_append_left (by simpa using hlt), getElem?_replicate_of_lt hlt] at hx
            cases hx
            obtain rfl := walkTemplate_null hwalk
            exact ⟨nofun, nofun⟩
          · obtain rfl : chain rest = x := by simpa using hx
            obtain ⟨htext, htrue⟩ := ih hwalk
            exact ⟨htext, fun hv => by rw [htrue hv]⟩
          · rw [getElem?_eq_none (by simp; omega)] at hx
            cases hx

/-- The variables that hold the value under a name, or in the scope the name stands for. -/
def holding (n : String) (value : Json) : JsonObject :=
  if n = "trigger" then [("__trigger__", value)]
  else if n = "ctx" then [("__ctx__", value)]
  else [(n, value)]

/-- The name leads to the value. -/
theorem resolve_holding (n : String) (value : Json) (path : List Segment) :
    resolve (.key n :: path) (holding n value) = walkTemplate value path := by
  unfold holding
  split
  · rename_i hn
    simp [hn, resolve, scope, JsonObject.get?]
  split
  · rename_i hn
    simp [hn, resolve, scope, JsonObject.get?]
  · rename_i htrigger hctx
    rw [resolve, if_neg (cons_ne_nil _ _), scope.eq_3 _ _ (by simpa using htrigger)
      (by simpa using hctx)]
    simp [walkTemplate, JsonObject.get?]

namespace Placeholder

variable {p : Placeholder} (hm : p.Matches u)

include hm

/-- The template reads the name first. -/
theorem parsePath_path : ∃ fuel, (p.items.flatMap Item.text).length < fuel ∧ parsePath u p.path =
    (parsePathLoop u fuel (p.items.flatMap Item.text)).map ([.key (String.ofList p.first)] ++ ·) :=
  takes_name hm.first (items_head p.items) _ (Nat.lt_succ_self _)

omit hm in
theorem takes_open : Takes (tokenizeLoop u) p.text [.varRefStart] (p.lead ++ (p.first ++
    (p.items.flatMap Item.text ++ (p.trail ++ ['\x7d', '\x7d'])))) := by
  simpa [text, path] using takes_token (u := u) (c := '\x7b') (by decide) rfl (by simp)

/-- So does the expression, unless a blank before it is none of the lexer's. -/
theorem tokenize_text (hk : p.Unreserved) (hlead : ∀ c ∈ p.lead, c ∈ blanks) :
    ∃ fuel, (p.items.flatMap Item.text ++ (p.trail ++ ['\x7d', '\x7d'])).length < fuel ∧
      tokenize u p.text >>= parse u =
        (tokenizeLoop u fuel (p.items.flatMap Item.text ++ (p.trail ++ ['\x7d', '\x7d'])) >>=
          varRefItems u).map ([.key (String.ofList p.first)] ++ ·) := by
  have htakes := takes_open.trans ((takes_blanks hlead).trans
    (takes_ident hm.first hk.1 (Stops.items (stops_spaces hm.trail (by decide)))))
  obtain ⟨fuel, hfuel, hloop⟩ := htakes _ (Nat.lt_succ_self _)
  refine ⟨fuel, hfuel, ?_⟩
  rw [tokenize, hloop]
  cases tokenizeLoop u fuel (p.items.flatMap Item.text ++ (p.trail ++ ['\x7d', '\x7d'])) with
  | error => rfl
  | ok toks =>
    change parse u (.varRefStart :: .ident p.first :: toks) = (varRefItems u toks).map _
    simp only [parse]
    cases varRefItems u toks <;> rfl

theorem raises_lead (hlead : ¬ ∀ c ∈ p.lead, c ∈ blanks) :
    ∃ e, tokenize u p.text >>= parse u = .error e := by
  obtain ⟨e, he⟩ := takes_open.raises (raises_of_space hm.lead hlead) _ (Nat.lt_succ_self _)
  exact ⟨e, by rw [tokenize, he]; rfl⟩

/-- The readers make the same of the text exactly if it is plain, its length apart. -/
theorem agree_iff (hk : p.Unreserved) : Agree (tokenize u p.text >>= parse u) (parsePath u p.path) ↔
    (∀ c ∈ p.lead, c ∈ blanks) ∧ (∀ i ∈ p.items, i.Plain) ∧ ∀ c ∈ p.trail, c ∈ blanks := by
  by_cases hlead : ∀ c ∈ p.lead, c ∈ blanks
  · obtain ⟨fuel, hfuel, hsel⟩ := tokenize_text hm hk hlead
    obtain ⟨fuel', hfuel', hpath⟩ := parsePath_path hm
    rw [hsel, hpath, agree_map, agree_items hm.items hk.2 hm.trail fuel fuel' hfuel hfuel']
    exact (and_iff_right hlead).symm
  · refine iff_of_false ?_ fun h => hlead h.1
    rintro ⟨segments, hsel, -⟩
    obtain ⟨e, he⟩ := raises_lead hm hlead
    simp [he] at hsel

omit hm in
/-- What is evaluated is what the expression reads. -/
theorem evaluate_eq_ok {vars : JsonObject} {v : Json} : evaluate u p.text vars = .ok v ↔
    p.text.length ≤ maxExprLength ∧ ∃ segments, tokenize u p.text >>= parse u = .ok segments ∧
      resolveVar segments vars = v := by
  rw [evaluate]
  split
  · simp; omega
  rename_i hlength
  cases htoks : tokenize u p.text with
  | error => simp [bind, Except.bind]
  | ok toks =>
    cases hparse : parse u toks with
    | error => simp [hparse, bind, Except.bind]
    | ok => simp [hparse, bind, Except.bind, pure, Except.pure, Nat.not_lt.mp hlength]

/-- Readers that agree on every store have read the same: a store tells any two paths apart. -/
theorem agree_of_agrees (hk : p.Unreserved) {str : Json → List Char}
    (hstr : ∀ v, formatValue str v = "true".toList → v = .bool true ∨ ∃ s, v = .str s)
    (h : ∀ vars, p.Agrees u str vars) :
    Agree (tokenize u p.text >>= parse u) (parsePath u p.path) := by
  obtain ⟨segments, v, hpath, hevaluate, -⟩ := h []
  obtain ⟨-, segments', hsel, -⟩ := evaluate_eq_ok.mp hevaluate
  by_cases hlead : ∀ c ∈ p.lead, c ∈ blanks
  rotate_left
  · obtain ⟨e, he⟩ := raises_lead hm hlead
    simp [he] at hsel
  -- both paths start with the name
  obtain ⟨more', rfl⟩ : ∃ more, segments' = .key (String.ofList p.first) :: more := by
    obtain ⟨fuel, -, hsel'⟩ := tokenize_text hm hk hlead
    exact map_eq_ok (hsel'.symm.trans hsel)
  obtain ⟨more, rfl⟩ : ∃ more, segments = .key (String.ofList p.first) :: more := by
    obtain ⟨fuel, -, hpath'⟩ := parsePath_path hm
    exact map_eq_ok (hpath'.symm.trans hpath)
  -- the store that has the value `true` where the expression looks
  obtain ⟨segments, v, hpath', hevaluate', hagrees⟩ :=
    h (holding (String.ofList p.first) (chain more'))
  obtain rfl := Except.ok.inj (hpath.symm.trans hpath')
  obtain ⟨-, segments', hsel', rfl⟩ := evaluate_eq_ok.mp hevaluate'
  obtain rfl := Except.ok.inj (hsel.symm.trans hsel')
  rw [resolveVar_eq, resolve_holding, resolve_holding, walkTemplate_chain] at hagrees
  cases hwalk : walkTemplate (chain more') more with
  | none => simp [hwalk] at hagrees
  | some w =>
    obtain ⟨htext, htrue⟩ := of_walkTemplate_chain more' hwalk
    have hshown : formatValue str w = "true".toList := by
      simpa [hwalk, interpolate, hpath, resolve_holding, bind, Except.bind, pure, Except.pure,
        formatValue] using hagrees
    obtain hw | ⟨s, hs⟩ := hstr w hshown
    · exact ⟨_, hsel, by rw [hpath, htrue hw]⟩
    · exact absurd hs (htext s)

end Placeholder

/-- **A placeholder and an expression of the same text read variables alike**, whatever the
variables hold, exactly if both readers take the text as it stands. -/
theorem template_reads_as_expression (u : Unicode) (str : Json → List Char)
    (hstr : ∀ v, formatValue str v = "true".toList → v = .bool true ∨ ∃ s, v = .str s)
    (p : Placeholder) (hm : p.Matches u) (hk : p.Unreserved) :
    (∀ vars, p.Agrees u str vars) ↔ p.Plain := by
  constructor
  · intro h
    obtain ⟨-, v, -, hevaluate, -⟩ := h []
    obtain ⟨hlength, -⟩ := Placeholder.evaluate_eq_ok.mp hevaluate
    obtain ⟨hlead, hitems, htrail⟩ := (Placeholder.agree_iff hm hk).mp
      (Placeholder.agree_of_agrees hm hk hstr h)
    exact ⟨hlead, htrail, hitems, hlength⟩
  · intro hp vars
    obtain ⟨segments, hsel, hpath⟩ :=
      (Placeholder.agree_iff hm hk).mpr ⟨hp.lead, hp.items, hp.trail⟩
    have hevaluate : evaluate u p.text vars = .ok (resolveVar segments vars) :=
      Placeholder.evaluate_eq_ok.mpr ⟨hp.length, segments, hsel, rfl⟩
    refine ⟨segments, resolveVar segments vars, hpath, hevaluate, ?_⟩
    rw [resolveVar_eq, Placeholder.interpolate, hpath]
    cases hres : resolve segments vars with
    | none => exact ⟨by simp [hres, bind, Except.bind, pure, Except.pure], rfl⟩
    | some v => simp [hres, bind, Except.bind, pure, Except.pure]

/-- Characters and numbers of ASCII texts. -/
def asciiUnicode : Unicode where
  isSpace c := decide (c ∈ blanks)
  isDecimal := isDigit
  isDigit := isDigit
  isAlpha := isLetter
  isAlnum c := isLetter c || isDigit c
  intOf text := some (text.foldl (fun n c => 10 * n + (c.toNat - '0'.toNat)) 0)
  truncOf _ := none
  decimal _ h := h
  letter c h := by
    refine ⟨h, by simp [h], ?_⟩
    simp only [isLetter, isDigit, Bool.or_eq_true, Bool.and_eq_true,
      decide_eq_true_eq, Bool.and_eq_false_iff, decide_eq_false_iff_not, Char.le_def,
      UInt32.le_iff_toNat_le] at h ⊢
    simp at h ⊢
    omega
  digit c h := by simp [h]
  ascii c hc := by
    have hall : ((['\x7b', '\x7d', '=', '!', '_'] ++ blanks ++ quoteChars ++ singles).all
        fun c => !isDigit c) = true := by decide
    simpa using all_eq_true.mp hall c hc
  punctuation c hc := by
    have hall : (stops.all fun c => !(isLetter c || isDigit c)) = true := by decide
    simpa using all_eq_true.mp hall c hc
  space c hc := by
    have hall : (blanks.all fun c => !(isLetter c || isDigit c) &&
        !decide (c ∈ ['\x7b', '\x7d', '=', '!', '_'] ++ quoteChars ++ singles)) = true := by decide
    have hspec := all_eq_true.mp hall c (by simpa using hc)
    simp only [Bool.and_eq_true, Bool.not_eq_true', Bool.or_eq_false_iff,
      decide_eq_false_iff_not] at hspec
    exact ⟨by simp [hspec.1], hspec.1.1, hspec.1.2, hspec.2⟩
  int _ _ _ := rfl

/-- The placeholder `a["k"][0]` between blanks. -/
def plainPlaceholder : Placeholder where
  lead := [' ']
  first := ['a']
  items := [.quoted '"' ['k'], .index ['0']]
  trail := [' ']

/-- Variables in which it has the value `true`. -/
def plainVars : JsonObject := [("a", .obj [("k", .arr [.bool true])])]

theorem plain_placeholder_reads :
    plainPlaceholder.Agrees asciiUnicode (fun _ => []) plainVars ∧
      evaluate asciiUnicode plainPlaceholder.text plainVars = .ok (.bool true) ∧
      plainPlaceholder.interpolate asciiUnicode (fun _ => []) plainVars = .ok "true".toList := by
  refine ⟨(template_reads_as_expression asciiUnicode (fun _ => []) ?_ plainPlaceholder ?_ ?_).mpr
    ?_ plainVars, rfl, rfl⟩
  · intro v hv
    cases v with
    | bool b => cases b <;> simp [formatValue] at hv ⊢
    | str s => exact .inr ⟨s, rfl⟩
    | _ => simp [formatValue] at hv
  · constructor <;> simp [plainPlaceholder, asciiUnicode, Item.Matches] <;> decide
  · exact ⟨by decide, by simp [plainPlaceholder, Item.Unreserved]⟩
  · constructor <;> simp [plainPlaceholder, Item.Plain, blanks, quoteChars]
    decide

/-- **The two readers part where a quoted key holds a closing bracket**: the expression
`{{ a["x]y"] }}` yields the value at the key, and the template leaves the placeholder in place. -/
theorem bracketed_key_parts :
    ∃ p : Placeholder, p.Matches asciiUnicode ∧ p.Unreserved ∧
      evaluate asciiUnicode p.text [("a", .obj [("x]y", .bool true)])] = .ok (.bool true) ∧
      p.interpolate asciiUnicode (fun _ => []) [("a", .obj [("x]y", .bool true)])] =
        .ok p.text := by
  refine ⟨⟨[' '], ['a'], [.quoted '"' ['x', ']', 'y']], [' ']⟩, ?_, ⟨by decide, ?_⟩, rfl, rfl⟩
  · constructor <;> simp [asciiUnicode, Item.Matches] <;> decide
  · simp [Item.Unreserved]

end Smap.Sel
