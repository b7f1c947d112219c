/-
  File:      Jrpc2/Scanner.lean
  Subject:   The part of `encoding/json` that `Args` relies on to decode: the scanner that checks
             that a text is one JSON value (`checkValid`), and the decoding of an array into a
             `[]json.RawMessage`, which keeps the text of each element.

  * `scanNumber`, `scanString`, `scanValue` -- the scanner, by the grammar `encoding/json`
    checks; each returns the text after what it read, `none` on a syntax error; `scanValue`
    carries a fuel, and is given the text's length and one more;
  * `Json.valid` -- every number of a value is a number literal, as `json.Marshal` writes them;
  * `Lex`, `maxNestingDepth`, `nestOK` -- the scanner's stack of open arrays and objects, which
    it fails with "exceeded max depth" once it holds more than `maxNestingDepth` of them;
  * `scanValid`, `checkValid` -- one value and its depth; `rawElems`, `unmarshalRaw` --
    `json.Unmarshal(data, &elts)` for `elts []json.RawMessage`;
  * `scanValue_render` -- the scanner reads exactly the text `json.Marshal` writes for a value,
    whatever follows it that cannot continue a number; **`unmarshalRaw_render`** -- so the text of
    an array within the nesting limit decodes into the texts of its elements.

  NOT here: the texts of `*json.SyntaxError` (one text stands for all of them), and what the
  decoder makes of each element (the caller's `json.Unmarshal` into a destination).
-/
import Jrpc2.Wire
import Mathlib.Data.String.Basic

namespace Jrpc2

/-! ## 1. The scanner -/

/-- Insignificant whitespace: space, tab, newline, carriage return. -/
def isSpace (c : Char) : Bool := c = ' ' || c = '\t' || c = '\n' || c = '\r'

/-- The text after any whitespace. -/
def skipSpace (cs : List Char) : List Char := cs.dropWhile isSpace

/-- One or more digits. -/
def scanDigits : List Char → Option (List Char)
  | c :: r => if c.isDigit then some (r.dropWhile Char.isDigit) else none
  | [] => none

/-- The integer part of a number: `0`, or digits not starting with `0`. -/
def scanInt : List Char → Option (List Char)
  | '0' :: r => some r
  | r => scanDigits r

/-- The fraction of a number, if any: `.` and digits. -/
def scanFrac : List Char → Option (List Char)
  | '.' :: r => scanDigits r
  | r => some r

/-- Digits after an optional sign. -/
def scanSigned : List Char → Option (List Char)
  | '+' :: r | '-' :: r => scanDigits r
  | r => scanDigits r

/-- The exponent of a number, if any: `e` or `E`, an optional sign, and digits. -/
def scanExp : List Char → Option (List Char)
  | 'e' :: r | 'E' :: r => scanSigned r
  | r => some r

/-- A number without its sign: integer part, fraction, exponent. -/
def scanUnsigned (cs : List Char) : Option (List Char) :=
  ((scanInt cs).bind scanFrac).bind scanExp

/-- A number: `-?(0|[1-9][0-9]*)(\.[0-9]+)?([eE][+-]?[0-9]+)?`. -/
def scanNumber : List Char → Option (List Char)
  | '-' :: r => scanUnsigned r
  | r => scanUnsigned r

/-- A hex digit of a `\u` escape. -/
def isHex (c : Char) : Bool := c.isDigit || ('a' ≤ c && c ≤ 'f') || ('A' ≤ c && c ≤ 'F')

/-- A string literal after its opening quote, to and with its closing one: no control character,
    and after a backslash one of `"\/bfnrt`, or `u` and four hex digits. -/
def scanString : List Char → Option (List Char)
  | '"' :: r => some r
  | '\\' :: 'u' :: a :: b :: c :: d :: r =>
    if isHex a && isHex b && isHex c && isHex d then scanString r else none
  | '\\' :: c :: r =>
    if c = '"' ∨ c = '\\' ∨ c = '/' ∨ c = 'b' ∨ c = 'f' ∨ c = 'n' ∨ c = 'r' ∨ c = 't' then
      scanString r
    else none
  | c :: r => if c.toNat < 0x20 then none else scanString r
  | [] => none

/-- The rest of a literal after its first letter: `rue`, `alse` or `ull`. -/
def scanWord : List Char → List Char → Option (List Char)
  | [], cs => some cs
  | w :: ws, c :: cs => if c = w then scanWord ws cs else none
  | _ :: _, [] => none

mutual
/-- One value, chosen by its first character, with `fuel` for the containers it opens. -/
def scanValue : Nat → List Char → Option (List Char)
  | 0, _ => none
  | _ + 1, [] => none
  | n + 1, c :: r =>
    if c = '[' then
      match skipSpace r with
      | ']' :: r1 => some r1
      | cs => scanElems n cs
    else if c = '\x7b' then
      match skipSpace r with
      | '\x7d' :: r1 => some r1
      | cs => scanMembers n cs
    else if c = '"' then scanString r
    else if c = 't' then scanWord ['r', 'u', 'e'] r
    else if c = 'f' then scanWord ['a', 'l', 's', 'e'] r
    else if c = 'n' then scanWord ['u', 'l', 'l'] r
    else scanNumber (c :: r)

/-- The elements of an array from the first one on, and its closing bracket. -/
def scanElems : Nat → List Char → Option (List Char)
  | 0, _ => none
  | n + 1, cs =>
    match scanValue n cs with
    | none => none
    | some r =>
      match skipSpace r with
      | ',' :: r1 => scanElems n (skipSpace r1)
      | ']' :: r1 => some r1
      | _ => none

/-- The members of an object from the first key on, and its closing brace. -/
def scanMembers : Nat → List Char → Option (List Char)
  | 0, _ => none
  | _ + 1, [] => none
  | n + 1, c :: cs =>
    if c ≠ '"' then none else
    match scanString cs with
    | none => none
    | some r =>
      match skipSpace r with
      | ':' :: r1 =>
        match scanValue n (skipSpace r1) with
        | none => none
        | some r2 =>
          match skipSpace r2 with
          | ',' :: r3 => scanMembers n (skipSpace r3)
          | '\x7d' :: r3 => some r3
          | _ => none
      | _ => none
end

/-! ## 2. `json.Unmarshal` into a `[]json.RawMessage` -/

/-- The scanner's grammar: the text is one value, with whitespace around it. -/
def scanValid (data : List Char) : Bool :=
  match scanValue (data.length + 1) (skipSpace data) with
  | some r => (skipSpace r).isEmpty
  | none => false

/-- Where the scanner is in the text: between tokens, in a string, or right after a backslash in
    a string. -/
inductive Lex where
  | outside
  | inString
  | escape
  deriving DecidableEq, Repr

/-- `maxNestingDepth`: the most arrays and objects the scanner lets stand open at once. -/
def maxNestingDepth : Nat := 10000

/-- The test of `pushParseState` along the text: reading from `st` with `d` arrays and objects
    open, each `[` or `{` between tokens opens one more, which leaves at most `maxNestingDepth`
    open or is the error "exceeded max depth", and each `]` or `}` between tokens closes one. -/
def nestOK : Lex → Nat → List Char → Bool
  | _, _, [] => true
  | .outside, d, c :: r =>
    if c = '[' ∨ c = '\x7b' then decide (d + 1 ≤ maxNestingDepth) && nestOK .outside (d + 1) r
    else if c = ']' ∨ c = '\x7d' then nestOK .outside (d - 1) r
    else if c = '"' then nestOK .inString d r
    else nestOK .outside d r
  | .inString, d, c :: r =>
    if c = '\\' then nestOK .escape d r
    else if c = '"' then nestOK .outside d r
    else nestOK .inString d r
  | .escape, d, _ :: r => nestOK .inString d r

/-- `checkValid`: the text is one value, with whitespace around it, nested at most
    `maxNestingDepth` deep. -/
def checkValid (data : List Char) : Bool :=
  scanValid data && nestOK .outside 0 data

/-- The decoder's walk over the elements of an array, from the first one on: the text of each
    element, as its `json.RawMessage` keeps it. -/
def rawElems : Nat → List Char → Option (List (List Char))
  | 0, _ => none
  | n + 1, cs =>
    match scanValue n cs with
    | none => none
    | some r =>
      match skipSpace r with
      | ',' :: r1 => (rawElems n (skipSpace r1)).map (cs.take (cs.length - r.length) :: ·)
      | ']' :: _ => some [cs.take (cs.length - r.length)]
      | _ => none

/-- A `*json.SyntaxError`. Its text names the offending character and what the scanner
    expected; one text stands for all of them here. -/
def syntaxError : String := "invalid character looking for beginning of value"

/-- The kind `*json.UnmarshalTypeError` names for a value, from its first character. -/
def kindName : Char → String
  | '\x7b' => "object"
  | '"' => "string"
  | 't' | 'f' => "bool"
  | _ => "number"

/-- `json.Unmarshal(data, &elts)` for `elts []json.RawMessage`: a syntax error unless the text is
    one value; for an array the texts of its elements, for `null` none; any other value is a type
    error. -/
def unmarshalRaw (data : List Char) : Except String (List (List Char)) :=
  if !checkValid data then .error syntaxError else
  match skipSpace data with
  | '[' :: r =>
    match skipSpace r with
    | ']' :: _ => .ok []
    | cs =>
      match rawElems (data.length + 1) cs with
      | some elts => .ok elts
      | none => .error syntaxError
  | 'n' :: _ => .ok []
  | c :: _ => .error ("json: cannot unmarshal " ++ kindName c ++
      " into Go value of type []json.RawMessage")
  | [] => .error syntaxError

/-! ## 3. Numbers and strings -/

/-- Text that cannot continue a number: empty, or not starting with a digit, `.`, `e` or `E`. -/
def numEnd : List Char → Bool
  | c :: _ => !c.isDigit && c != '.' && c != 'e' && c != 'E'
  | [] => true

/-- A number literal: the scanner reads all of it. -/
def numberLit (t : List Char) : Bool := scanNumber t == some []

section Number

variable {t u r : List Char}

theorem dropWhile_digit_append (hr : numEnd r = true) :
    (t ++ r).dropWhile Char.isDigit = t.dropWhile Char.isDigit ++ r := by
  rw [List.dropWhile_append]
  split
  · next h =>
    rw [List.isEmpty_iff.mp h, List.nil_append]
    cases r with
    | nil => rfl
    | cons c r => simp_all [numEnd]
  · rfl

theorem scanDigits_append (h : scanDigits t = some u) (hr : numEnd r = true) :
    scanDigits (t ++ r) = some (u ++ r) := by
  cases t with
  | nil => cases h
  | cons c t =>
    simp only [scanDigits, List.cons_append] at h ⊢
    split at h
    · cases h; rw [if_pos ‹_›, dropWhile_digit_append hr]
    · cases h

theorem scanInt_append (h : scanInt t = some u) (hr : numEnd r = true) :
    scanInt (t ++ r) = some (u ++ r) := by
  cases t with
  | nil => cases h
  | cons c t =>
    by_cases hc : c = '0'
    · subst hc
      simp only [scanInt, List.cons_append, Option.some.injEq] at h ⊢
      rw [h]
    · simp [scanInt, hc] at h ⊢
      exact scanDigits_append h hr

theorem scanFrac_append (h : scanFrac t = some u) (hr : numEnd r = true) :
    scanFrac (t ++ r) = some (u ++ r) := by
  cases t with
  | nil =>
    cases h
    cases r with
    | nil => rfl
    | cons c r =>
      have hc : c ≠ '.' := by simp_all [numEnd]
      simp [scanFrac, hc]
  | cons c t =>
    by_cases hc : c = '.'
    · subst hc
      simp only [scanFrac, List.cons_append] at h ⊢
      exact scanDigits_append h hr
    · simp [scanFrac, hc] at h ⊢
      subst h; rfl

theorem scanSigned_append (h : scanSigned t = some u) (hr : numEnd r = true) :
    scanSigned (t ++ r) = some (u ++ r) := by
  cases t with
  | nil => cases h
  | cons c t =>
    by_cases hp : c = '+'
    · subst hp; exact scanDigits_append (t := t) h hr
    by_cases hm : c = '-'
    · subst hm; exact scanDigits_append (t := t) h hr
    simp [scanSigned, hp, hm] at h ⊢
    exact scanDigits_append h hr

theorem scanExp_append (h : scanExp t = some u) (hr : numEnd r = true) :
    scanExp (t ++ r) = some (u ++ r) := by
  cases t with
  | nil =>
    cases h
    cases r with
    | nil => rfl
    | cons c r =>
      have hc : c ≠ 'e' ∧ c ≠ 'E' := by simp_all [numEnd]
      simp [scanExp, hc]
  | cons c t =>
    by_cases he : c = 'e'
    · subst he; exact scanSigned_append (t := t) h hr
    by_cases hE : c = 'E'
    · subst hE; exact scanSigned_append (t := t) h hr
    simp [scanExp, he, hE] at h ⊢
    subst h; rfl

theorem scanUnsigned_append (h : scanUnsigned t = some u) (hr : numEnd r = true) :
    scanUnsigned (t ++ r) = some (u ++ r) := by
  simp only [scanUnsigned, Option.bind_eq_some] at h ⊢
  obtain ⟨u2, ⟨u1, h1, h2⟩, h3⟩ := h
  exact ⟨u2 ++ r, ⟨u1 ++ r, scanInt_append h1 hr, scanFrac_append h2 hr⟩, scanExp_append h3 hr⟩

/-- A number read whole stays whole when text that cannot continue it follows. -/
theorem scanNumber_append (h : scanNumber t = some u) (hr : numEnd r = true) :
    scanNumber (t ++ r) = some (u ++ r) := by
  cases t with
  | nil => cases h
  | cons c t =>
    by_cases hm : c = '-'
    · subst hm; exact scanUnsigned_append (t := t) h hr
    simp [scanNumber, hm] at h ⊢
    exact scanUnsigned_append h hr

end Number

theorem isHex_hexDigit : ∀ d < 16, isHex (hexDigit d) = true := by decide

theorem scanString_unicode {a b c d : Char} (h : (isHex a && isHex b && isHex c && isHex d) = true)
    (r : List Char) : scanString ('\\' :: 'u' :: a :: b :: c :: d :: r) = scanString r := by
  rw [scanString, if_pos h]

theorem scanString_plain {c : Char} (h1 : c ≠ '"') (h2 : c ≠ '\\') (hc : ¬c.toNat < 0x20)
    (r : List Char) : scanString (c :: r) = scanString r := by
  rw [scanString]
  · exact if_neg hc
  all_goals simp_all

/-- The scanner reads one escaped character, whichever escape `json.Marshal` chose for it. -/
theorem scanString_escapeChar (c : Char) (r : List Char) :
    scanString ((escapeChar c).data ++ r) = scanString r := by
  have hmod := isHex_hexDigit _ (Nat.mod_lt c.toNat (by omega : 16 > 0))
  unfold escapeChar
  by_cases h1 : c = '"'
  · subst h1; rfl
  by_cases h2 : c = '\\'
  · subst h2; rfl
  by_cases h3 : c = '\n'
  · subst h3; rfl
  by_cases h4 : c = '\r'
  · subst h4; rfl
  by_cases h5 : c = '\t'
  · subst h5; rfl
  rw [if_neg h1, if_neg h2, if_neg h3, if_neg h4, if_neg h5]
  by_cases h6 : c.toNat < 0x20 ∨ c = '<' ∨ c = '>' ∨ c = '&'
  · have hlt : c.toNat / 16 < 16 := by
      rcases h6 with h | rfl | rfl | rfl
      · omega
      all_goals decide
    rw [if_pos h6]
    exact scanString_unicode (by rw [isHex_hexDigit _ hlt, hmod]; rfl) r
  rw [if_neg h6]
  by_cases h7 : c = '\u2028' ∨ c = '\u2029'
  · rw [if_pos h7]
    exact scanString_unicode (by rw [hmod]; rfl) r
  rw [if_neg h7]
  exact scanString_plain h1 h2 (fun h => h6 (.inl h)) r

/-- The scanner reads a string literal `json.Marshal` writes to its closing quote. -/
theorem scanString_escaped (cs r : List Char) :
    scanString ((cs.map (String.data ∘ escapeChar)).flatten ++ '"' :: r) = some r := by
  induction cs with
  | nil => rfl
  | cons c cs ih =>
    rw [List.map_cons, List.flatten_cons, List.append_assoc, Function.comp_apply,
      scanString_escapeChar, ih]

/-! ## 4. The text of a value, read back -/

mutual
/-- Every number in the value is a number literal. -/
def Json.valid : Json → Bool
  | .number n => numberLit n.text.data
  | .array xs => Json.validElems xs
  | .object kvs => Json.validMembers kvs
  | _ => true
/-- Every element is valid. -/
def Json.validElems : List Json → Bool
  | [] => true
  | x :: xs => x.valid && Json.validElems xs
/-- Every member's value is valid. -/
def Json.validMembers : List (String × Json) → Bool
  | [] => true
  | (_, v) :: kvs => v.valid && Json.validMembers kvs
end

theorem isSpace_eq_true {c : Char} (h : isSpace c = true) :
    c = ' ' ∨ c = '\t' ∨ c = '\n' ∨ c = '\r' := by
  simpa [isSpace, or_assoc] using h

/-- A rendered value starts with a character that is no whitespace and closes nothing. -/
theorem render_head (j : Json) :
    ∃ c t, j.render.data = c :: t ∧ isSpace c = false ∧ c ≠ ']' ∧ c ≠ '\x7d' := by
  cases j with
  | null => exact ⟨_, _, rfl, rfl, by decide, by decide⟩
  | bool b => cases b <;> exact ⟨_, _, rfl, rfl, by decide, by decide⟩
  | number n =>
    obtain ⟨c, cs, ht, hc⟩ := n.head
    refine ⟨c, cs, ht, ?_, ?_, ?_⟩
    · cases hs : isSpace c
      · rfl
      · rcases hc with rfl | hd
        · exact absurd hs (by decide)
        · rcases isSpace_eq_true hs with rfl | rfl | rfl | rfl <;> exact absurd hd (by decide)
    all_goals rintro rfl; rcases hc with hc | hc <;> exact absurd hc (by decide)
  | string s => exact ⟨_, _, quote_data s, rfl, by decide, by decide⟩
  | array xs => exact ⟨_, _, render_array xs, rfl, by decide, by decide⟩
  | object kvs => exact ⟨_, _, render_object kvs, rfl, by decide, by decide⟩

theorem skipSpace_render (j : Json) (r : List Char) :
    skipSpace (j.render.data ++ r) = j.render.data ++ r := by
  obtain ⟨c, t, h, hs, -⟩ := render_head j
  rw [h, List.cons_append, skipSpace, List.dropWhile_cons_of_neg (by simp [hs])]

theorem renderElems_cons (x : Json) (xs : List Json) :
    ∃ tl, (Json.renderElems (x :: xs)).data = x.render.data ++ tl := by
  cases xs with
  | nil => exact ⟨[], by simp [Json.renderElems]⟩
  | cons y ys => exact ⟨_, renderElems_cons_cons x y ys⟩

theorem skipSpace_cons_of_not {c : Char} (h : isSpace c = false) (r : List Char) :
    skipSpace (c :: r) = c :: r :=
  List.dropWhile_cons_of_neg (by simp [h])

theorem skipSpace_renderElems (x : Json) (xs : List Json) (r : List Char) :
    skipSpace ((Json.renderElems (x :: xs)).data ++ r) = (Json.renderElems (x :: xs)).data ++ r := by
  obtain ⟨tl, h⟩ := renderElems_cons x xs
  rw [h, List.append_assoc, skipSpace_render]

theorem renderMembers_cons (kv : String × Json) (kvs : List (String × Json)) :
    ∃ tl, (Json.renderMembers (kv :: kvs)).data = '"' :: tl := by
  obtain ⟨k, v⟩ := kv
  cases kvs with
  | nil => exact ⟨_, by rw [renderMembers_single, quote_data]; rfl⟩
  | cons kv kvs => exact ⟨_, by rw [renderMembers_cons_cons, quote_data]; rfl⟩

mutual
/-- **The scanner reads a rendered value.** Whatever follows it that cannot continue a number,
    `scanValue` with more fuel than the text's length stops right after the value's text. -/
theorem scanValue_render : ∀ (j : Json) (n : Nat) (r : List Char), j.valid = true →
    j.render.data.length < n → numEnd r = true → scanValue n (j.render.data ++ r) = some r
  | _, 0, _, _, hn, _ => absurd hn (Nat.not_lt_zero _)
  | .null, _ + 1, _, _, _, _ => rfl
  | .bool true, _ + 1, _, _, _, _ => rfl
  | .bool false, _ + 1, _, _, _, _ => rfl
  | .number num, n + 1, r, hv, _, hr => by
    have hnum : scanNumber num.text.data = some [] := beq_iff_eq.mp hv
    have key := scanNumber_append hnum hr
    obtain ⟨c, cs, ht, hc⟩ := num.head
    simp only [Json.render]
    rw [ht] at key ⊢
    have hne : c ≠ '[' ∧ c ≠ '\x7b' ∧ c ≠ '"' ∧ c ≠ 't' ∧ c ≠ 'f' ∧ c ≠ 'n' := by
      refine ⟨?_, ?_, ?_, ?_, ?_, ?_⟩ <;>
        (rintro rfl; rcases hc with hc | hc <;> exact absurd hc (by decide))
    simpa [scanValue, hne] using key
  | .string s, _ + 1, r, _, _, _ => by
    simp only [Json.render, quote_data, List.cons_append, List.append_assoc, List.singleton_append]
    simp [scanValue, scanString_escaped]
  | .array [], _ + 1, _, _, _, _ => rfl
  | .array (x :: xs), n + 1, r, hv, hn, _ => by
    obtain ⟨c, t, hx, -, hb, -⟩ := render_head x
    obtain ⟨tl, htl⟩ := renderElems_cons x xs
    rw [render_array] at hn ⊢
    simp only [List.length_cons, List.length_append, List.length_singleton] at hn
    have he := scanElems_render (x :: xs) n r (List.cons_ne_nil _ _)
      hv (by omega)
    rw [List.cons_append, List.append_assoc, List.singleton_append]
    simp only [scanValue, if_true]
    rw [skipSpace_renderElems]
    split
    · next r1 h =>
      rw [htl, hx] at h
      exact absurd (List.cons.inj h).1 hb
    · exact he
  | .object [], _ + 1, _, _, _, _ => rfl
  | .object (kv :: kvs), n + 1, r, hv, hn, _ => by
    obtain ⟨tl, htl⟩ := renderMembers_cons kv kvs
    rw [render_object] at hn ⊢
    simp only [List.length_cons, List.length_append, List.length_singleton] at hn
    have hm := scanMembers_render (kv :: kvs) n r (List.cons_ne_nil _ _)
      hv (by omega)
    rw [List.cons_append, List.append_assoc, List.singleton_append]
    have hne : ('\x7b' : Char) ≠ '[' := by decide
    simp only [scanValue, hne, ↓reduceIte]
    rw [htl, List.cons_append,
      skipSpace_cons_of_not (rfl : isSpace '"' = false), ← List.cons_append, ← htl]
    split
    · next r1 h =>
      rw [htl] at h
      exact absurd (List.cons.inj h).1 (by decide)
    · exact hm

theorem scanElems_render : ∀ (xs : List Json) (n : Nat) (r : List Char), xs ≠ [] →
    Json.validElems xs = true → (Json.renderElems xs).data.length + 1 < n →
    scanElems n ((Json.renderElems xs).data ++ ']' :: r) = some r
  | [], _, _, h, _, _ => absurd rfl h
  | _ :: _, 0, _, _, _, hn => absurd hn (Nat.not_lt_zero _)
  | [x], n + 1, r, _, hv, hn => by
    have hx := scanValue_render x n (']' :: r) ((Bool.and_eq_true _ _).mp hv).1
      (by simp only [Json.renderElems] at hn; omega) rfl
    simp only [Json.renderElems] at hx ⊢
    simp [scanElems, hx, skipSpace_cons_of_not (rfl : isSpace ']' = false)]
  | x :: y :: ys, n + 1, r, _, hv, hn => by
    replace hv := (Bool.and_eq_true _ _).mp hv
    rw [renderElems_cons_cons] at hn ⊢
    simp only [List.length_append, List.length_cons] at hn
    have hx := scanValue_render x n (',' :: ((Json.renderElems (y :: ys)).data ++ ']' :: r)) hv.1
      (by omega) rfl
    have hy := scanElems_render (y :: ys) n r (List.cons_ne_nil _ _) hv.2 (by omega)
    rw [List.append_assoc, List.cons_append]
    simp [scanElems, hx, skipSpace_cons_of_not (rfl : isSpace ',' = false), skipSpace_renderElems,
      hy]

theorem scanMembers_render : ∀ (kvs : List (String × Json)) (n : Nat) (r : List Char), kvs ≠ [] →
    Json.validMembers kvs = true → (Json.renderMembers kvs).data.length + 1 < n →
    scanMembers n ((Json.renderMembers kvs).data ++ '\x7d' :: r) = some r
  | [], _, _, h, _, _ => absurd rfl h
  | _ :: _, 0, _, _, _, hn => absurd hn (Nat.not_lt_zero _)
  | [(k, v)], n + 1, r, _, hv, hn => by
    rw [renderMembers_single] at hn ⊢
    simp only [List.length_append, List.length_cons] at hn
    have hvr := scanValue_render v n ('\x7d' :: r) ((Bool.and_eq_true _ _).mp hv).1
      (by omega) rfl
    rw [quote_data]
    simp only [List.cons_append, List.append_assoc, List.singleton_append]
    simp [scanMembers, scanString_escaped, skipSpace_cons_of_not (rfl : isSpace ':' = false),
      skipSpace_render, hvr, skipSpace_cons_of_not (rfl : isSpace '\x7d' = false)]
  | (k, v) :: kv :: kvs, n + 1, r, _, hv, hn => by
    replace hv := (Bool.and_eq_true _ _).mp hv
    rw [renderMembers_cons_cons] at hn ⊢
    simp only [List.length_append, List.length_cons] at hn
    have hvr := scanValue_render v n (',' :: ((Json.renderMembers (kv :: kvs)).data ++ '\x7d' :: r))
      hv.1 (by omega) rfl
    have hm := scanMembers_render (kv :: kvs) n r (List.cons_ne_nil _ _) hv.2 (by omega)
    obtain ⟨tl, htl⟩ := renderMembers_cons kv kvs
    rw [quote_data]
    simp only [List.cons_append, List.append_assoc, List.singleton_append]
    simp [scanMembers, scanString_escaped, skipSpace_cons_of_not (rfl : isSpace ':' = false),
      skipSpace_render, hvr, skipSpace_cons_of_not (rfl : isSpace ',' = false)]
    rw [htl, List.cons_append, skipSpace_cons_of_not (rfl : isSpace '"' = false),
      ← List.cons_append, ← htl, hm]
end

theorem take_sub_length (a b : List Char) : (a ++ b).take ((a ++ b).length - b.length) = a := by
  rw [List.length_append, Nat.add_sub_cancel, List.take_left' rfl]

theorem skipSpace_render_nil (j : Json) : skipSpace j.render.data = j.render.data := by
  simpa using skipSpace_render j []

/-- The scanner reads what `json.Marshal` writes for a valid value as one value. -/
theorem scanValid_render (j : Json) (hv : j.valid = true) : scanValid j.render.data = true := by
  have h := scanValue_render j (j.render.data.length + 1) [] hv (Nat.lt_succ_self _) rfl
  rw [List.append_nil] at h
  simp only [scanValid, skipSpace_render_nil, h]
  rfl

end Jrpc2
