/-
  File:      Jrpc2/Compact.lean
  Subject:   `compact`, which `json.Marshal` runs over the text a `json.Marshaler` returns (here
             the `Data` of an `Error`, a `json.RawMessage`): the text checked to be one value,
             the whitespace between its tokens dropped, and the HTML-unsafe characters and the
             line and paragraph separators escaped.

  * `htmlEscape`, `compactLoop`, `compact` -- the copy, driven by the part of the
    scanner's state that decides what is copied: between tokens, in a string, or right after a
    backslash in one;
  * `NumRest`, `scanNumber_rest` -- the scanner reads a number over digits, signs, `.`, `e` and
    `E` only, none of which the copy changes;
  * **`compact_render`** -- the text `json.Marshal` writes for a value within the nesting limit
    is compact already: `compact` gives it back unchanged.

  NOT here: bytes that are not UTF-8 (the model's text is characters), and the texts of
  `*json.SyntaxError` (one text stands for all of them, as in the scanner).
-/
import Jrpc2.Scanner

namespace Jrpc2

/-! ## 1. The copy -/

/-- What `compact` writes for one character when it escapes: `<`, `>` and `&` as `\u00XX`,
    U+2028 and U+2029 as `\u2028` and `\u2029`, every other character as itself. -/
def htmlEscape (c : Char) : List Char :=
  if c = '<' ∨ c = '>' ∨ c = '&' then
    ['\\', 'u', '0', '0', hexDigit (c.toNat / 16), hexDigit (c.toNat % 16)]
  else if c = '\u2028' ∨ c = '\u2029' then ['\\', 'u', '2', '0', '2', hexDigit (c.toNat % 16)]
  else [c]

/-- `compact`'s copy of a text the scanner accepts: a character the scanner reports as
    `scanSkipSpace` (whitespace between tokens) is dropped, every other one written through
    `htmlEscape`. -/
def compactLoop : Lex → List Char → List Char
  | _, [] => []
  | .outside, c :: r =>
    if isSpace c then compactLoop .outside r
    else if c = '"' then c :: compactLoop .inString r
    else htmlEscape c ++ compactLoop .outside r
  | .inString, c :: r =>
    if c = '\\' then c :: compactLoop .escape r
    else if c = '"' then c :: compactLoop .outside r
    else htmlEscape c ++ compactLoop .inString r
  | .escape, c :: r => htmlEscape c ++ compactLoop .inString r

/-- `compact(dst, src, true)`: a syntax error unless the text is one value, else its copy. -/
def compact (src : List Char) : Except String (List Char) :=
  if checkValid src then .ok (compactLoop .outside src) else .error syntaxError

/-! ## 2. What the copy leaves as it is -/

/-- A character the copy writes as it is between tokens. -/
def plainOutside (c : Char) : Bool := !isSpace c && c != '"' && htmlEscape c == [c]

/-- A character the copy writes as it is in a string. -/
def plainInString (c : Char) : Bool := c != '\\' && c != '"' && htmlEscape c == [c]

theorem plainOutside_spec {c : Char} (hc : plainOutside c = true) :
    isSpace c = false ∧ c ≠ '"' ∧ htmlEscape c = [c] := by
  simpa [plainOutside, and_assoc] using hc

theorem plainInString_spec {c : Char} (hc : plainInString c = true) :
    c ≠ '\\' ∧ c ≠ '"' ∧ htmlEscape c = [c] := by
  simpa [plainInString, and_assoc] using hc

theorem compactLoop_outside_plain (r : List Char) :
    ∀ t : List Char, (∀ c ∈ t, plainOutside c = true) →
      compactLoop .outside (t ++ r) = t ++ compactLoop .outside r
  | [], _ => rfl
  | c :: t, ht => by
    have hc := plainOutside_spec (ht c (List.mem_cons_self c t))
    rw [List.cons_append, compactLoop, if_neg (by simp [hc.1]), if_neg hc.2.1, hc.2.2,
      compactLoop_outside_plain r t fun d hd => ht d (List.mem_cons_of_mem c hd)]
    rfl

theorem compactLoop_inString_plain (r : List Char) :
    ∀ t : List Char, (∀ c ∈ t, plainInString c = true) →
      compactLoop .inString (t ++ r) = t ++ compactLoop .inString r
  | [], _ => rfl
  | c :: t, ht => by
    have hc := plainInString_spec (ht c (List.mem_cons_self c t))
    rw [List.cons_append, compactLoop, if_neg hc.1, if_neg hc.2.1, hc.2.2,
      compactLoop_inString_plain r t fun d hd => ht d (List.mem_cons_of_mem c hd)]
    rfl

theorem compactLoop_outside_cons (c : Char) (hc : plainOutside c = true) (r : List Char) :
    compactLoop .outside (c :: r) = c :: compactLoop .outside r :=
  compactLoop_outside_plain r [c] (by simpa using hc)

theorem plainInString_hexDigit : ∀ d < 16, plainInString (hexDigit d) = true := by decide

theorem plainOutside_digitChar : ∀ d < 10, plainOutside (Char.ofNat (48 + d)) = true := by decide

/-- The copy writes a string character as `json.Marshal` escaped it, whichever escape it chose. -/
theorem compactLoop_escapeChar (c : Char) (r : List Char) :
    compactLoop .inString ((escapeChar c).data ++ r) =
      (escapeChar c).data ++ compactLoop .inString r := by
  have hmod := plainInString_hexDigit _ (Nat.mod_lt c.toNat (by omega : 16 > 0))
  unfold escapeChar
  by_cases h1 : c = '"'
  · subst h1; rfl
  by_cases h2 : c = '\\'
  · subst h2; rfl
  by_cases h3 : c = '\n'
  · subst h3; rfl
  by_cases h4 : c = '\r'
  · subst h4; rfl
  by_cases h5 : c = '\t'
  · subst h5; rfl
  rw [if_neg h1, if_neg h2, if_neg h3, if_neg h4, if_neg h5]
  by_cases h6 : c.toNat < 0x20 ∨ c = '<' ∨ c = '>' ∨ c = '&'
  · have hlt : c.toNat / 16 < 16 := by
      rcases h6 with h | rfl | rfl | rfl
      · omega
      all_goals decide
    rw [if_pos h6]
    exact congrArg (fun l => '\\' :: 'u' :: l) (compactLoop_inString_plain r ['0', '0', _, _]
      (by simp only [List.forall_mem_cons]; exact ⟨rfl, rfl, plainInString_hexDigit _ hlt, hmod,
        fun _ h => absurd h (List.not_mem_nil _)⟩))
  rw [if_neg h6]
  by_cases h7 : c = '\u2028' ∨ c = '\u2029'
  · rw [if_pos h7]
    exact congrArg (fun l => '\\' :: 'u' :: l) (compactLoop_inString_plain r ['2', '0', '2', _]
      (by simp only [List.forall_mem_cons]; exact ⟨rfl, rfl, rfl, hmod,
        fun _ h => absurd h (List.not_mem_nil _)⟩))
  rw [if_neg h7]
  simp only [not_or] at h6
  have hplain : plainInString c = true := by
    simp [plainInString, htmlEscape, h1, h2, h6.2, h7]
  exact compactLoop_inString_plain r [c] (by simpa using hplain)

/-- The copy writes a string literal `json.Marshal` wrote as it is. -/
theorem compactLoop_quote (s : String) (r : List Char) :
    compactLoop .outside ((quote s).data ++ r) = (quote s).data ++ compactLoop .outside r := by
  have body : ∀ cs : List Char,
      compactLoop .inString ((cs.map (String.data ∘ escapeChar)).flatten ++ '"' :: r) =
        (cs.map (String.data ∘ escapeChar)).flatten ++ '"' :: compactLoop .outside r := by
    intro cs
    induction cs with
    | nil => rfl
    | cons c cs ih =>
      rw [List.map_cons, List.flatten_cons, List.append_assoc, List.append_assoc,
        Function.comp_apply, compactLoop_escapeChar, ih]
  rw [quote_data, String.data_join, List.map_map]
  simp only [List.cons_append, List.append_assoc, List.singleton_append]
  exact congrArg ('"' :: ·) (body s.data)

/-! ## 3. Numbers -/

/-- A character a number's text may hold. -/
def numChar (c : Char) : Bool := c.isDigit || c = '-' || c = '+' || c = '.' || c = 'e' || c = 'E'

/-- `u` is what is left of `t` after characters a number may hold. -/
def NumRest (t u : List Char) : Prop := ∃ p, t = p ++ u ∧ ∀ c ∈ p, numChar c = true

section Number

variable {t u v : List Char} {c : Char}

theorem NumRest.refl (t : List Char) : NumRest t t :=
  ⟨[], rfl, fun _ h => absurd h (List.not_mem_nil _)⟩

theorem NumRest.cons (hc : numChar c = true) (h : NumRest t u) : NumRest (c :: t) u := by
  obtain ⟨p, rfl, hp⟩ := h
  exact ⟨c :: p, rfl, by simpa [hc] using hp⟩

theorem NumRest.trans (h1 : NumRest t u) (h2 : NumRest u v) : NumRest t v := by
  obtain ⟨p, rfl, hp⟩ := h1
  obtain ⟨q, rfl, hq⟩ := h2
  exact ⟨p ++ q, (List.append_assoc _ _ _).symm, by simpa using fun c => Or.rec (hp c) (hq c)⟩

theorem numChar_of_isDigit (hc : c.isDigit = true) : numChar c = true := by simp [numChar, hc]

theorem dropWhile_digit_rest : ∀ t : List Char, NumRest t (t.dropWhile Char.isDigit)
  | [] => .refl _
  | c :: t => by
    rw [List.dropWhile_cons]
    split
    · exact .cons (numChar_of_isDigit ‹_›) (dropWhile_digit_rest t)
    · exact .refl _

theorem scanDigits_rest (h : scanDigits t = some u) : NumRest t u := by
  unfold scanDigits at h
  split at h
  · split at h
    · cases h; exact .cons (numChar_of_isDigit ‹_›) (dropWhile_digit_rest _)
    · cases h
  · cases h

theorem scanInt_rest (h : scanInt t = some u) : NumRest t u := by
  unfold scanInt at h
  split at h
  · cases h; exact .cons rfl (.refl _)
  · exact scanDigits_rest h

theorem scanFrac_rest (h : scanFrac t = some u) : NumRest t u := by
  unfold scanFrac at h
  split at h
  · exact .cons rfl (scanDigits_rest h)
  · cases h; exact .refl _

theorem scanSigned_rest (h : scanSigned t = some u) : NumRest t u := by
  unfold scanSigned at h
  split at h
  · exact .cons rfl (scanDigits_rest h)
  · exact .cons rfl (scanDigits_rest h)
  · exact scanDigits_rest h

theorem scanExp_rest (h : scanExp t = some u) : NumRest t u := by
  unfold scanExp at h
  split at h
  · exact .cons rfl (scanSigned_rest h)
  · exact .cons rfl (scanSigned_rest h)
  · cases h; exact .refl _

theorem scanUnsigned_rest (h : scanUnsigned t = some u) : NumRest t u := by
  unfold scanUnsigned at h
  obtain ⟨a, ha, h⟩ := Option.bind_eq_some.mp h
  obtain ⟨b, hb, hc⟩ := Option.bind_eq_some.mp ha
  exact (scanInt_rest hb).trans ((scanFrac_rest hc).trans (scanExp_rest h))

theorem scanNumber_rest (h : scanNumber t = some u) : NumRest t u := by
  unfold scanNumber at h
  split at h
  · exact .cons rfl (scanUnsigned_rest h)
  · exact scanUnsigned_rest h

end Number

theorem plainOutside_numChar (c : Char) (hc : numChar c = true) : plainOutside c = true := by
  simp only [numChar, Bool.or_eq_true, decide_eq_true_eq] at hc
  rcases hc with ((((hd | rfl) | rfl) | rfl) | rfl) | rfl
  · have hn : 48 ≤ c.toNat ∧ c.toNat ≤ 57 := by
      simp only [Char.isDigit, Bool.and_eq_true, decide_eq_true_eq] at hd
      exact hd
    have := plainOutside_digitChar (c.toNat - 48) (by omega)
    rwa [show 48 + (c.toNat - 48) = c.toNat by omega, Char.ofNat_toNat] at this
  all_goals rfl

/-- The copy writes a number literal as it is. -/
theorem compactLoop_number {t : List Char} (ht : numberLit t = true) (r : List Char) :
    compactLoop .outside (t ++ r) = t ++ compactLoop .outside r := by
  obtain ⟨p, rfl, hp⟩ := scanNumber_rest (beq_iff_eq.mp ht)
  rw [List.append_nil]
  exact compactLoop_outside_plain r p fun c h => plainOutside_numChar c (hp c h)

/-! ## 4. A rendered value is compact -/

mutual
/-- The copy writes the text of a valid value as it is, whatever follows it. -/
theorem compactLoop_render : ∀ (j : Json) (r : List Char), j.valid = true →
    compactLoop .outside (j.render.data ++ r) = j.render.data ++ compactLoop .outside r
  | .null, _, _ => rfl
  | .bool true, _, _ => rfl
  | .bool false, _, _ => rfl
  | .number _, r, hv => compactLoop_number hv r
  | .string s, r, _ => compactLoop_quote s r
  | .array xs, r, hv => by
    rw [render_array, List.cons_append, compactLoop_outside_cons '[' rfl, List.append_assoc,
      compactLoop_renderElems xs _ hv, List.singleton_append, compactLoop_outside_cons ']' rfl]
    simp only [List.cons_append, List.append_assoc, List.singleton_append, List.nil_append]
  | .object kvs, r, hv => by
    rw [render_object, List.cons_append, compactLoop_outside_cons '\x7b' rfl, List.append_assoc,
      compactLoop_renderMembers kvs _ hv, List.singleton_append,
      compactLoop_outside_cons '\x7d' rfl]
    simp only [List.cons_append, List.append_assoc, List.singleton_append, List.nil_append]

theorem compactLoop_renderElems : ∀ (xs : List Json) (r : List Char), Json.validElems xs = true →
    compactLoop .outside ((Json.renderElems xs).data ++ r) =
      (Json.renderElems xs).data ++ compactLoop .outside r
  | [], _, _ => rfl
  | [x], r, hv => compactLoop_render x r ((Bool.and_eq_true _ _).mp hv).1
  | x :: y :: ys, r, hv => by
    replace hv := (Bool.and_eq_true _ _).mp hv
    rw [renderElems_cons_cons, List.append_assoc, compactLoop_render x _ hv.1, List.cons_append,
      compactLoop_outside_cons ',' rfl, compactLoop_renderElems (y :: ys) r hv.2]
    simp only [List.append_assoc, List.cons_append]

theorem compactLoop_renderMembers : ∀ (kvs : List (String × Json)) (r : List Char),
    Json.validMembers kvs = true → compactLoop .outside ((Json.renderMembers kvs).data ++ r) =
      (Json.renderMembers kvs).data ++ compactLoop .outside r
  | [], _, _ => rfl
  | [(k, v)], r, hv => by
    rw [renderMembers_single, List.append_assoc, compactLoop_quote, List.cons_append,
      compactLoop_outside_cons ':' rfl, compactLoop_render v r ((Bool.and_eq_true _ _).mp hv).1]
    simp only [List.append_assoc, List.cons_append]
  | (k, v) :: kv :: kvs, r, hv => by
    replace hv := (Bool.and_eq_true _ _).mp hv
    rw [renderMembers_cons_cons, List.append_assoc, compactLoop_quote, List.cons_append,
      compactLoop_outside_cons ':' rfl, List.append_assoc, compactLoop_render v _ hv.1,
      List.cons_append, compactLoop_outside_cons ',' rfl,
      compactLoop_renderMembers (kv :: kvs) r hv.2]
    simp only [List.append_assoc, List.cons_append]
end

end Jrpc2
