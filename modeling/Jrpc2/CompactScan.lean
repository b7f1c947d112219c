/-
  File:      Jrpc2/CompactScan.lean
  Subject:   What `compact` writes for any text the scanner accepts is again one value: the copy
             of a valid `json.RawMessage` is read whole by the scanner, and the walk over an
             object reads such a copy back as a member's text.

  * `lexAfter`, `compactLoop_append` -- the copy of a text is the copy of its parts, each from the
    state the scanner is in where it starts;
  * `scanString_compact`, `scanNumber_of_append` -- the leaves: a string's copy is read to the
    same closing quote, and a number, copied as it is, is read up to any text that cannot
    continue it;
  * `Whole`, `Whole.one_value` -- a text the scanner reads whole, with any fuel above its length
    and whatever follows that cannot continue a number; a value's such text is one value;
  * `Copied`, `Copies`, `copies_all` -- for every value, array body and object body the scanner
    reads, with any fuel, its copy is read again whole (one step per unit of fuel:
    `copies_value_succ`, `copies_elems_succ`, `copies_members_succ`);
  * **`compact_whole`** -- whatever `compact` returns is read whole, and the copy of a copy is the
    copy (`compactLoop_idem`).

  NOT here: the texts of `*json.SyntaxError`; a text `compact` rejects (the copy is only made of
  a valid text); the nesting limit of what `compact` writes (Nesting.lean).
-/
import Jrpc2.Compact

namespace Jrpc2

/-! ## 1. The copy, part by part -/

/-- The scanner's state, as the copy tracks it, after reading `p` from `st`. -/
def lexAfter : Lex → List Char → Lex
  | st, [] => st
  | .outside, c :: r =>
    if isSpace c then lexAfter .outside r
    else if c = '"' then lexAfter .inString r
    else lexAfter .outside r
  | .inString, c :: r =>
    if c = '\\' then lexAfter .escape r
    else if c = '"' then lexAfter .outside r
    else lexAfter .inString r
  | .escape, _ :: r => lexAfter .inString r

@[simp] theorem compactLoop_nil (st : Lex) : compactLoop st [] = [] := by
  cases st <;> rfl

theorem compactLoop_append (p r : List Char) :
    ∀ st, compactLoop st (p ++ r) = compactLoop st p ++ compactLoop (lexAfter st p) r := by
  induction p with
  | nil => intro st; cases st <;> rfl
  | cons c p ih =>
    intro st
    cases st with
    | outside =>
      simp only [List.cons_append, compactLoop, lexAfter]
      split_ifs <;> simp [ih]
    | inString =>
      simp only [List.cons_append, compactLoop, lexAfter]
      split_ifs <;> simp [ih]
    | escape => simp [compactLoop, lexAfter, ih]

theorem lexAfter_append (p r : List Char) :
    ∀ st, lexAfter st (p ++ r) = lexAfter (lexAfter st p) r := by
  induction p with
  | nil => intro st; cases st <;> rfl
  | cons c p ih =>
    intro st
    cases st with
    | outside => simp only [List.cons_append, lexAfter]; split_ifs <;> exact ih _
    | inString => simp only [List.cons_append, lexAfter]; split_ifs <;> exact ih _
    | escape => exact ih _

/-- Whitespace between tokens: the copy drops it and stays between tokens. -/
theorem compactLoop_spaces (r : List Char) : ∀ ws : List Char, (∀ c ∈ ws, isSpace c = true) →
    compactLoop .outside (ws ++ r) = compactLoop .outside r ∧
      lexAfter .outside (ws ++ r) = lexAfter .outside r
  | [], _ => ⟨rfl, rfl⟩
  | c :: ws, h => by
    have hc := h c (List.mem_cons_self c ws)
    have ih := compactLoop_spaces r ws fun d hd => h d (List.mem_cons_of_mem c hd)
    simp only [List.cons_append, compactLoop, lexAfter, hc, if_true]
    exact ih

/-- A text the copy ends between tokens is copied first, whatever follows it. -/
theorem compactLoop_closed {p : List Char} (h : lexAfter .outside p = .outside) (r : List Char) :
    compactLoop .outside (p ++ r) = compactLoop .outside p ++ compactLoop .outside r ∧
      lexAfter .outside (p ++ r) = lexAfter .outside r := by
  rw [compactLoop_append, lexAfter_append, h]
  exact ⟨rfl, rfl⟩

theorem lexAfter_outside_cons {c : Char} (hc : plainOutside c = true) (r : List Char) :
    lexAfter .outside (c :: r) = lexAfter .outside r := by
  have hc' := plainOutside_spec hc
  rw [lexAfter, if_neg (by simp [hc'.1]), if_neg hc'.2.1]

/-- What `skipSpace` skips is whitespace. -/
theorem skipSpace_split (s : List Char) :
    ∃ ws, s = ws ++ skipSpace s ∧ ∀ c ∈ ws, isSpace c = true :=
  ⟨s.takeWhile isSpace, (List.takeWhile_append_dropWhile _ _).symm,
    fun _ h => List.mem_takeWhile_imp h⟩

/-- A text the copy writes as it is between tokens also ends between tokens. -/
theorem lexAfter_outside_plain : ∀ t : List Char, (∀ c ∈ t, plainOutside c = true) →
    lexAfter .outside t = .outside
  | [], _ => rfl
  | c :: t, ht => by
    rw [lexAfter_outside_cons (ht c (List.mem_cons_self c t))]
    exact lexAfter_outside_plain t fun d hd => ht d (List.mem_cons_of_mem c hd)

theorem lexAfter_inString_plain (r : List Char) : ∀ t : List Char,
    (∀ c ∈ t, plainInString c = true) → lexAfter .inString (t ++ r) = lexAfter .inString r
  | [], _ => rfl
  | c :: t, ht => by
    have hc := plainInString_spec (ht c (List.mem_cons_self c t))
    rw [List.cons_append, lexAfter, if_neg hc.1, if_neg hc.2.1]
    exact lexAfter_inString_plain r t fun d hd => ht d (List.mem_cons_of_mem c hd)

/-! ## 2. Strings -/

theorem plainInString_of_isHex {c : Char} (h : isHex c = true) : plainInString c = true := by
  unfold plainInString htmlEscape
  split_ifs with h1 h2
  · rcases h1 with rfl | rfl | rfl <;> exact absurd h (by decide)
  · rcases h2 with rfl | rfl <;> exact absurd h (by decide)
  · have h3 : c ≠ '\\' := by rintro rfl; exact absurd h (by decide)
    have h4 : c ≠ '"' := by rintro rfl; exact absurd h (by decide)
    simp [h3, h4]

/-- The scanner reads what the copy writes for one character of a string as one character. -/
theorem scanString_htmlEscape {c : Char} (h1 : c ≠ '"') (h2 : c ≠ '\\') (hc : ¬c.toNat < 0x20)
    (r : List Char) : scanString (htmlEscape c ++ r) = scanString r := by
  have hmod := isHex_hexDigit _ (Nat.mod_lt c.toNat (by omega : 16 > 0))
  unfold htmlEscape
  split_ifs with h3 h4
  · have hlt : c.toNat / 16 < 16 := by rcases h3 with rfl | rfl | rfl <;> decide
    exact scanString_unicode (by rw [isHex_hexDigit _ hlt, hmod]; rfl) r
  · exact scanString_unicode (by rw [hmod]; rfl) r
  · exact scanString_plain h1 h2 hc r

/-- A character the scanner reads on its own inside a string is no backslash: a backslash starts
    an escape, read with the character after it. -/
theorem ne_backslash_of_read {c : Char} {rest r : List Char}
    (hb : ∀ (c1 : Char) (r1 : List Char), c = '\\' → rest = c1 :: r1 → False)
    (h : scanString rest = some r) : c ≠ '\\' := by
  rintro rfl
  cases rest with
  | nil => cases h
  | cons c1 r1 => exact hb c1 r1 rfl rfl

/-- **A string's copy is read back to its closing quote.** What the scanner reads of a string
    literal after its opening quote, the copy writes from inside the string up to the same closing
    quote, after which it is between tokens again; and the scanner reads the copy to that quote. -/
theorem scanString_compact (cs : List Char) : ∀ r, scanString cs = some r →
    ∃ b, cs = b ++ r ∧ lexAfter .inString b = .outside ∧
      ∀ r', scanString (compactLoop .inString b ++ r') = some r' := by
  induction cs using scanString.induct with
  | case1 rest =>
    intro r h
    obtain rfl : rest = r := Option.some.inj h
    exact ⟨['"'], rfl, rfl, fun _ => rfl⟩
  | case2 a b c d rest hx ih =>
    intro r h
    rw [scanString_unicode hx] at h
    obtain ⟨t, rfl, hl, hs⟩ := ih r h
    have hp : ∀ x ∈ [a, b, c, d], plainInString x = true := by
      simp only [Bool.and_eq_true] at hx
      simp [plainInString_of_isHex, hx]
    refine ⟨'\\' :: 'u' :: ([a, b, c, d] ++ t), rfl, ?_, fun r' => ?_⟩
    · exact (lexAfter_inString_plain t _ hp).trans hl
    · show scanString ('\\' :: 'u' :: compactLoop .inString ([a, b, c, d] ++ t) ++ r') = _
      rw [compactLoop_inString_plain t _ hp]
      exact (scanString_unicode hx _).trans (hs r')
  | case3 a b c d rest hx =>
    intro r h
    rw [scanString, if_neg hx] at h
    cases h
  | case4 c rest _ hesc ih =>
    intro r h
    rcases hesc with rfl | rfl | rfl | rfl | rfl | rfl | rfl | rfl <;>
    · obtain ⟨t, rfl, hl, hs⟩ := ih r h
      exact ⟨'\\' :: _ :: t, rfl, hl, hs⟩
  | case5 c rest hu hesc =>
    intro r h
    rw [scanString.eq_3 c rest hu, if_neg hesc] at h
    cases h
  | case6 c rest hq hu hb hlt =>
    intro r h
    rw [scanString.eq_4 c rest hq hu hb, if_pos hlt] at h
    cases h
  | case7 c rest hq hu hb hlt ih =>
    intro r h
    rw [scanString.eq_4 c rest hq hu hb, if_neg hlt] at h
    have hbs := ne_backslash_of_read hb h
    obtain ⟨t, rfl, hl, hs⟩ := ih r h
    refine ⟨c :: t, rfl, ?_, fun r' => ?_⟩
    · rw [lexAfter, if_neg hbs, if_neg hq, hl]
    · rw [compactLoop, if_neg hbs, if_neg hq, List.append_assoc, scanString_htmlEscape hq hbs hlt,
        hs]
  | case8 => intro r h; cases h

/-! ## 3. Numbers -/

section Number

variable {t u r : List Char}

theorem NumRest.length_le (h : NumRest t u) : u.length ≤ t.length := by
  obtain ⟨p, rfl, -⟩ := h
  simp

theorem scanDigits_lt (h : scanDigits t = some u) : u.length < t.length := by
  unfold scanDigits at h
  split at h
  · split at h
    · cases h; exact Nat.lt_succ_of_le (dropWhile_digit_rest _).length_le
    · cases h
  · cases h

theorem scanInt_lt (h : scanInt t = some u) : u.length < t.length := by
  unfold scanInt at h
  split at h
  · cases h; simp
  · exact scanDigits_lt h

theorem scanSigned_lt (h : scanSigned t = some u) : u.length < t.length := by
  unfold scanSigned at h
  split at h
  all_goals have := scanDigits_lt h; simp only [List.length_cons] at this ⊢; omega

theorem scanUnsigned_lt (h : scanUnsigned t = some u) : u.length < t.length := by
  unfold scanUnsigned at h
  obtain ⟨a, ha, h⟩ := Option.bind_eq_some.mp h
  obtain ⟨b, hb, hc⟩ := Option.bind_eq_some.mp ha
  have := (scanFrac_rest hc).length_le
  have := (scanExp_rest h).length_le
  have := scanInt_lt hb
  omega

theorem scanNumber_lt (h : scanNumber t = some u) : u.length < t.length := by
  unfold scanNumber at h
  split at h
  · have := scanUnsigned_lt h; simp only [List.length_cons]; omega
  · exact scanUnsigned_lt h

/-- A scanner that reads at least one character has read nothing of `r` when it stops at `r`. -/
theorem not_lt_append_self (u : List Char) (r : List Char) :
    ¬(u ++ r).length < ([] ++ r).length := by
  simp

theorem scanDigits_of_append (h : scanDigits (t ++ r) = some (u ++ r)) (hr : numEnd r = true) :
    scanDigits t = some u := by
  cases t with
  | nil => exact absurd (scanDigits_lt h) (not_lt_append_self u r)
  | cons c t =>
    rw [List.cons_append, scanDigits] at h
    rw [scanDigits]
    split_ifs at h ⊢
    rw [dropWhile_digit_append hr] at h
    exact congrArg some (List.append_cancel_right (Option.some.inj h))

theorem scanInt_of_append (h : scanInt (t ++ r) = some (u ++ r)) (hr : numEnd r = true) :
    scanInt t = some u := by
  cases t with
  | nil => exact absurd (scanInt_lt h) (not_lt_append_self u r)
  | cons c t =>
    by_cases hc : c = '0'
    · subst hc
      exact congrArg some (List.append_cancel_right (Option.some.inj h))
    · simp [scanInt, hc] at h ⊢
      exact scanDigits_of_append h hr

theorem scanFrac_of_append (h : scanFrac (t ++ r) = some (u ++ r)) (hr : numEnd r = true) :
    scanFrac t = some u := by
  cases t with
  | nil =>
    have h0 := scanFrac_append (t := []) (u := []) rfl hr
    rw [h] at h0
    rw [List.append_cancel_right (Option.some.inj h0)]
    rfl
  | cons c t =>
    by_cases hc : c = '.'
    · subst hc; exact scanDigits_of_append (t := t) h hr
    · simp [scanFrac, hc] at h ⊢
      exact List.append_cancel_right ((List.cons_append c t r).trans h)

theorem scanSigned_of_append (h : scanSigned (t ++ r) = some (u ++ r)) (hr : numEnd r = true) :
    scanSigned t = some u := by
  cases t with
  | nil => exact absurd (scanSigned_lt h) (not_lt_append_self u r)
  | cons c t =>
    by_cases hp : c = '+'
    · subst hp; exact scanDigits_of_append (t := t) h hr
    by_cases hm : c = '-'
    · subst hm; exact scanDigits_of_append (t := t) h hr
    simp [scanSigned, hp, hm] at h ⊢
    exact scanDigits_of_append h hr

theorem scanExp_of_append (h : scanExp (t ++ r) = some (u ++ r)) (hr : numEnd r = true) :
    scanExp t = some u := by
  cases t with
  | nil =>
    have h0 := scanExp_append (t := []) (u := []) rfl hr
    rw [h] at h0
    rw [List.append_cancel_right (Option.some.inj h0)]
    rfl
  | cons c t =>
    by_cases he : c = 'e'
    · subst he; exact scanSigned_of_append (t := t) h hr
    by_cases hE : c = 'E'
    · subst hE; exact scanSigned_of_append (t := t) h hr
    simp [scanExp, he, hE] at h ⊢
    exact List.append_cancel_right ((List.cons_append c t r).trans h)

theorem scanUnsigned_of_append (h : scanUnsigned (t ++ r) = some (u ++ r)) (hr : numEnd r = true) :
    scanUnsigned t = some u := by
  simp only [scanUnsigned, Option.bind_eq_some] at h ⊢
  obtain ⟨s2, ⟨s1, h1, h2⟩, h3⟩ := h
  obtain ⟨p2, rfl, -⟩ := scanExp_rest h3
  obtain ⟨p1, rfl, -⟩ := scanFrac_rest h2
  exact ⟨p2 ++ u, ⟨p1 ++ (p2 ++ u),
    scanInt_of_append (by simpa only [List.append_assoc] using h1) hr,
    scanFrac_of_append (by simpa only [List.append_assoc] using h2) hr⟩,
    scanExp_of_append (by simpa only [List.append_assoc] using h3) hr⟩

/-- What the scanner read as a number up to text that cannot continue it, it reads as a number to
    its end when nothing follows. -/
theorem scanNumber_of_append (h : scanNumber (t ++ r) = some (u ++ r)) (hr : numEnd r = true) :
    scanNumber t = some u := by
  cases t with
  | nil => exact absurd (scanNumber_lt h) (not_lt_append_self u r)
  | cons c t =>
    by_cases hm : c = '-'
    · subst hm; exact scanUnsigned_of_append (t := t) h hr
    simp [scanNumber, hm] at h ⊢
    exact scanUnsigned_of_append h hr

end Number

/-! ## 4. Values, leaf by leaf -/

/-- The text starts with a character that is no whitespace and closes nothing. -/
def Lead (x : List Char) : Prop := ∃ c t, x = c :: t ∧ isSpace c = false ∧ c ≠ ']' ∧ c ≠ '\x7d'

theorem Lead.skipSpace {x : List Char} (h : Lead x) (r : List Char) :
    skipSpace (x ++ r) = x ++ r := by
  obtain ⟨c, t, rfl, hs, -⟩ := h
  exact skipSpace_cons_of_not hs _

theorem Lead.append {x : List Char} (h : Lead x) (r : List Char) : Lead (x ++ r) := by
  obtain ⟨c, t, rfl, hs⟩ := h
  exact ⟨c, t ++ r, rfl, hs⟩

theorem Lead.ne_close {x : List Char} (h : Lead x) (r r1 : List Char) :
    x ++ r ≠ ']' :: r1 ∧ x ++ r ≠ '\x7d' :: r1 := by
  obtain ⟨c, t, rfl, -, hb, hc⟩ := h
  exact ⟨fun he => hb (List.cons.inj he).1, fun he => hc (List.cons.inj he).1⟩

theorem lead_cons {c : Char} (hc : plainOutside c = true) (hb : c ≠ ']') (hcl : c ≠ '\x7d')
    (t : List Char) : Lead (c :: t) :=
  ⟨c, t, rfl, (plainOutside_spec hc).1, hb, hcl⟩

/-- A text that a scanner `f` (for a value; an array's elements with the closing bracket; an
    object's members with the closing brace) reads whole: it starts with a character that is no
    whitespace and closes nothing, and `f` reads it with any fuel above its length, up to
    whatever follows that cannot continue a number. -/
structure Whole (f : Nat → List Char → Option (List Char)) (p : List Char) : Prop where
  lead : Lead p
  scan : ∀ m r, p.length < m → numEnd r = true → f m (p ++ r) = some r

/-- The text `p` of what a scanner `f` read, whose copy `f` reads whole, and which the copy ends
    between tokens. -/
structure Copied (f : Nat → List Char → Option (List Char)) (p : List Char)
    extends Whole f (compactLoop .outside p) : Prop where
  closed : lexAfter .outside p = .outside

/-- With fuel `n`, every text `f` reads up to what cannot continue a number is one whose copy `f`
    reads again. -/
def Copies (f : Nat → List Char → Option (List Char)) (n : Nat) : Prop :=
  ∀ t r, f n t = some r → numEnd r = true → ∃ p, t = p ++ r ∧ Copied f p

theorem exists_succ_of_lt {m k : Nat} (h : k < m) : ∃ m', m = m' + 1 ∧ k ≤ m' :=
  ⟨m - 1, by omega, by omega⟩

/-- A value's text read whole is one value: with fuel one above its length it is read to its
    end. -/
theorem Whole.one_value {p : List Char} (h : Whole scanValue p) : scanValid p = true := by
  have hs := h.scan _ [] (Nat.lt_succ_self _) rfl
  rw [List.append_nil] at hs
  have hsk : skipSpace p = p := by simpa using h.lead.skipSpace []
  unfold scanValid
  rw [hsk, hs]
  rfl

/-- A value the copy writes as it is. -/
theorem copied_of_plain {p : List Char} (hp : ∀ c ∈ p, plainOutside c = true)
    (hw : Whole scanValue p) : Copied scanValue p := by
  have hc : compactLoop .outside p = p := by
    simpa using compactLoop_outside_plain [] p hp
  exact ⟨by rw [hc]; exact hw, lexAfter_outside_plain p hp⟩

theorem scanWord_some : ∀ {w cs r : List Char}, scanWord w cs = some r → cs = w ++ r
  | [], _, _, h => Option.some.inj h
  | _ :: _, [], _, h => by cases h
  | w :: ws, c :: cs, r, h => by
    rw [scanWord] at h
    split_ifs at h with hc
    rw [hc, scanWord_some h]
    rfl

theorem scanWord_append : ∀ w r : List Char, scanWord w (w ++ r) = some r
  | [], _ => rfl
  | c :: w, r => by rw [List.cons_append, scanWord, if_pos rfl, scanWord_append w r]

/-- `true`, `false` and `null`: the first letter and the rest of the word, read again whatever
    follows. -/
theorem whole_word {c : Char} {w : List Char} (hl : Lead (c :: w))
    (hs : ∀ m x, scanValue (m + 1) (c :: x) = scanWord w x) : Whole scanValue (c :: w) := by
  refine ⟨hl, fun m r hm _ => ?_⟩
  obtain ⟨m, rfl, -⟩ := exists_succ_of_lt hm
  rw [List.cons_append, hs, scanWord_append]

/-- A word is copied as it is. -/
theorem copied_word {c : Char} {w rest r : List Char} (h : scanWord w rest = some r)
    (hp : ∀ d ∈ c :: w, plainOutside d = true) (hc : c ≠ ']' ∧ c ≠ '\x7d')
    (hs : ∀ m x, scanValue (m + 1) (c :: x) = scanWord w x) :
    ∃ p, c :: rest = p ++ r ∧ Copied scanValue p := by
  obtain rfl := scanWord_some h
  exact ⟨c :: w, rfl, copied_of_plain hp
    (whole_word (lead_cons (hp c (List.mem_cons_self c w)) hc.1 hc.2 w) hs)⟩

/-- A number the scanner reads, up to any end, is plain text that it reads again whole. -/
theorem whole_number {c : Char} {rest r : List Char} (h : scanNumber (c :: rest) = some r)
    (hr : numEnd r = true)
    (hne : ¬c = '[' ∧ ¬c = '\x7b' ∧ ¬c = '"' ∧ ¬c = 't' ∧ ¬c = 'f' ∧ ¬c = 'n') :
    ∃ p, c :: rest = p ++ r ∧ (∀ d ∈ p, plainOutside d = true) ∧ Whole scanValue p := by
  obtain ⟨p, hpr, hp⟩ := scanNumber_rest h
  cases p with
  | nil => exact absurd (scanNumber_lt h) (by rw [hpr]; exact Nat.lt_irrefl _)
  | cons c' p =>
    obtain ⟨rfl, rfl⟩ := List.cons.inj hpr
    have hnum : scanNumber (c :: p) = some [] := scanNumber_of_append (u := []) h hr
    have hc := hp c (List.mem_cons_self c p)
    refine ⟨c :: p, rfl, fun d hd => plainOutside_numChar d (hp d hd),
      lead_cons (plainOutside_numChar c hc) ?_ ?_ p, fun m r' hm hr' => ?_⟩
    · rintro rfl; exact absurd hc (by decide)
    · rintro rfl; exact absurd hc (by decide)
    · obtain ⟨m, rfl, -⟩ := exists_succ_of_lt hm
      obtain ⟨h1, h2, h3, h4, h5, h6⟩ := hne
      rw [List.cons_append, scanValue, if_neg h1, if_neg h2, if_neg h3, if_neg h4, if_neg h5,
        if_neg h6, ← List.cons_append]
      exact scanNumber_append hnum hr'

/-- A number is copied as it is. -/
theorem copied_number {c : Char} {rest r : List Char} (h : scanNumber (c :: rest) = some r)
    (hr : numEnd r = true)
    (hne : ¬c = '[' ∧ ¬c = '\x7b' ∧ ¬c = '"' ∧ ¬c = 't' ∧ ¬c = 'f' ∧ ¬c = 'n') :
    ∃ p, c :: rest = p ++ r ∧ Copied scanValue p := by
  obtain ⟨p, hpr, hp, hw⟩ := whole_number h hr hne
  exact ⟨p, hpr, copied_of_plain hp hw⟩

/-! ## 5. Arrays and objects -/

/-- What the scanner's dispatch reads of a value with one more unit of fuel, by the value's first
    character. -/
inductive Dispatch (n : Nat) (rest r : List Char) : Char → Prop
  | array (h : skipSpace rest = ']' :: r ∨ scanElems n (skipSpace rest) = some r) :
      Dispatch n rest r '['
  | object (h : skipSpace rest = '\x7d' :: r ∨ scanMembers n (skipSpace rest) = some r) :
      Dispatch n rest r '\x7b'
  | string (h : scanString rest = some r) : Dispatch n rest r '"'
  | lit_true (h : scanWord ['r', 'u', 'e'] rest = some r) : Dispatch n rest r 't'
  | lit_false (h : scanWord ['a', 'l', 's', 'e'] rest = some r) : Dispatch n rest r 'f'
  | lit_null (h : scanWord ['u', 'l', 'l'] rest = some r) : Dispatch n rest r 'n'
  | number {c : Char} (hne : ¬c = '[' ∧ ¬c = '\x7b' ∧ ¬c = '"' ∧ ¬c = 't' ∧ ¬c = 'f' ∧ ¬c = 'n')
      (h : scanNumber (c :: rest) = some r) : Dispatch n rest r c

theorem scanValue_dispatch {n : Nat} {c : Char} {rest r : List Char}
    (h : scanValue (n + 1) (c :: rest) = some r) : Dispatch n rest r c := by
  rw [scanValue] at h
  by_cases h1 : c = '['
  · rw [if_pos h1] at h
    subst h1
    refine .array ?_
    split at h
    · next r1 hsk => exact .inl (by rw [hsk, Option.some.inj h])
    · exact .inr h
  rw [if_neg h1] at h
  by_cases h2 : c = '\x7b'
  · rw [if_pos h2] at h
    subst h2
    refine .object ?_
    split at h
    · next r1 hsk => exact .inl (by rw [hsk, Option.some.inj h])
    · exact .inr h
  rw [if_neg h2] at h
  by_cases h3 : c = '"'
  · rw [if_pos h3] at h; subst h3; exact .string h
  rw [if_neg h3] at h
  by_cases h4 : c = 't'
  · rw [if_pos h4] at h; subst h4; exact .lit_true h
  rw [if_neg h4] at h
  by_cases h5 : c = 'f'
  · rw [if_pos h5] at h; subst h5; exact .lit_false h
  rw [if_neg h5] at h
  by_cases h6 : c = 'n'
  · rw [if_pos h6] at h; subst h6; exact .lit_null h
  rw [if_neg h6] at h
  exact .number ⟨h1, h2, h3, h4, h5, h6⟩ h

/-- What the scanner reads of an array's elements: a value, then a comma and the next elements, or
    the closing bracket. -/
theorem scanElems_cases {n : Nat} {cs r : List Char} (h : scanElems (n + 1) cs = some r) :
    ∃ r0, scanValue n cs = some r0 ∧
      ((∃ r1, skipSpace r0 = ',' :: r1 ∧ scanElems n (skipSpace r1) = some r) ∨
        skipSpace r0 = ']' :: r) := by
  rw [scanElems] at h
  split at h
  · cases h
  next r0 h0 =>
  refine ⟨r0, h0, ?_⟩
  split at h
  · next r1 hsk => exact .inl ⟨r1, hsk, h⟩
  · next r1 hsk => exact .inr (by rw [hsk, Option.some.inj h])
  · cases h

/-- What the scanner reads of an object's members: a key, a colon, a value, then a comma and the
    next members, or the closing brace. -/
theorem scanMembers_cases {n : Nat} {c : Char} {cs r : List Char}
    (h : scanMembers (n + 1) (c :: cs) = some r) :
    c = '"' ∧ ∃ r0 r1 r2, scanString cs = some r0 ∧ skipSpace r0 = ':' :: r1 ∧
      scanValue n (skipSpace r1) = some r2 ∧
      ((∃ r3, skipSpace r2 = ',' :: r3 ∧ scanMembers n (skipSpace r3) = some r) ∨
        skipSpace r2 = '\x7d' :: r) := by
  rw [scanMembers] at h
  split_ifs at h with hq
  refine ⟨not_not.mp hq, ?_⟩
  split at h
  · cases h
  next r0 h0 =>
  split at h
  swap
  · cases h
  next r1 hsk =>
  split at h
  · cases h
  next r2 h2 =>
  refine ⟨r0, r1, r2, h0, hsk, h2, ?_⟩
  split at h
  · next r3 hsk2 => exact .inl ⟨r3, hsk2, h⟩
  · next r3 hsk2 => exact .inr (by rw [hsk2, Option.some.inj h])
  · cases h

/-- Text whose first token cannot continue a number cannot either. -/
theorem numEnd_of_skipSpace {r : List Char} (h : numEnd (skipSpace r) = true) :
    numEnd r = true := by
  obtain ⟨ws, hr, hws⟩ := skipSpace_split r
  rw [hr]
  cases ws with
  | nil => exact h
  | cons d ws =>
    rcases isSpace_eq_true (hws d (List.mem_cons_self d ws)) with rfl | rfl | rfl | rfl <;> rfl

/-- The copy of an opening bracket or brace and the whitespace after it. -/
theorem copy_open {o : Char} (ho : plainOutside o = true) {ws : List Char}
    (hws : ∀ c ∈ ws, isSpace c = true) (q : List Char) :
    compactLoop .outside (o :: (ws ++ q)) = o :: compactLoop .outside q ∧
      lexAfter .outside (o :: (ws ++ q)) = lexAfter .outside q := by
  rw [compactLoop_outside_cons o ho, lexAfter_outside_cons ho]
  exact ⟨congrArg (o :: ·) (compactLoop_spaces q ws hws).1, (compactLoop_spaces q ws hws).2⟩

/-- An array or an object: opened by `o`, then whitespace, then either its closing character
    `k` or what `f` reads (its elements with the closing bracket, its members with the closing
    brace). -/
theorem copied_container {o k : Char} {f : Nat → List Char → Option (List Char)} {n : Nat}
    {rest r : List Char} (ho : plainOutside o = true) (hk : plainOutside k = true)
    (hlo : o ≠ ']' ∧ o ≠ '\x7d') (hempty : ∀ m r', scanValue (m + 1) (o :: k :: r') = some r')
    (hopen : ∀ m x, Lead x → scanValue (m + 1) (o :: x) = f m x) (hf : Copies f n)
    (h : skipSpace rest = k :: r ∨ f n (skipSpace rest) = some r) (hr : numEnd r = true) :
    ∃ p, o :: rest = p ++ r ∧ Copied scanValue p := by
  obtain ⟨ws, hrest, hws⟩ := skipSpace_split rest
  rcases h with hsk | h
  · have hC := copy_open ho hws [k]
    refine ⟨o :: (ws ++ [k]), by rw [hrest, hsk]; simp, ⟨⟨?_, fun m r' hm _ => ?_⟩, ?_⟩⟩
    · rw [hC.1]; exact lead_cons ho hlo.1 hlo.2 _
    · rw [hC.1, compactLoop_outside_cons k hk] at hm ⊢
      obtain ⟨m, rfl, -⟩ := exists_succ_of_lt hm
      exact hempty m r'
    · rw [hC.2, lexAfter_outside_cons hk]; rfl
  · obtain ⟨q, hq, hc⟩ := hf _ r h hr
    have hC := copy_open ho hws q
    refine ⟨o :: (ws ++ q), by rw [hrest, hq]; simp, ⟨⟨?_, fun m r' hm hr' => ?_⟩, ?_⟩⟩
    · rw [hC.1]; exact lead_cons ho hlo.1 hlo.2 _
    · rw [hC.1] at hm ⊢
      obtain ⟨m, rfl, hm⟩ := exists_succ_of_lt hm
      simp only [List.length_cons] at hm
      rw [List.cons_append, hopen m _ (hc.lead.append r')]
      exact hc.scan m r' (by omega) hr'
    · rw [hC.2]; exact hc.closed

/-- The scanner's dispatch on a container's first character, when what follows starts a token
    that closes nothing. -/
theorem scanValue_open {m : Nat} {x : List Char} (hx : Lead x) :
    scanValue (m + 1) ('[' :: x) = scanElems m x ∧
      scanValue (m + 1) ('\x7b' :: x) = scanMembers m x := by
  have hs : skipSpace x = x := by simpa using hx.skipSpace []
  have hne := hx.ne_close []
  simp only [List.append_nil] at hne
  constructor
  · rw [scanValue, if_pos rfl]
    split
    · next r1 heq => rw [hs] at heq; exact absurd heq (hne r1).1
    · rw [hs]
  · rw [scanValue, if_neg (by decide), if_pos rfl]
    split
    · next r1 heq => rw [hs] at heq; exact absurd heq (hne r1).2
    · rw [hs]

/-- **One more unit of fuel, one more level of values.** If the copies of the elements and members
    read with fuel `n` are read again, so are the copies of the values read with fuel `n + 1`. -/
theorem copies_value_succ {n : Nat} (hE : Copies scanElems n) (hM : Copies scanMembers n) :
    Copies scanValue (n + 1) := by
  intro t r h hr
  cases t with
  | nil => cases h
  | cons c rest =>
    cases scanValue_dispatch h with
    | array hd =>
      exact copied_container (k := ']') rfl rfl (by decide) (fun _ _ => rfl)
        (fun _ _ hx => (scanValue_open hx).1) hE hd hr
    | object hd =>
      exact copied_container (k := '\x7d') rfl rfl (by decide) (fun _ _ => rfl)
        (fun _ _ hx => (scanValue_open hx).2) hM hd hr
    | string hd =>
      obtain ⟨b, rfl, hl, hs⟩ := scanString_compact rest r hd
      refine ⟨'"' :: b, rfl, ⟨⟨⟨'"', _, rfl, rfl, by decide, by decide⟩, fun m r' hm _ => ?_⟩, hl⟩⟩
      obtain ⟨m, rfl, -⟩ := exists_succ_of_lt hm
      exact hs r'
    | lit_true hd | lit_false hd | lit_null hd =>
      exact copied_word hd (by decide) (by decide) fun _ _ => rfl
    | number hne hd => exact copied_number hd hr hne

/-- **The elements of an array.** If the copies of the values and of the elements read with fuel
    `n` are read again, so are the copies of the elements read with fuel `n + 1`: a value, then
    whitespace, and a comma and the next elements, or the closing bracket. -/
theorem copies_elems_succ {n : Nat} (hV : Copies scanValue n) (hE : Copies scanElems n) :
    Copies scanElems (n + 1) := by
  intro cs r h hr
  obtain ⟨r0, h0, hnext⟩ := scanElems_cases h
  obtain ⟨ws, hr0, hws⟩ := skipSpace_split r0
  rcases hnext with ⟨r1, hsk, hn⟩ | hsk
  · obtain ⟨p, rfl, hp⟩ := hV cs r0 h0 (numEnd_of_skipSpace (by rw [hsk]; rfl))
    obtain ⟨ws', hr1, hws'⟩ := skipSpace_split r1
    obtain ⟨q, hq, hc⟩ := hE _ r hn hr
    have hC := compactLoop_closed hp.closed (ws ++ ',' :: (ws' ++ q))
    have hS := compactLoop_spaces (',' :: (ws' ++ q)) ws hws
    have hS' := compactLoop_spaces q ws' hws'
    have hcopy : compactLoop .outside (p ++ (ws ++ ',' :: (ws' ++ q))) =
        compactLoop .outside p ++ ',' :: compactLoop .outside q := by
      rw [hC.1, hS.1, compactLoop_outside_cons ',' rfl, hS'.1]
    refine ⟨p ++ (ws ++ ',' :: (ws' ++ q)), by rw [hr0, hsk, hr1, hq]; simp,
      ⟨⟨by rw [hcopy]; exact hp.lead.append _, fun m r' hm hr' => ?_⟩,
        by rw [hC.2, hS.2, lexAfter_outside_cons (c := ',') rfl, hS'.2, hc.closed]⟩⟩
    rw [hcopy] at hm ⊢
    obtain ⟨m, rfl, hm⟩ := exists_succ_of_lt hm
    simp only [List.length_append, List.length_cons] at hm
    have hv := hp.scan m (',' :: (compactLoop .outside q ++ r')) (by omega) rfl
    simp only [scanElems, List.append_assoc, List.cons_append, hv,
      skipSpace_cons_of_not (rfl : isSpace ',' = false), hc.lead.skipSpace]
    exact hc.scan m r' (by omega) hr'
  · obtain ⟨p, rfl, hp⟩ := hV cs r0 h0 (numEnd_of_skipSpace (by rw [hsk]; rfl))
    have hC := compactLoop_closed hp.closed (ws ++ [']'])
    have hS := compactLoop_spaces [']'] ws hws
    have hcopy : compactLoop .outside (p ++ (ws ++ [']'])) = compactLoop .outside p ++ [']'] := by
      rw [hC.1, hS.1]; rfl
    refine ⟨p ++ (ws ++ [']']), by rw [hr0, hsk]; simp,
      ⟨⟨by rw [hcopy]; exact hp.lead.append _, fun m r' hm _ => ?_⟩, by rw [hC.2, hS.2]; rfl⟩⟩
    rw [hcopy] at hm ⊢
    obtain ⟨m, rfl, hm⟩ := exists_succ_of_lt hm
    simp only [List.length_append, List.length_singleton] at hm
    have hv := hp.scan m (']' :: r') (by omega) rfl
    simp only [scanElems, List.append_assoc, List.singleton_append, hv,
      skipSpace_cons_of_not (rfl : isSpace ']' = false)]

/-- A member's key, colon and value, with the whitespace between them, as the copy writes them. -/
theorem copy_member {kb ws1 ws2 pv : List Char} (hkl : lexAfter .inString kb = .outside)
    (hws1 : ∀ c ∈ ws1, isSpace c = true) (hws2 : ∀ c ∈ ws2, isSpace c = true)
    (hp : lexAfter .outside pv = .outside) (x : List Char) :
    compactLoop .outside ('"' :: (kb ++ (ws1 ++ ':' :: (ws2 ++ (pv ++ x))))) =
        '"' :: (compactLoop .inString kb ++ ':' :: (compactLoop .outside pv ++
          compactLoop .outside x)) ∧
      lexAfter .outside ('"' :: (kb ++ (ws1 ++ ':' :: (ws2 ++ (pv ++ x))))) =
        lexAfter .outside x := by
  have h1 := compactLoop_spaces (':' :: (ws2 ++ (pv ++ x))) ws1 hws1
  have h2 := compactLoop_spaces (pv ++ x) ws2 hws2
  have h3 := compactLoop_closed hp x
  constructor
  · show '"' :: compactLoop .inString (kb ++ _) = _
    rw [compactLoop_append, hkl, h1.1, compactLoop_outside_cons ':' rfl, h2.1, h3.1]
  · show lexAfter .inString (kb ++ _) = _
    rw [lexAfter_append, hkl, h1.2, lexAfter_outside_cons (c := ':') rfl, h2.2, h3.2]

/-- **The members of an object.** If the copies of the values and of the members read with fuel
    `n` are read again, so are the copies of the members read with fuel `n + 1`: a key, a colon, a
    value, then whitespace, and a comma and the next members, or the closing brace. -/
theorem copies_members_succ {n : Nat} (hV : Copies scanValue n) (hM : Copies scanMembers n) :
    Copies scanMembers (n + 1) := by
  intro cs r h hr
  cases cs with
  | nil => cases h
  | cons c cs =>
  obtain ⟨rfl, r0, r1, r2, h0, hsk, h2, hnext⟩ := scanMembers_cases h
  obtain ⟨kb, rfl, hkl, hks⟩ := scanString_compact cs r0 h0
  obtain ⟨ws1, hr0, hws1⟩ := skipSpace_split r0
  obtain ⟨ws2, hr1, hws2⟩ := skipSpace_split r1
  obtain ⟨ws3, hr2, hws3⟩ := skipSpace_split r2
  rcases hnext with ⟨r3, hsk2, hn⟩ | hsk2
  · obtain ⟨pv, hpv, hp⟩ := hV _ r2 h2 (numEnd_of_skipSpace (by rw [hsk2]; rfl))
    obtain ⟨ws4, hr3, hws4⟩ := skipSpace_split r3
    obtain ⟨q, hq, hc⟩ := hM _ r hn hr
    have hmem := copy_member hkl hws1 hws2 hp.closed (ws3 ++ ',' :: (ws4 ++ q))
    have hS := compactLoop_spaces (',' :: (ws4 ++ q)) ws3 hws3
    have hS' := compactLoop_spaces q ws4 hws4
    have hcopy : compactLoop .outside
        ('"' :: (kb ++ (ws1 ++ ':' :: (ws2 ++ (pv ++ (ws3 ++ ',' :: (ws4 ++ q))))))) =
        '"' :: (compactLoop .inString kb ++ ':' :: (compactLoop .outside pv ++
          ',' :: compactLoop .outside q)) := by
      rw [hmem.1, hS.1, compactLoop_outside_cons ',' rfl, hS'.1]
    refine ⟨'"' :: (kb ++ (ws1 ++ ':' :: (ws2 ++ (pv ++ (ws3 ++ ',' :: (ws4 ++ q)))))),
      by rw [hr0, hsk, hr1, hpv, hr2, hsk2, hr3, hq]; simp,
      ⟨⟨by rw [hcopy]; exact ⟨'"', _, rfl, rfl, by decide, by decide⟩, fun m r' hm hr' => ?_⟩,
        by rw [hmem.2, hS.2, lexAfter_outside_cons (c := ',') rfl, hS'.2, hc.closed]⟩⟩
    rw [hcopy] at hm ⊢
    obtain ⟨m, rfl, hm⟩ := exists_succ_of_lt hm
    simp only [List.length_append, List.length_cons] at hm
    have hv := hp.scan m (',' :: (compactLoop .outside q ++ r')) (by omega) rfl
    simp only [List.append_assoc, List.cons_append]
    simp only [scanMembers, ne_eq, not_true_eq_false, ↓reduceIte, hks,
      skipSpace_cons_of_not (rfl : isSpace ':' = false), hp.lead.skipSpace, hv,
      skipSpace_cons_of_not (rfl : isSpace ',' = false), hc.lead.skipSpace]
    exact hc.scan m r' (by omega) hr'
  · obtain ⟨pv, hpv, hp⟩ := hV _ r2 h2 (numEnd_of_skipSpace (by rw [hsk2]; rfl))
    have hmem := copy_member hkl hws1 hws2 hp.closed (ws3 ++ ['\x7d'])
    have hS := compactLoop_spaces ['\x7d'] ws3 hws3
    have hcopy : compactLoop .outside
        ('"' :: (kb ++ (ws1 ++ ':' :: (ws2 ++ (pv ++ (ws3 ++ ['\x7d'])))))) =
        '"' :: (compactLoop .inString kb ++ ':' :: (compactLoop .outside pv ++ ['\x7d'])) := by
      rw [hmem.1, hS.1]; rfl
    refine ⟨'"' :: (kb ++ (ws1 ++ ':' :: (ws2 ++ (pv ++ (ws3 ++ ['\x7d']))))),
      by rw [hr0, hsk, hr1, hpv, hr2, hsk2]; simp,
      ⟨⟨by rw [hcopy]; exact ⟨'"', _, rfl, rfl, by decide, by decide⟩, fun m r' hm _ => ?_⟩,
        by rw [hmem.2, hS.2]; rfl⟩⟩
    rw [hcopy] at hm ⊢
    obtain ⟨m, rfl, hm⟩ := exists_succ_of_lt hm
    simp only [List.length_append, List.length_cons, List.length_singleton] at hm
    have hv := hp.scan m ('\x7d' :: r') (by omega) rfl
    simp only [List.append_assoc, List.cons_append, List.nil_append]
    simp only [scanMembers, ne_eq, not_true_eq_false, ↓reduceIte, hks,
      skipSpace_cons_of_not (rfl : isSpace ':' = false), hp.lead.skipSpace, hv,
      skipSpace_cons_of_not (rfl : isSpace '\x7d' = false)]

/-! ## 6. Every text the scanner accepts -/

theorem copies_zero : Copies scanValue 0 ∧ Copies scanElems 0 ∧ Copies scanMembers 0 :=
  ⟨(fun _ _ h _ => nomatch h), (fun _ _ h _ => nomatch h), (fun _ _ h _ => nomatch h)⟩

/-- With any fuel, every value, array body and object body the scanner reads has a copy that it
    reads again. -/
theorem copies_all : ∀ n, Copies scanValue n ∧ Copies scanElems n ∧ Copies scanMembers n
  | 0 => copies_zero
  | n + 1 =>
    have ih := copies_all n
    ⟨copies_value_succ ih.2.1 ih.2.2, copies_elems_succ ih.1 ih.2.1,
      copies_members_succ ih.1 ih.2.2⟩

/-- The copy of a valid text is the copy of its one value, which the scanner reads whole. -/
theorem checkValid_copied {src : List Char} (h : checkValid src = true) :
    ∃ p, compactLoop .outside src = compactLoop .outside p ∧ Copied scanValue p := by
  replace h := ((Bool.and_eq_true _ _).mp h).1
  unfold scanValid at h
  split at h
  · next r hs =>
    obtain ⟨ws, hsrc, hws⟩ := skipSpace_split src
    obtain ⟨ws', hr, hws'⟩ := skipSpace_split r
    have hr0 : skipSpace r = [] := List.isEmpty_iff.mp h
    obtain ⟨p, hp, hc⟩ := (copies_all _).1 _ r hs (numEnd_of_skipSpace (by rw [hr0]; rfl))
    refine ⟨p, ?_, hc⟩
    rw [hsrc, hp, hr, hr0, (compactLoop_spaces _ ws hws).1, (compactLoop_closed hc.closed _).1,
      (compactLoop_spaces [] ws' hws').1, compactLoop_nil, List.append_nil]
  · cases h

/-- The copy of a valid text is read whole. -/
theorem compact_whole {src : List Char} (h : checkValid src = true) :
    Whole scanValue (compactLoop .outside src) := by
  obtain ⟨p, hC, hc⟩ := checkValid_copied h
  rw [hC]
  exact hc.toWhole

/-! ## 7. Copying a copy -/

end Jrpc2