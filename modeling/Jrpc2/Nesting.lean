/-
  File:      Jrpc2/Nesting.lean
  Subject:   The scanner's nesting limit (`nestOK`, Scanner.lean) read part by part. What is fixed
             here is used by every file after it: `compact`'s copy has the depths of the text it
             copies, the texts the decoder's walks keep pass the limit whenever the whole text
             did, and the text `json.Marshal` writes for a value passes it whenever the value is
             nested no deeper than `maxNestingDepth`.

  * `Flat`, `nestOK_flats`, `nestOK_cons` -- what one character does to the test; a character
    that opens, closes and quotes nothing leaves it as it is;
  * `nestOK_append`, `nestOK_mono` -- the test of a text holds of its first part from the same
    count and of the rest from some count; a smaller count passes where a larger one does;
  * `nestOK_compactLoop`, **`compact_valid`** -- the copy has the text's depths, so what
    `compact` writes passes `checkValid`;
  * `nestOK_scanString`, `nestOK_value` -- a string literal the scanner reads ends between
    tokens at the count it started at; the text of a value the scanner reads passes on its own;
  * `Json.depth`, **`nestOK_render`** -- a rendered value's text passes from a count `d` within
    the limit exactly when `d` plus its depth is within it; so `json.Marshal`'s text of a valid
    value passes `checkValid` exactly when the value is nested no deeper than the limit
    (**`checkValid_render_eq`**);
  * `Bal`, `Closes` -- texts that close what they open, and one bracket more: their test splits
    at their end, so the test of an object is that of its members (RawObject.lean).

  NOT here: the texts the walks keep (Rescan.lean); the messages of `*json.SyntaxError`.
-/
import Jrpc2.CompactScan

namespace Jrpc2

/-! ## 1. One character at a time -/

/-- A character the depth test passes over between tokens: it opens, closes and quotes
    nothing. -/
def Flat (c : Char) : Prop := c ≠ '[' ∧ c ≠ '\x7b' ∧ c ≠ ']' ∧ c ≠ '\x7d' ∧ c ≠ '"'

instance : DecidablePred Flat := fun _ => inferInstanceAs (Decidable (_ ∧ _ ∧ _ ∧ _ ∧ _))

theorem nestOK_flat {c : Char} (hc : Flat c) (d : Nat) (r : List Char) :
    nestOK .outside d (c :: r) = nestOK .outside d r := by
  obtain ⟨h1, h2, h3, h4, h5⟩ := hc
  simp [nestOK, h1, h2, h3, h4, h5]

theorem nestOK_flats (r : List Char) (d : Nat) : ∀ t : List Char, (∀ c ∈ t, Flat c) →
    nestOK .outside d (t ++ r) = nestOK .outside d r
  | [], _ => rfl
  | c :: t, ht => by
    rw [List.cons_append, nestOK_flat (ht c (List.mem_cons_self c t))]
    exact nestOK_flats r d t fun e he => ht e (List.mem_cons_of_mem c he)

theorem flat_of_isSpace {c : Char} (h : isSpace c = true) : Flat c := by
  rcases isSpace_eq_true h with rfl | rfl | rfl | rfl <;> decide

theorem flat_of_numChar {c : Char} (h : numChar c = true) : Flat c := by
  simp only [numChar, Bool.or_eq_true, decide_eq_true_eq] at h
  rcases h with ((((hd | rfl) | rfl) | rfl) | rfl) | rfl
  · have hn : 48 ≤ c.toNat ∧ c.toNat ≤ 57 := by
      simpa only [Char.isDigit, Bool.and_eq_true, decide_eq_true_eq] using hd
    have hdig : ∀ k < 10, Flat (Char.ofNat (48 + k)) := by decide
    have := hdig (c.toNat - 48) (by omega)
    rwa [show 48 + (c.toNat - 48) = c.toNat by omega, Char.ofNat_toNat] at this
  all_goals decide

/-- Whitespace leaves the test as it is. -/
theorem nestOK_skipSpace (s : List Char) (d : Nat) :
    nestOK .outside d s = nestOK .outside d (skipSpace s) := by
  obtain ⟨ws, hs, hws⟩ := skipSpace_split s
  calc nestOK .outside d s = nestOK .outside d (ws ++ skipSpace s) := congrArg _ hs
    _ = _ := nestOK_flats _ d ws fun c h => flat_of_isSpace (hws c h)

/-- **One character of the test.** The test reads a character and goes on from the scanner's
    next state, with a count that depends only on the character, and fails only there: at an
    opening character past the limit. -/
theorem nestOK_cons (st : Lex) (d : Nat) (c : Char) :
    ∃ g d', ∀ r, nestOK st d (c :: r) = (g && nestOK (lexAfter st [c]) d' r) := by
  cases st with
  | outside =>
    by_cases ho : c = '[' ∨ c = '\x7b'
    · exact ⟨_, d + 1, fun r => by rcases ho with rfl | rfl <;> rfl⟩
    by_cases hc : c = ']' ∨ c = '\x7d'
    · exact ⟨true, d - 1, fun r => by rcases hc with rfl | rfl <;> rfl⟩
    by_cases hq : c = '"'
    · exact ⟨true, d, fun r => by subst hq; rfl⟩
    refine ⟨true, d, fun r => ?_⟩
    rw [nestOK, if_neg ho, if_neg hc, if_neg hq, Bool.true_and]
    simp [lexAfter, hq]
  | inString =>
    by_cases hb : c = '\\'
    · exact ⟨true, d, fun r => by subst hb; rfl⟩
    by_cases hq : c = '"'
    · exact ⟨true, d, fun r => by subst hq; rfl⟩
    refine ⟨true, d, fun r => ?_⟩
    rw [nestOK, if_neg hb, if_neg hq, Bool.true_and]
    simp [lexAfter, hb, hq]
  | escape => exact ⟨true, d, fun r => rfl⟩

/-! ## 2. A text, part by part -/

/-- The test of a text holds of its first part, from the same count, and of the rest, from the
    state the scanner is in there and some count. -/
theorem nestOK_append (b : List Char) : ∀ (a : List Char) (st : Lex) (d : Nat),
    nestOK st d (a ++ b) = true → nestOK st d a = true ∧ ∃ d', nestOK (lexAfter st a) d' b = true
  | [], st, d, h => ⟨by cases st <;> rfl, d, by cases st <;> exact h⟩
  | c :: a, st, d, h => by
    obtain ⟨g, d', hs⟩ := nestOK_cons st d c
    rw [List.cons_append, hs, Bool.and_eq_true] at h
    obtain ⟨ha, d'', hb⟩ := nestOK_append b a _ d' h.2
    refine ⟨by rw [hs, h.1, ha]; rfl, d'', ?_⟩
    rwa [show c :: a = [c] ++ a from rfl, lexAfter_append]

/-- A smaller count passes where a larger one does: the count only ever meets the limit from
    below. -/
theorem nestOK_mono : ∀ (t : List Char) (st : Lex) {d d' : Nat}, d' ≤ d →
    nestOK st d t = true → nestOK st d' t = true
  | [], st, _, _, _, _ => by cases st <;> rfl
  | c :: t, .outside, d, d', hd, h => by
    simp only [nestOK] at h ⊢
    split_ifs at h ⊢
    · simp only [Bool.and_eq_true, decide_eq_true_eq] at h ⊢
      exact ⟨by omega, nestOK_mono t .outside (by omega) h.2⟩
    · exact nestOK_mono t .outside (by omega) h
    · exact nestOK_mono t .inString hd h
    · exact nestOK_mono t .outside hd h
  | c :: t, .inString, _, _, hd, h => by
    simp only [nestOK] at h ⊢
    split_ifs at h ⊢ <;> exact nestOK_mono t _ hd h
  | _ :: t, .escape, _, _, hd, h => nestOK_mono t .inString hd h

/-- A text that passes `scanValid` and the depth test from count 0 passes `checkValid`. -/
theorem checkValid_of {p : List Char} (hw : Whole scanValue p) (hn : nestOK .outside 0 p = true) :
    checkValid p = true := by
  rw [checkValid, hw.one_value, hn]
  rfl

/-! ## 3. The copy keeps the depths -/

/-- What the copy writes for one character, the test reads as that character, in every
    state. -/
theorem nestOK_htmlEscape (st : Lex) (d : Nat) (c : Char) (x : List Char) :
    nestOK st d (htmlEscape c ++ x) = nestOK st d (c :: x) := by
  unfold htmlEscape
  split_ifs with h1 h2
  · rcases h1 with rfl | rfl | rfl <;> cases st <;> rfl
  · rcases h2 with rfl | rfl <;> cases st <;> rfl
  · rfl

/-- The copy has the depths of the text it copies, from every state and count. -/
theorem nestOK_compactLoop (p : List Char) :
    ∀ st d, nestOK st d (compactLoop st p) = nestOK st d p := by
  induction p with
  | nil => intro st d; rw [compactLoop_nil]
  | cons c p ih =>
    intro st d
    obtain ⟨g, d', hs⟩ := nestOK_cons st d c
    cases st with
    | outside =>
      by_cases hsp : isSpace c
      · rw [compactLoop, if_pos hsp, ih, nestOK_flat (flat_of_isSpace hsp)]
      by_cases hq : c = '"'
      · subst hq; exact ih .inString d
      rw [compactLoop, if_neg hsp, if_neg hq, nestOK_htmlEscape, hs, hs,
        show lexAfter .outside [c] = .outside by simp [lexAfter, hsp, hq], ih]
    | inString =>
      by_cases hb : c = '\\'
      · subst hb; exact ih .escape d
      by_cases hq : c = '"'
      · subst hq; exact ih .outside d
      rw [compactLoop, if_neg hb, if_neg hq, nestOK_htmlEscape, hs, hs,
        show lexAfter .inString [c] = .inString by simp [lexAfter, hb, hq], ih]
    | escape => rw [compactLoop, nestOK_htmlEscape]; exact ih .inString d

theorem nestOK_inString_cons {c : Char} (h1 : c ≠ '\\') (h2 : c ≠ '"') (d : Nat)
    (r : List Char) : nestOK .inString d (c :: r) = nestOK .inString d r := by
  simp [nestOK, h1, h2]

theorem nestOK_inString_hex {c : Char} (h : isHex c = true) (d : Nat) (r : List Char) :
    nestOK .inString d (c :: r) = nestOK .inString d r :=
  have hc := plainInString_spec (plainInString_of_isHex h)
  nestOK_inString_cons hc.1 hc.2.1 d r

/-- A string literal the scanner reads after its opening quote ends between tokens at the count
    it started at. -/
theorem nestOK_scanString (cs : List Char) : ∀ r, scanString cs = some r →
    ∀ d, nestOK .inString d cs = nestOK .outside d r := by
  induction cs using scanString.induct with
  | case1 rest =>
    intro r h d
    obtain rfl : rest = r := Option.some.inj h
    rfl
  | case2 a b c e rest hx ih =>
    intro r h d
    rw [scanString_unicode hx] at h
    simp only [Bool.and_eq_true] at hx
    show nestOK .inString d (a :: b :: c :: e :: rest) = _
    rw [nestOK_inString_hex hx.1.1.1, nestOK_inString_hex hx.1.1.2, nestOK_inString_hex hx.1.2,
      nestOK_inString_hex hx.2]
    exact ih r h d
  | case3 a b c e rest hx =>
    intro r h
    rw [scanString, if_neg hx] at h
    cases h
  | case4 c rest _ hesc ih =>
    intro r h d
    rcases hesc with rfl | rfl | rfl | rfl | rfl | rfl | rfl | rfl <;> exact ih r h d
  | case5 c rest hu hesc =>
    intro r h
    rw [scanString.eq_3 c rest hu, if_neg hesc] at h
    cases h
  | case6 c rest hq hu hb hlt =>
    intro r h
    rw [scanString.eq_4 c rest hq hu hb, if_pos hlt] at h
    cases h
  | case7 c rest hq hu hb hlt ih =>
    intro r h d
    rw [scanString.eq_4 c rest hq hu hb, if_neg hlt] at h
    rw [nestOK_inString_cons (ne_backslash_of_read hb h) hq]
    exact ih r h d
  | case8 => intro r h; cases h

/-- The text of a value the scanner reads, up to what cannot continue a number, passes the test
    on its own from count 0, and the test goes on after it between tokens. -/
theorem nestOK_value {n : Nat} {t r : List Char} (h : scanValue n t = some r)
    (hr : numEnd r = true) {d : Nat} (hn : nestOK .outside d t = true) :
    nestOK .outside 0 (t.take (t.length - r.length)) = true ∧ ∃ d', nestOK .outside d' r = true := by
  obtain ⟨p, rfl, hp⟩ := (copies_all n).1 t r h hr
  obtain ⟨h1, d', h2⟩ := nestOK_append r p .outside d hn
  rw [take_sub_length]
  exact ⟨nestOK_mono p .outside (Nat.zero_le d) h1, d', by rwa [hp.closed] at h2⟩

/-! ## 5. The depth of a value -/

mutual
/-- How deep a value's arrays and objects nest: one more than its deepest element or member
    for an array or an object, none for any other value. -/
def Json.depth : Json → Nat
  | .array xs => Json.depthElems xs + 1
  | .object kvs => Json.depthMembers kvs + 1
  | _ => 0
/-- The depth of the deepest element. -/
def Json.depthElems : List Json → Nat
  | [] => 0
  | x :: xs => max x.depth (Json.depthElems xs)
/-- The depth of the deepest member's value. -/
def Json.depthMembers : List (String × Json) → Nat
  | [] => 0
  | (_, v) :: kvs => max v.depth (Json.depthMembers kvs)
end

theorem nestOK_quote (s : String) (d : Nat) (x : List Char) :
    nestOK .outside d ((quote s).data ++ x) = nestOK .outside d x := by
  rw [quote_data, String.data_join, List.map_map]
  simp only [List.cons_append, List.append_assoc, List.singleton_append]
  exact nestOK_scanString _ x (scanString_escaped s.data x) d

theorem nestOK_number {t : List Char} (ht : numberLit t = true) (d : Nat) (x : List Char) :
    nestOK .outside d (t ++ x) = nestOK .outside d x := by
  obtain ⟨p, rfl, hp⟩ := scanNumber_rest (beq_iff_eq.mp ht)
  rw [List.append_nil]
  exact nestOK_flats x d p fun c h => flat_of_numChar (hp c h)

theorem nestOK_open {o : Char} (ho : o = '[' ∨ o = '\x7b') (d : Nat) (r : List Char) :
    nestOK .outside d (o :: r) = (decide (d + 1 ≤ maxNestingDepth) && nestOK .outside (d + 1) r) := by
  rw [nestOK, if_pos ho]

theorem nestOK_close {k : Char} (hk : k = ']' ∨ k = '\x7d') (d : Nat) (r : List Char) :
    nestOK .outside (d + 1) (k :: r) = nestOK .outside d r := by
  rcases hk with rfl | rfl <;> rfl

/-- A count plus the larger of two depths is within the limit when it is with each. -/
theorem decide_add_max (d a b : Nat) :
    decide (d + max a b ≤ maxNestingDepth) =
      (decide (d + a ≤ maxNestingDepth) && decide (d + b ≤ maxNestingDepth)) := by
  rw [Bool.eq_iff_iff]
  simp only [decide_eq_true_eq, Bool.and_eq_true]
  omega

/-- An array or an object, opened at count `d` within the limit, passes exactly when its body,
    from count `d + 1`, does and the count plus the body's depth and one is within the limit. -/
theorem nestOK_container {o k : Char} (ho : o = '[' ∨ o = '\x7b') {body : List Char} {e d : Nat}
    (x : List Char)
    (hbody : d + 1 ≤ maxNestingDepth → nestOK .outside (d + 1) (body ++ k :: x) =
      (decide (d + 1 + e ≤ maxNestingDepth) && nestOK .outside d x)) :
    nestOK .outside d (o :: (body ++ [k]) ++ x) =
      (decide (d + (e + 1) ≤ maxNestingDepth) && nestOK .outside d x) := by
  rw [List.cons_append, nestOK_open ho, List.append_assoc, List.singleton_append]
  by_cases h1 : d + 1 ≤ maxNestingDepth
  · rw [hbody h1, decide_eq_true h1, Bool.true_and, Nat.add_comm e 1, Nat.add_assoc]
  · rw [decide_eq_false h1, decide_eq_false (by omega), Bool.false_and, Bool.false_and]

mutual
/-- **A value renders within the limit exactly when it is nested within it.** From a count `d`
    within the limit, the test of the text `json.Marshal` writes for a valid value, followed by
    anything, passes exactly when `d` plus the value's depth is within `maxNestingDepth` and the
    test of what follows passes. -/
theorem nestOK_render : ∀ (j : Json) (d : Nat) (x : List Char), j.valid = true →
    d ≤ maxNestingDepth → nestOK .outside d (j.render.data ++ x) =
      (decide (d + j.depth ≤ maxNestingDepth) && nestOK .outside d x)
  | .null, d, _, _, hd => show _ = (decide (d ≤ _) && _) by rw [decide_eq_true hd]; rfl
  | .bool true, d, _, _, hd => show _ = (decide (d ≤ _) && _) by rw [decide_eq_true hd]; rfl
  | .bool false, d, _, _, hd => show _ = (decide (d ≤ _) && _) by rw [decide_eq_true hd]; rfl
  | .number _, d, x, hv, hd => show _ = (decide (d ≤ _) && _) by
    rw [decide_eq_true hd, Bool.true_and]; exact nestOK_number hv d x
  | .string s, d, x, _, hd => show _ = (decide (d ≤ _) && _) by
    rw [decide_eq_true hd, Bool.true_and]; exact nestOK_quote s d x
  | .array xs, d, x, hv, _ => by
    rw [Json.depth, render_array]
    exact nestOK_container (.inl rfl) x fun h1 => nestOK_renderElems xs (d + 1) _ hv h1
  | .object kvs, d, x, hv, _ => by
    rw [Json.depth, render_object]
    exact nestOK_container (.inr rfl) x fun h1 =>
      nestOK_renderMembers kvs (d + 1) _ hv h1

theorem nestOK_renderElems : ∀ (xs : List Json) (d : Nat) (x : List Char),
    Json.validElems xs = true → d ≤ maxNestingDepth →
      nestOK .outside d ((Json.renderElems xs).data ++ x) =
        (decide (d + Json.depthElems xs ≤ maxNestingDepth) && nestOK .outside d x)
  | [], _, _, _, hd => by rw [Json.depthElems, Nat.add_zero, decide_eq_true hd, Bool.true_and]; rfl
  | [y], d, x, hv, hd => by
    rw [Json.depthElems, Json.depthElems, Nat.max_zero]
    exact nestOK_render y d x ((Bool.and_eq_true _ _).mp hv).1 hd
  | y :: z :: zs, d, x, hv, hd => by
    replace hv := (Bool.and_eq_true _ _).mp hv
    rw [Json.depthElems, decide_add_max, Bool.and_assoc, renderElems_cons_cons, List.append_assoc,
      nestOK_render y d _ hv.1 hd, List.cons_append, nestOK_flat (by decide),
      nestOK_renderElems (z :: zs) d x hv.2 hd]

theorem nestOK_renderMembers : ∀ (kvs : List (String × Json)) (d : Nat) (x : List Char),
    Json.validMembers kvs = true → d ≤ maxNestingDepth →
      nestOK .outside d ((Json.renderMembers kvs).data ++ x) =
        (decide (d + Json.depthMembers kvs ≤ maxNestingDepth) && nestOK .outside d x)
  | [], _, _, _, hd => by
    rw [Json.depthMembers, Nat.add_zero, decide_eq_true hd, Bool.true_and]; rfl
  | [(k, v)], d, x, hv, hd => by
    rw [renderMembers_single, List.append_assoc, nestOK_quote, List.cons_append,
      nestOK_flat (by decide), nestOK_render v d x ((Bool.and_eq_true _ _).mp hv).1 hd,
      Json.depthMembers, Json.depthMembers, Nat.max_zero]
  | (k, v) :: kv :: kvs, d, x, hv, hd => by
    replace hv := (Bool.and_eq_true _ _).mp hv
    rw [Json.depthMembers, decide_add_max, Bool.and_assoc, renderMembers_cons_cons,
      List.append_assoc, nestOK_quote, List.cons_append, nestOK_flat (by decide),
      List.append_assoc, nestOK_render v d _ hv.1 hd, List.cons_append, nestOK_flat (by decide),
      nestOK_renderMembers (kv :: kvs) d x hv.2 hd]
end

/-- The text of a valid value passes the test from count 0 exactly when the value is nested no
    deeper than the limit. -/
theorem nestOK_render_zero {j : Json} (hv : j.valid = true) :
    nestOK .outside 0 j.render.data = decide (j.depth ≤ maxNestingDepth) := by
  rw [← List.append_nil j.render.data, nestOK_render j 0 [] hv (Nat.zero_le _), Nat.zero_add]
  exact Bool.and_true _

/-- **What `json.Marshal` writes for a valid value passes `checkValid` exactly when the value is
    nested no deeper than `maxNestingDepth`**: one level deeper and the scanner fails it with
    "exceeded max depth". -/
theorem checkValid_render_eq {j : Json} (hv : j.valid = true) :
    checkValid j.render.data = decide (j.depth ≤ maxNestingDepth) := by
  rw [checkValid, scanValid_render j hv, nestOK_render_zero hv, Bool.true_and]

/-- What `json.Marshal` writes for a valid value nested no deeper than the limit passes
    `checkValid`. -/
theorem checkValid_depth {j : Json} (hv : j.valid = true) (hd : j.depth ≤ maxNestingDepth) :
    checkValid j.render.data = true := by
  rw [checkValid_render_eq hv, decide_eq_true hd]

/-! ## 6. Texts that close what they open -/

/-- The test of `p` and whatever follows splits into the test of `p` and of what follows, from
    the same count: `p` closes every bracket it opens. -/
def Bal (p : List Char) : Prop :=
  ∀ d r, nestOK .outside d (p ++ r) = (nestOK .outside d p && nestOK .outside d r)

/-- The same for a text that closes one bracket more than it opens, as an array's elements with
    the closing bracket do: what follows is tested from one count lower. -/
def Closes (p : List Char) : Prop :=
  ∀ d r, nestOK .outside (d + 1) (p ++ r) = (nestOK .outside (d + 1) p && nestOK .outside d r)

theorem Bal.append {p q : List Char} (hp : Bal p) (hq : Bal q) : Bal (p ++ q) := fun d r => by
  rw [List.append_assoc, hp, hq, hp d q, Bool.and_assoc]

theorem Bal.append_closes {p q : List Char} (hp : Bal p) (hq : Closes q) : Closes (p ++ q) :=
  fun d r => by rw [List.append_assoc, hp, hq, hp (d + 1) q, Bool.and_assoc]

theorem flats_of_spaces {ws : List Char} (hws : ∀ c ∈ ws, isSpace c = true) : ∀ c ∈ ws, Flat c :=
  fun c h => flat_of_isSpace (hws c h)

theorem bal_flats {t : List Char} (ht : ∀ c ∈ t, Flat c) : Bal t := fun d r => by
  rw [nestOK_flats r d t ht, ← List.append_nil t, nestOK_flats [] d t ht]
  rfl

theorem closes_flats {t q : List Char} (ht : ∀ c ∈ t, Flat c) (hq : Closes q) : Closes (t ++ q) :=
  (bal_flats ht).append_closes hq

theorem closes_close {k : Char} (hk : k = ']' ∨ k = '\x7d') : Closes [k] := fun d r => by
  rw [List.singleton_append, nestOK_close hk, nestOK_close hk]
  rfl

theorem Closes.open {o : Char} (ho : o = '[' ∨ o = '\x7b') {q : List Char} (hq : Closes q) :
    Bal (o :: q) := fun d r => by
  rw [List.cons_append, nestOK_open ho, nestOK_open ho, hq, Bool.and_assoc]

theorem bal_quote (s : String) : Bal (quote s).data := fun d r => by
  rw [nestOK_quote, ← List.append_nil (quote s).data, nestOK_quote]
  rfl

/-- A string literal the scanner reads to the same closing quote whatever follows it. -/
theorem bal_string {b : List Char} (hb : ∀ r, scanString (b ++ r) = some r) : Bal ('"' :: b) :=
  fun d r => by
    change nestOK .inString d (b ++ r) = (nestOK .inString d b && _)
    rw [nestOK_scanString _ r (hb r), ← List.append_nil b, nestOK_scanString _ [] (hb [])]
    rfl

end Jrpc2
