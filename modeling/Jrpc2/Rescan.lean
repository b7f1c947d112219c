/-
  File:      Jrpc2/Rescan.lean
  Subject:   The text of every value the scanner reads is read again whole from its start: with
             any fuel above its length, and whatever follows it that cannot continue a number.
             So every text the decoder's walks keep for a `json.RawMessage` -- an array's
             element, an object member's value -- passes `checkValid` on its own.

  * `skipSpace_spaces`, `scanString_whole` -- whitespace is skipped as a whole, and a string
    literal is read to the same closing quote whatever follows it;
  * `Wholes`, `wholes_all` -- with any fuel, every value, array body and object body the scanner
    reads is a text it reads again whole (`Whole`, CompactScan.lean; one step per unit of fuel,
    as for the copy), and one that closes what it opens (`Bal`, `Closes`, Nesting.lean); so fuel
    above a text's length suffices (`Wholes.fuel`), and a value's text read whole is balanced
    (`Whole.bal`);
  * `take_valid`, `rawElems_valid`, `rawMembers_kept` -- every text the walks keep is read
    whole, and passes the depth test on its own when the whole text did: so it passes
    `checkValid`;
  * **`unmarshalRaw_valid`**, **`unmarshalMap_valid`** -- so does every element text
    `json.Unmarshal` gives a `[]json.RawMessage`, and every value text it gives a
    `map[string]json.RawMessage`;
  * `scanString_unquote`, `rawMembers_isSome` -- the text inside every string literal the scanner
    reads unquotes, a surrogate pair's two escapes as one character; so the walk reads every
    object body the scanner reads.

  NOT here: what `Args` and `Obj` make of it (Handler/Args.lean, Handler/Obj.lean), and the data
  of an `*Error` (ErrorData.lean).
-/
import Jrpc2.Nesting
import Jrpc2.RawMap

namespace Jrpc2

/-! ## 1. Whitespace and strings -/

theorem skipSpace_spaces {ws : List Char} (hws : ∀ c ∈ ws, isSpace c = true) (x : List Char) :
    skipSpace (ws ++ x) = skipSpace x :=
  List.dropWhile_append_of_pos hws

theorem skipSpace_length_le (s : List Char) : (skipSpace s).length ≤ s.length :=
  (List.dropWhile_suffix isSpace).length_le

/-- Text that starts, after whitespace, with a comma, a colon or a closing character cannot
    continue a number. -/
theorem numEnd_spaces {ws : List Char} (hws : ∀ c ∈ ws, isSpace c = true) {c : Char}
    (hc : isSpace c = false) (hn : numEnd [c] = true) (x : List Char) :
    numEnd (ws ++ c :: x) = true :=
  numEnd_of_skipSpace (by rw [skipSpace_spaces hws, skipSpace_cons_of_not hc]; exact hn)

/-- **A string literal is read to the same closing quote, whatever follows it.** -/
theorem scanString_whole (cs : List Char) : ∀ r, scanString cs = some r →
    ∃ b, cs = b ++ r ∧ ∀ r', scanString (b ++ r') = some r' := by
  induction cs using scanString.induct with
  | case1 rest =>
    intro r h
    obtain rfl : rest = r := Option.some.inj h
    exact ⟨['"'], rfl, fun _ => rfl⟩
  | case2 a b c d rest hx ih =>
    intro r h
    rw [scanString_unicode hx] at h
    obtain ⟨t, rfl, hs⟩ := ih r h
    exact ⟨'\\' :: 'u' :: a :: b :: c :: d :: t, rfl,
      fun r' => (scanString_unicode hx _).trans (hs r')⟩
  | case3 a b c d rest hx =>
    intro r h
    rw [scanString, if_neg hx] at h
    cases h
  | case4 c rest _ hesc ih =>
    intro r h
    rcases hesc with rfl | rfl | rfl | rfl | rfl | rfl | rfl | rfl <;>
    · obtain ⟨t, rfl, hs⟩ := ih r h
      exact ⟨'\\' :: _ :: t, rfl, hs⟩
  | case5 c rest hu hesc =>
    intro r h
    rw [scanString.eq_3 c rest hu, if_neg hesc] at h
    cases h
  | case6 c rest hq hu hb hlt =>
    intro r h
    rw [scanString.eq_4 c rest hq hu hb, if_pos hlt] at h
    cases h
  | case7 c rest hq hu hb hlt ih =>
    intro r h
    rw [scanString.eq_4 c rest hq hu hb, if_neg hlt] at h
    obtain ⟨t, rfl, hs⟩ := ih r h
    exact ⟨c :: t, rfl,
      fun r' => (scanString_plain hq (ne_backslash_of_read hb h) hlt _).trans (hs r')⟩
  | case8 => intro r h; cases h

/-! ## 2. Every text the scanner reads, read again -/

/-- With fuel `n`, every text `f` reads up to what cannot continue a number is one that `f` reads
    again whole, and one of which `B` holds. -/
def Wholes (f : Nat → List Char → Option (List Char)) (B : List Char → Prop) (n : Nat) : Prop :=
  ∀ t r, f n t = some r → numEnd r = true → ∃ p, t = p ++ r ∧ Whole f p ∧ B p

/-- The scanner's dispatch on a container's first character skips the whitespace after it as a
    whole. -/
theorem scanValue_open_spaces {m : Nat} {ws : List Char} (hws : ∀ c ∈ ws, isSpace c = true)
    (x : List Char) :
    scanValue (m + 1) ('[' :: (ws ++ x)) = scanValue (m + 1) ('[' :: x) ∧
      scanValue (m + 1) ('\x7b' :: (ws ++ x)) = scanValue (m + 1) ('\x7b' :: x) := by
  constructor
  · rw [scanValue, scanValue, if_pos rfl, if_pos rfl, skipSpace_spaces hws]
  · rw [scanValue, scanValue, if_neg (by decide), if_pos rfl, if_neg (by decide), if_pos rfl,
      skipSpace_spaces hws]

/-- An array or an object: opened by `o`, then whitespace, then either its closing character
    `k` or what `f` reads (its elements with the closing bracket, its members with the closing
    brace). -/
theorem whole_container {o k : Char} {f : Nat → List Char → Option (List Char)} {n : Nat}
    {rest r : List Char} (ho : o = '[' ∨ o = '\x7b') (hk : k = ']' ∨ k = '\x7d')
    (hlo : isSpace o = false ∧ o ≠ ']' ∧ o ≠ '\x7d')
    (hempty : ∀ m ws r', (∀ c ∈ ws, isSpace c = true) →
      scanValue (m + 1) (o :: (ws ++ k :: r')) = some r')
    (hopen : ∀ m ws x, (∀ c ∈ ws, isSpace c = true) → Lead x →
      scanValue (m + 1) (o :: (ws ++ x)) = f m x) (hf : Wholes f Closes n)
    (h : skipSpace rest = k :: r ∨ f n (skipSpace rest) = some r) (hr : numEnd r = true) :
    ∃ p, o :: rest = p ++ r ∧ Whole scanValue p ∧ Bal p := by
  obtain ⟨ws, hrest, hws⟩ := skipSpace_split rest
  rcases h with hsk | h
  · refine ⟨o :: (ws ++ [k]), by rw [hrest, hsk]; simp, ⟨⟨o, _, rfl, hlo⟩, fun m r' hm _ => ?_⟩,
      Closes.open ho (closes_flats (flats_of_spaces hws) (closes_close hk))⟩
    obtain ⟨m, rfl, -⟩ := exists_succ_of_lt hm
    simpa using hempty m ws r' hws
  · obtain ⟨q, hq, hc, hb⟩ := hf _ r h hr
    refine ⟨o :: (ws ++ q), by rw [hrest, hq]; simp, ⟨⟨o, _, rfl, hlo⟩, fun m r' hm hr' => ?_⟩,
      Closes.open ho (closes_flats (flats_of_spaces hws) hb)⟩
    obtain ⟨m, rfl, hm⟩ := exists_succ_of_lt hm
    simp only [List.length_cons, List.length_append] at hm
    rw [List.cons_append, List.append_assoc, hopen m ws _ hws (hc.lead.append r')]
    exact hc.scan m r' (by omega) hr'

/-- `true`, `false` and `null`: the first letter and the rest of the word. -/
theorem wholes_word {c : Char} {w rest r : List Char} (h : scanWord w rest = some r)
    (hl : isSpace c = false ∧ c ≠ ']' ∧ c ≠ '\x7d') (hf : ∀ x ∈ c :: w, Flat x)
    (hs : ∀ m x, scanValue (m + 1) (c :: x) = scanWord w x) :
    ∃ p, c :: rest = p ++ r ∧ Whole scanValue p ∧ Bal p := by
  obtain rfl := scanWord_some h
  exact ⟨c :: w, rfl, whole_word ⟨c, w, rfl, hl⟩ hs, bal_flats hf⟩

/-- **One more unit of fuel, one more level of values.** If the elements and members read with
    fuel `n` are read again whole, so are the values read with fuel `n + 1`. -/
theorem wholes_value_succ {n : Nat} (hE : Wholes scanElems Closes n)
    (hM : Wholes scanMembers Closes n) : Wholes scanValue Bal (n + 1) := by
  intro t r h hr
  cases t with
  | nil => cases h
  | cons c rest =>
    cases scanValue_dispatch h with
    | array hd =>
      exact whole_container (.inl rfl) (.inl rfl) (by decide)
        (fun m ws r' hws => by rw [(scanValue_open_spaces hws _).1]; rfl)
        (fun m ws x hws hx => by rw [(scanValue_open_spaces hws _).1, (scanValue_open hx).1])
        hE hd hr
    | object hd =>
      exact whole_container (.inr rfl) (.inr rfl) (by decide)
        (fun m ws r' hws => by rw [(scanValue_open_spaces hws _).2]; rfl)
        (fun m ws x hws hx => by rw [(scanValue_open_spaces hws _).2, (scanValue_open hx).2])
        hM hd hr
    | string hd =>
      obtain ⟨b, rfl, hs⟩ := scanString_whole rest r hd
      refine ⟨'"' :: b, rfl, ⟨⟨'"', _, rfl, rfl, by decide, by decide⟩, fun m r' hm _ => ?_⟩,
        bal_string hs⟩
      obtain ⟨m, rfl, -⟩ := exists_succ_of_lt hm
      exact hs r'
    | lit_true hd | lit_false hd | lit_null hd =>
      exact wholes_word hd (by decide) (by decide) fun _ _ => rfl
    | number hne hd =>
      obtain ⟨p, hpr, -, hw⟩ := whole_number hd hr hne
      obtain ⟨p', hp', hnum⟩ := scanNumber_rest hd
      obtain rfl : p' = p := List.append_cancel_right (hp'.symm.trans hpr)
      exact ⟨p', hpr, hw, bal_flats fun x hx => flat_of_numChar (hnum x hx)⟩

/-- **The elements of an array.** If the values and the elements read with fuel `n` are read
    again whole, so are the elements read with fuel `n + 1`: a value, then whitespace, and a comma
    and the next elements, or the closing bracket. -/
theorem wholes_elems_succ {n : Nat} (hV : Wholes scanValue Bal n)
    (hE : Wholes scanElems Closes n) : Wholes scanElems Closes (n + 1) := by
  intro cs r h hr
  obtain ⟨r0, h0, hnext⟩ := scanElems_cases h
  obtain ⟨ws, hr0, hws⟩ := skipSpace_split r0
  rcases hnext with ⟨r1, hsk, hn⟩ | hsk
  · obtain ⟨p, rfl, hp, hbp⟩ := hV cs r0 h0 (numEnd_of_skipSpace (by rw [hsk]; rfl))
    obtain ⟨ws', hr1, hws'⟩ := skipSpace_split r1
    obtain ⟨q, hq, hc, hbq⟩ := hE _ r hn hr
    refine ⟨p ++ (ws ++ ',' :: (ws' ++ q)), by rw [hr0, hsk, hr1, hq]; simp,
      ⟨hp.lead.append _, fun m r' hm hr' => ?_⟩, hbp.append_closes (closes_flats
        (flats_of_spaces hws) (closes_flats (t := [',']) (by decide)
          (closes_flats (flats_of_spaces hws') hbq)))⟩
    obtain ⟨m, rfl, hm⟩ := exists_succ_of_lt hm
    simp only [List.length_append, List.length_cons] at hm
    have hv := hp.scan m (ws ++ ',' :: (ws' ++ (q ++ r'))) (by omega)
      (numEnd_spaces hws (by decide) (by decide) _)
    simp only [scanElems, List.append_assoc, List.cons_append, hv, skipSpace_spaces hws,
      skipSpace_cons_of_not (rfl : isSpace ',' = false), skipSpace_spaces hws', hc.lead.skipSpace]
    exact hc.scan m r' (by omega) hr'
  · obtain ⟨p, rfl, hp, hbp⟩ := hV cs r0 h0 (numEnd_of_skipSpace (by rw [hsk]; rfl))
    refine ⟨p ++ (ws ++ [']']), by rw [hr0, hsk]; simp, ⟨hp.lead.append _, fun m r' hm _ => ?_⟩,
      hbp.append_closes (closes_flats (flats_of_spaces hws) (closes_close (.inl rfl)))⟩
    obtain ⟨m, rfl, hm⟩ := exists_succ_of_lt hm
    simp only [List.length_append, List.length_singleton] at hm
    have hv := hp.scan m (ws ++ ']' :: r') (by omega) (numEnd_spaces hws (by decide) (by decide) _)
    simp only [scanElems, List.append_assoc, List.singleton_append, hv, skipSpace_spaces hws,
      skipSpace_cons_of_not (rfl : isSpace ']' = false)]

/-- The scanner reads a member whose key, value and whitespace it reads whole, then the comma
    and the next members, or the closing brace. -/
theorem scanMembers_spaced {kb ws1 ws2 pv ws3 : List Char}
    (hks : ∀ r', scanString (kb ++ r') = some r') (hws1 : ∀ c ∈ ws1, isSpace c = true)
    (hws2 : ∀ c ∈ ws2, isSpace c = true) (hp : Whole scanValue pv)
    (hws3 : ∀ c ∈ ws3, isSpace c = true) {m : Nat} (hm : pv.length < m) :
    (∀ y, scanMembers (m + 1) ('"' :: (kb ++ (ws1 ++ ':' :: (ws2 ++ (pv ++ (ws3 ++ ',' :: y)))))) =
      scanMembers m (skipSpace y)) ∧
    ∀ r, scanMembers (m + 1) ('"' :: (kb ++ (ws1 ++ ':' :: (ws2 ++ (pv ++ (ws3 ++ '\x7d' :: r)))))) =
      some r := by
  refine ⟨fun y => ?_, fun r => ?_⟩ <;>
    simp only [scanMembers, ne_eq, not_true_eq_false, ↓reduceIte, hks, skipSpace_spaces hws1,
      skipSpace_cons_of_not (rfl : isSpace ':' = false), skipSpace_spaces hws2, hp.lead.skipSpace]
  · simp only [hp.scan m _ hm (numEnd_spaces hws3 (rfl : isSpace ',' = false) (by decide) y),
      skipSpace_spaces hws3, skipSpace_cons_of_not (rfl : isSpace ',' = false)]
  · simp only [hp.scan m _ hm (numEnd_spaces hws3 (rfl : isSpace '\x7d' = false) (by decide) r),
      skipSpace_spaces hws3, skipSpace_cons_of_not (rfl : isSpace '\x7d' = false)]

/-- **The members of an object.** If the values and the members read with fuel `n` are read
    again whole, so are the members read with fuel `n + 1`: a key, a colon, a value, then
    whitespace, and a comma and the next members, or the closing brace. -/
theorem wholes_members_succ {n : Nat} (hV : Wholes scanValue Bal n)
    (hM : Wholes scanMembers Closes n) : Wholes scanMembers Closes (n + 1) := by
  intro cs r h hr
  cases cs with
  | nil => cases h
  | cons c cs =>
  obtain ⟨rfl, r0, r1, r2, h0, hsk, h2, hnext⟩ := scanMembers_cases h
  obtain ⟨kb, rfl, hks⟩ := scanString_whole cs r0 h0
  obtain ⟨ws1, hr0, hws1⟩ := skipSpace_split r0
  obtain ⟨ws2, hr1, hws2⟩ := skipSpace_split r1
  obtain ⟨ws3, hr2, hws3⟩ := skipSpace_split r2
  obtain ⟨pv, hpv, hp, hbv⟩ := hV _ r2 h2 (numEnd_of_skipSpace (by
    rcases hnext with ⟨r3, hsk2, -⟩ | hsk2 <;> rw [hsk2] <;> rfl))
  rcases hnext with ⟨r3, hsk2, hn⟩ | hsk2
  · obtain ⟨ws4, hr3, hws4⟩ := skipSpace_split r3
    obtain ⟨q, hq, hc, hbq⟩ := hM _ r hn hr
    refine ⟨'"' :: (kb ++ (ws1 ++ ':' :: (ws2 ++ (pv ++ (ws3 ++ ',' :: (ws4 ++ q)))))),
      by rw [hr0, hsk, hr1, hpv, hr2, hsk2, hr3, hq]; simp,
      ⟨⟨'"', _, rfl, rfl, by decide, by decide⟩, fun m r' hm hr' => ?_⟩,
      (bal_string hks).append_closes (closes_flats (flats_of_spaces hws1)
        (closes_flats (t := [':']) (by decide) (closes_flats (flats_of_spaces hws2)
          (hbv.append_closes (closes_flats (flats_of_spaces hws3) (closes_flats (t := [','])
            (by decide) (closes_flats (flats_of_spaces hws4) hbq)))))))⟩
    obtain ⟨m, rfl, hm⟩ := exists_succ_of_lt hm
    simp only [List.length_append, List.length_cons, List.append_assoc, List.cons_append] at hm ⊢
    rw [(scanMembers_spaced hks hws1 hws2 hp hws3 (by omega)).1, skipSpace_spaces hws4,
      hc.lead.skipSpace]
    exact hc.scan m r' (by omega) hr'
  · refine ⟨'"' :: (kb ++ (ws1 ++ ':' :: (ws2 ++ (pv ++ (ws3 ++ ['\x7d']))))),
      by rw [hr0, hsk, hr1, hpv, hr2, hsk2]; simp,
      ⟨⟨'"', _, rfl, rfl, by decide, by decide⟩, fun m r' hm _ => ?_⟩,
      (bal_string hks).append_closes (closes_flats (flats_of_spaces hws1)
        (closes_flats (t := [':']) (by decide) (closes_flats (flats_of_spaces hws2)
          (hbv.append_closes (closes_flats (flats_of_spaces hws3) (closes_close (.inr rfl)))))))⟩
    obtain ⟨m, rfl, hm⟩ := exists_succ_of_lt hm
    simp only [List.length_append, List.length_cons, List.length_singleton, List.append_assoc,
      List.cons_append, List.nil_append] at hm ⊢
    exact (scanMembers_spaced hks hws1 hws2 hp hws3 (by omega)).2 r'

theorem wholes_zero :
    Wholes scanValue Bal 0 ∧ Wholes scanElems Closes 0 ∧ Wholes scanMembers Closes 0 :=
  ⟨(fun _ _ h _ => nomatch h), (fun _ _ h _ => nomatch h), (fun _ _ h _ => nomatch h)⟩

/-- With any fuel, every value, array body and object body the scanner reads is read again
    whole. -/
theorem wholes_all :
    ∀ n, Wholes scanValue Bal n ∧ Wholes scanElems Closes n ∧ Wholes scanMembers Closes n
  | 0 => wholes_zero
  | n + 1 =>
    have ih := wholes_all n
    ⟨wholes_value_succ ih.2.1 ih.2.2, wholes_elems_succ ih.1 ih.2.1,
      wholes_members_succ ih.1 ih.2.2⟩

/-- A value's text read whole closes every bracket it opens. -/
theorem Whole.bal {p : List Char} (h : Whole scanValue p) : Bal p := by
  obtain ⟨q, hq, -, hb⟩ := (wholes_all _).1 (p ++ []) [] (h.scan _ [] (Nat.lt_succ_self _) rfl) rfl
  rwa [List.append_cancel_right hq]

/-- **Fuel above the length suffices.** What a scanner reads with some fuel, up to what cannot
    continue a number, it reads with any fuel above the text's length. -/
theorem Wholes.fuel {f : Nat → List Char → Option (List Char)} {B : List Char → Prop} {n : Nat}
    (hf : Wholes f B n) {t r : List Char} (h : f n t = some r) (hr : numEnd r = true) {m : Nat}
    (hm : t.length < m) : f m t = some r := by
  obtain ⟨p, rfl, hp, -⟩ := hf t r h hr
  exact hp.scan m r (by rw [List.length_append] at hm; omega) hr

/-! ## 3. The texts the decoder keeps -/

/-- The text of a value the scanner read, up to a comma or a closing character after
    whitespace, is read whole. -/
theorem take_whole {n : Nat} {t r : List Char} (h : scanValue n t = some r) {c : Char}
    {r1 : List Char} (hsk : skipSpace r = c :: r1) (hc : numEnd [c] = true) :
    Whole scanValue (t.take (t.length - r.length)) := by
  obtain ⟨p, rfl, hp, -⟩ := (wholes_all n).1 t r h (numEnd_of_skipSpace (by rw [hsk]; exact hc))
  rw [take_sub_length]
  exact hp

/-- The text of a value the walk keeps, up to a comma or a closing character after whitespace,
    passes `checkValid` when the text it was read from passed the depth test, and the test goes
    on after that character. -/
theorem take_valid {n : Nat} {t r : List Char} (h : scanValue n t = some r) {c : Char}
    {r1 : List Char} (hsk : skipSpace r = c :: r1) (hc : numEnd [c] = true) {d : Nat}
    (hn : nestOK .outside d t = true) :
    checkValid (t.take (t.length - r.length)) = true ∧ ∃ d', nestOK .outside d' (c :: r1) = true := by
  obtain ⟨h1, d', h2⟩ := nestOK_value h (numEnd_of_skipSpace (by rw [hsk]; exact hc)) hn
  exact ⟨checkValid_of (take_whole h hsk hc) h1, d', by rwa [← hsk, ← nestOK_skipSpace]⟩

theorem nestOK_comma {d : Nat} {r1 : List Char} (h : nestOK .outside d (',' :: r1) = true) :
    nestOK .outside d (skipSpace r1) = true := by
  rwa [nestOK_flat (by decide), nestOK_skipSpace] at h

/-- In a valid text, the test goes on from count 1 after the opening character of its value. -/
theorem nestOK_inside {data r : List Char} {o : Char} (hv : checkValid data = true)
    (heq : skipSpace data = o :: r) (ho : o = '[' ∨ o = '\x7b') :
    nestOK .outside 1 (skipSpace r) = true := by
  have hn := ((Bool.and_eq_true _ _).mp hv).2
  rw [nestOK_skipSpace, heq, nestOK_open ho, Bool.and_eq_true, nestOK_skipSpace] at hn
  exact hn.2

/-- Every element's text the walk over an array keeps is valid, when the array body passes the
    depth test from some count. -/
theorem rawElems_valid : ∀ (n : Nat) (cs : List Char) (elts : List (List Char)) (d : Nat),
    rawElems n cs = some elts → nestOK .outside d cs = true → ∀ t ∈ elts, checkValid t = true
  | 0, _, _, _, h, _ => nomatch h
  | n + 1, cs, elts, d, h, hn => by
    rw [rawElems] at h
    split at h
    · cases h
    next r h0 =>
    split at h
    · next r1 hsk =>
      obtain ⟨rest, hrest, rfl⟩ := Option.map_eq_some'.mp h
      obtain ⟨hv, d', h2⟩ := take_valid h0 hsk rfl hn
      rintro t (_ | ⟨_, ht⟩)
      · exact hv
      · exact rawElems_valid n _ rest d' hrest (nestOK_comma h2) t ht
    · next r1 hsk =>
      cases h
      rintro t (_ | ⟨_, ⟨⟩⟩)
      exact (take_valid h0 hsk rfl hn).1
    · cases h

/-- Every value's text the walk over an object keeps is read whole, and passes the depth test on
    its own when the object body does from some count. -/
theorem rawMembers_kept : ∀ (n : Nat) (cs : List Char) (ms : List (String × List Char)),
    rawMembers n cs = some ms → ∀ kv ∈ ms, Whole scanValue kv.2 ∧
      ∀ d, nestOK .outside d cs = true → nestOK .outside 0 kv.2 = true
  | 0, _, _, h => nomatch h
  | _ + 1, [], _, h => nomatch h
  | n + 1, c :: cs, ms, h => by
    rw [rawMembers] at h
    split_ifs at h with hq
    obtain rfl : c = '"' := not_not.mp hq
    split at h
    · cases h
    next r hs =>
    split at h
    · cases h
    split at h
    swap
    · cases h
    next r1 hsk1 =>
    split at h
    · cases h
    next r2 h2 =>
    have hkey : ∀ d, nestOK .outside d ('"' :: cs) = true →
        nestOK .outside d (skipSpace r1) = true := fun d hn => by
      change nestOK .inString d cs = true at hn
      rwa [nestOK_scanString cs r hs d, nestOK_skipSpace, hsk1, nestOK_flat (by decide),
        nestOK_skipSpace] at hn
    split at h
    · next r3 hsk =>
      obtain ⟨rest, hrest, rfl⟩ := Option.map_eq_some'.mp h
      rintro kv (_ | ⟨_, hkv⟩)
      · exact ⟨take_whole h2 hsk rfl,
          fun d hn => (nestOK_value h2 (numEnd_of_skipSpace (by rw [hsk]; rfl)) (hkey d hn)).1⟩
      · refine ⟨(rawMembers_kept n _ rest hrest kv hkv).1, fun d hn => ?_⟩
        obtain ⟨d', h3⟩ := (take_valid h2 hsk rfl (hkey d hn)).2
        exact (rawMembers_kept n _ rest hrest kv hkv).2 d' (nestOK_comma h3)
    · next r3 hsk =>
      cases h
      rintro kv (_ | ⟨_, ⟨⟩⟩)
      exact ⟨take_whole h2 hsk rfl,
        fun d hn => (nestOK_value h2 (numEnd_of_skipSpace (by rw [hsk]; rfl)) (hkey d hn)).1⟩
    · cases h

/-- Every value's text the walk over an object keeps is valid, when the object body passes the
    depth test from some count. -/
theorem rawMembers_valid {n : Nat} {cs : List Char} {ms : List (String × List Char)}
    (h : rawMembers n cs = some ms) {d : Nat} (hn : nestOK .outside d cs = true) :
    ∀ kv ∈ ms, checkValid kv.2 = true := fun kv hkv =>
  checkValid_of (rawMembers_kept n cs ms h kv hkv).1 ((rawMembers_kept n cs ms h kv hkv).2 d hn)

/-- **Every element `json.Unmarshal` gives a `[]json.RawMessage` is valid.** Whatever the text,
    each element's text that `unmarshalRaw` returns passes `checkValid` on its own: the text of
    one value, without the whitespace around it. -/
theorem unmarshalRaw_valid (data : List Char) (elts : List (List Char))
    (h : unmarshalRaw data = .ok elts) : ∀ t ∈ elts, checkValid t = true := by
  unfold unmarshalRaw at h
  split_ifs at h with hc
  have hv : checkValid data = true := by simpa using hc
  split at h
  · next r heq =>
    split at h
    · cases h; nofun
    · split at h
      · next ms hms =>
        cases h
        exact rawElems_valid _ _ _ 1 hms (nestOK_inside hv heq (.inl rfl))
      · cases h
  · cases h; nofun
  all_goals cases h

example :
    unmarshalRaw " [1, \"x\" ,\x7b\"a\": [ ]\x7d] ".data =
      .ok ["1".data, "\"x\"".data, "\x7b\"a\": [ ]\x7d".data] ∧
    ∀ t ∈ ["1".data, "\"x\"".data, "\x7b\"a\": [ ]\x7d".data], checkValid t = true :=
  ⟨rfl, by decide⟩

theorem lastVal_mem {α : Type} {k : String} {t : α} :
    ∀ {kvs : List (String × α)}, lastVal k kvs = some t → (k, t) ∈ kvs
  | [], h => nomatch h
  | kv :: kvs, h => by
    rw [lastVal] at h
    cases hl : lastVal k kvs with
    | some t' =>
      rw [hl] at h
      cases h
      exact List.mem_cons_of_mem _ (lastVal_mem hl)
    | none =>
      rw [hl, Option.none_or] at h
      split_ifs at h with hk
      cases h
      rw [← hk]
      exact List.mem_cons_self _ _

/-- **Every value `json.Unmarshal` gives a `map[string]json.RawMessage` is valid.** Whatever the
    text, each entry of the map `unmarshalMap` returns holds a text that passes `checkValid` on its
    own: the text of its key's last member's value. -/
theorem unmarshalMap_valid (data : List Char) (base : List (String × List Char))
    (h : unmarshalMap data = .ok base) : ∀ kv ∈ base, checkValid kv.2 = true := by
  unfold unmarshalMap at h
  split_ifs at h with hc
  have hv : checkValid data = true := by simpa using hc
  split at h
  · next r heq =>
    split at h
    · cases h; nofun
    · split at h
      · next ms hms =>
        cases h
        rintro ⟨k, t⟩ hkt
        rcases (mem_foldl_assignKey k t ms []).mp hkt with hl | ⟨-, hnil⟩
        · exact rawMembers_valid hms (nestOK_inside hv heq (.inr rfl)) _ (lastVal_mem hl)
        · nomatch hnil
      · cases h
  · cases h; nofun
  all_goals cases h

example :
    unmarshalMap "\x7b\"a\": 1 , \"b\":[true, null], \"a\":\"z\"\x7d".data =
      .ok [("a", "\"z\"".data), ("b", "[true, null]".data)] ∧
    ∀ kv ∈ [("a", "\"z\"".data), ("b", "[true, null]".data)], checkValid kv.2 = true :=
  ⟨rfl, by decide⟩

/-! ## 4. Keys unquote -/

theorem hexVal_isSome {c : Char} (h : isHex c = true) : (hexVal c).isSome = true := by
  unfold hexVal
  split_ifs with h1 h2 h3
  · rfl
  · rfl
  · rfl
  · simp only [isHex, Char.isDigit, Bool.or_eq_true, Bool.and_eq_true, decide_eq_true_eq] at h
    rcases h with (h | h) | h
    · exact absurd h h1
    · exact absurd h h2
    · exact absurd h h3

theorem hex4_isSome {a b c d : Char} (h : (isHex a && isHex b && isHex c && isHex d) = true) :
    ∃ n, hex4 a b c d = some n := by
  simp only [Bool.and_eq_true] at h
  obtain ⟨⟨⟨ha, hb⟩, hc⟩, hd⟩ := h
  obtain ⟨x, hx⟩ := Option.isSome_iff_exists.mp (hexVal_isSome ha)
  obtain ⟨y, hy⟩ := Option.isSome_iff_exists.mp (hexVal_isSome hb)
  obtain ⟨z, hz⟩ := Option.isSome_iff_exists.mp (hexVal_isSome hc)
  obtain ⟨w, hw⟩ := Option.isSome_iff_exists.mp (hexVal_isSome hd)
  exact ⟨_, by simp only [hex4, hx, hy, hz, hw]; rfl⟩

/-- A `\u` escape that `getu4` reads: a backslash, a `u` and four hex digits. -/
theorem getu4_some {t : List Char} {n : Nat} (h : getu4 t = some n) :
    ∃ e f g k t', t = '\\' :: 'u' :: e :: f :: g :: k :: t' ∧ hex4 e f g k = some n := by
  unfold getu4 at h
  split at h
  · split_ifs at h with hxy
    obtain ⟨rfl, rfl⟩ := hxy
    exact ⟨_, _, _, _, _, rfl, h⟩
  · cases h

/-- A `\u` escape of a surrogate that makes no pair with what follows reads as the replacement
    character. -/
theorem unquoteBody_lone {a b c d : Char} {n : Nat} (h : hex4 a b c d = some n)
    (hs : isSurrogate n = true) {r : List Char} (hr : (getu4 r).bind (decodeRune n) = none) :
    unquoteBody ('\\' :: 'u' :: a :: b :: c :: d :: r) = (unquoteBody r).map ('�' :: ·) := by
  have hg : getu4 ('\\' :: 'u' :: a :: b :: c :: d :: r) = some n := by simp [getu4, h]
  have hstep : unquoteStep ('\\' :: 'u' :: a :: b :: c :: d :: r) = some (['�'], 5) := by
    simp [unquoteStep, hg, hs, hr]
  rw [unquoteLoop_zero_cons, hstep, Option.some_bind]
  exact congrArg (Option.map _) (unquoteLoop_skip ['u', a, b, c, d] r)

/-- A `\u` escape of a surrogate that makes a pair with the `\u` escape after it reads, with
    that one, as one character. -/
theorem unquoteBody_pair {a b c d e f g k : Char} {n n' m : Nat} (h : hex4 a b c d = some n)
    (hs : isSurrogate n = true) (h' : hex4 e f g k = some n') (hm : decodeRune n n' = some m)
    (t : List Char) :
    unquoteBody ('\\' :: 'u' :: a :: b :: c :: d :: '\\' :: 'u' :: e :: f :: g :: k :: t) =
      (unquoteBody t).map (Char.ofNat m :: ·) := by
  have hstep : unquoteStep ('\\' :: 'u' :: a :: b :: c :: d :: '\\' :: 'u' :: e :: f :: g :: k :: t) =
      some ([Char.ofNat m], 11) := by
    simp [unquoteStep, getu4, h, hs, h', hm]
  rw [unquoteLoop_zero_cons, hstep, Option.some_bind]
  exact congrArg (Option.map _) (unquoteLoop_skip ['u', a, b, c, d, '\\', 'u', e, f, g, k] t)

/-- `unquote` reads past a `\u` escape the scanner accepts, alone or in a pair: a pair's second
    escape is of a low surrogate, which alone reads as the replacement character. -/
theorem unquoteBody_unicode_isSome {a b c d : Char} {n : Nat} (h : hex4 a b c d = some n)
    {t : List Char} (ht : (unquoteBody t).isSome = true) :
    (unquoteBody ('\\' :: 'u' :: a :: b :: c :: d :: t)).isSome = true := by
  cases hs : isSurrogate n
  · rw [unquoteBody_unicode h hs]; simpa using ht
  cases hr : (getu4 t).bind (decodeRune n) with
  | none => rw [unquoteBody_lone h hs hr]; simpa using ht
  | some m =>
    obtain ⟨n', hn', hm⟩ := Option.bind_eq_some.mp hr
    obtain ⟨e, f, g, k, t', rfl, he⟩ := getu4_some hn'
    have hlow : 0xDC00 ≤ n' ∧ n' < 0xE000 := by
      unfold decodeRune at hm
      split_ifs at hm with hc
      exact hc.2.2
    have hlone := unquoteBody_lone (r := t') he
      (by simp only [isSurrogate, Bool.and_eq_true, decide_eq_true_eq]; omega)
      (by cases getu4 t' with | none => rfl | some x => exact if_neg (by omega))
    rw [hlone] at ht
    rw [unquoteBody_pair h hs he hm]
    simpa using ht


theorem unquoteBody_escape_isSome {e : Char} (he : e ≠ 'u') (hx : (unescape e).isSome = true)
    {t : List Char} (ht : (unquoteBody t).isSome = true) :
    (unquoteBody ('\\' :: e :: t)).isSome = true := by
  obtain ⟨x, hx⟩ := Option.isSome_iff_exists.mp hx
  rw [unquoteBody_backslash he hx]
  simpa using ht

/-- **Every string the scanner reads unquotes.** The text between the quotes of a string literal
    the scanner reads is one `unquote` reads to its end: what `unquote` fails on -- a quote, a
    control character, a bad escape -- the scanner rejects too. -/
theorem scanString_unquote (cs : List Char) : ∀ r, scanString cs = some r →
    ∃ b, cs = b ++ '"' :: r ∧ (unquoteBody b).isSome = true := by
  induction cs using scanString.induct with
  | case1 rest =>
    intro r h
    obtain rfl : rest = r := Option.some.inj h
    exact ⟨[], rfl, rfl⟩
  | case2 a b c d rest hx ih =>
    intro r h
    rw [scanString_unicode hx] at h
    obtain ⟨t, rfl, ht⟩ := ih r h
    obtain ⟨n, hn⟩ := hex4_isSome hx
    exact ⟨'\\' :: 'u' :: a :: b :: c :: d :: t, rfl, unquoteBody_unicode_isSome hn ht⟩
  | case3 a b c d rest hx =>
    intro r h
    rw [scanString, if_neg hx] at h
    cases h
  | case4 c rest _ hesc ih =>
    intro r h
    rcases hesc with rfl | rfl | rfl | rfl | rfl | rfl | rfl | rfl <;>
    · obtain ⟨t, rfl, ht⟩ := ih r h
      exact ⟨'\\' :: _ :: t, rfl, unquoteBody_escape_isSome (by decide) (by decide) ht⟩
  | case5 c rest hu hesc =>
    intro r h
    rw [scanString.eq_3 c rest hu, if_neg hesc] at h
    cases h
  | case6 c rest hq hu hb hlt =>
    intro r h
    rw [scanString.eq_4 c rest hq hu hb, if_pos hlt] at h
    cases h
  | case7 c rest hq hu hb hlt ih =>
    intro r h
    rw [scanString.eq_4 c rest hq hu hb, if_neg hlt] at h
    obtain ⟨t, rfl, ht⟩ := ih r h
    refine ⟨c :: t, rfl, ?_⟩
    rw [unquoteBody_plain (ne_backslash_of_read hb h) hq hlt]
    simpa using ht
  | case8 => intro r h; cases h

/-- **The walk reads every object body the scanner reads**: its keys unquote. -/
theorem rawMembers_isSome : ∀ (n : Nat) (cs r : List Char), scanMembers n cs = some r →
    (rawMembers n cs).isSome = true
  | 0, _, _, h => nomatch h
  | _ + 1, [], _, h => nomatch h
  | n + 1, c :: cs, r, h => by
    obtain ⟨rfl, r0, r1, r2, h0, hsk, h2, hnext⟩ := scanMembers_cases h
    obtain ⟨b, hcs, hu⟩ := scanString_unquote cs r0 h0
    obtain ⟨key, hkey⟩ := Option.isSome_iff_exists.mp hu
    have htake : cs.take (cs.length - r0.length - 1) = b := by rw [hcs]; exact take_key b r0 '"'
    rw [rawMembers]
    simp only [ne_eq, not_true_eq_false, ↓reduceIte, h0, htake, hkey, hsk, h2]
    rcases hnext with ⟨r3, hsk2, hn⟩ | hsk2
    · simpa [hsk2] using rawMembers_isSome n _ r hn
    · simp [hsk2]

end Jrpc2
