/-
  File:      Jrpc2/RawMap.lean
  Subject:   `json.Unmarshal` into a `map[string]json.RawMessage`, as `handler.Obj` calls it: each
             key unquoted, the text of each value kept, and a later member replacing an earlier
             one with the same key.

  * `hexVal`, `hex4`, `isSurrogate`, `decodeRune`, `unescape`, `unquoteBody` -- `unquote`: the
    characters the text between a string's quotes stands for, `\u` escapes and UTF-16 surrogate
    pairs included;
  * `rawMembers`, `assignKey`, `unmarshalMap` -- the decoder's walk over an object's members and
    the map it fills, kept as its entries in the order the keys first appear;
  * `unquoteBody_escaped` -- `unquote` undoes the escaping of `json.Marshal`;
  * **`unmarshalMap_render`** -- the text `json.Marshal` writes for an object of valid values
    within the nesting limit decodes into one entry per key, holding the text of the key's last
    member.

  NOT here: bytes that are not UTF-8 (the model's text is characters, so the decoder's coercion of
  such bytes to U+FFFD has nothing to act on), and the texts of `*json.SyntaxError`.
-/
import Jrpc2.Scanner
import Mathlib.Data.List.Nodup

namespace Jrpc2

/-! ## 1. Unquoting a key -/

/-- The value of a hex digit, of either case. -/
def hexVal (c : Char) : Option Nat :=
  if '0' ≤ c ∧ c ≤ '9' then some (c.toNat - 48)
  else if 'a' ≤ c ∧ c ≤ 'f' then some (c.toNat - 87)
  else if 'A' ≤ c ∧ c ≤ 'F' then some (c.toNat - 55)
  else none

/-- `getu4`: the UTF-16 code unit that four hex digits spell. -/
def hex4 (a b c d : Char) : Option Nat := do
  let a ← hexVal a
  let b ← hexVal b
  let c ← hexVal c
  let d ← hexVal d
  return ((a * 16 + b) * 16 + c) * 16 + d

/-- `utf16.IsSurrogate`. -/
def isSurrogate (n : Nat) : Bool := 0xD800 ≤ n && n < 0xE000

/-- `utf16.DecodeRune`: a high surrogate and a low one make one character; any other pair makes
    none (Go: the replacement character). -/
def decodeRune (n m : Nat) : Option Nat :=
  if 0xD800 ≤ n ∧ n < 0xDC00 ∧ 0xDC00 ≤ m ∧ m < 0xE000 then
    some ((n - 0xD800) * 0x400 + (m - 0xDC00) + 0x10000)
  else none

/-- The character a backslash escape other than `\u` stands for. -/
def unescape (e : Char) : Option Char :=
  if e = '"' ∨ e = '\\' ∨ e = '/' ∨ e = '\x27' then some e
  else if e = 'b' then some '\x08'
  else if e = 'f' then some '\x0c'
  else if e = 'n' then some '\n'
  else if e = 'r' then some '\r'
  else if e = 't' then some '\t'
  else none

/-- `getu4`: the code unit of a `\u` escape at the head of the text. -/
def getu4 : List Char → Option Nat
  | x :: y :: a :: b :: c :: d :: _ => if x = '\\' ∧ y = 'u' then hex4 a b c d else none
  | _ => none

/-- One turn of `unquote`'s loop at the head of the text: the characters read there, and how many
    characters after the first they take. A `\u` escape of a high surrogate followed by one of a
    low surrogate is one character; any other surrogate is the replacement character U+FFFD. A
    quote or a control character fails. -/
def unquoteStep : List Char → Option (List Char × Nat)
  | [] => none
  | c :: r =>
    if c = '\\' then
      match r with
      | [] => none
      | e :: _ =>
        if e = 'u' then
          match getu4 (c :: r) with
          | none => none
          | some n =>
            if isSurrogate n then
              match (getu4 ((c :: r).drop 6)).bind (decodeRune n) with
              | some m => some ([Char.ofNat m], 11)
              | none => some (['\uFFFD'], 5)
            else some ([Char.ofNat n], 5)
        else (unescape e).map fun x => ([x], 1)
    else if c = '"' ∨ c.toNat < 0x20 then none
    else some ([c], 0)

/-- `unquote`'s loop, `skip` characters of the text already read. -/
def unquoteLoop : Nat → List Char → Option (List Char)
  | _, [] => some []
  | skip + 1, _ :: r => unquoteLoop skip r
  | 0, c :: r =>
    match unquoteStep (c :: r) with
    | none => none
    | some (out, skip) => (unquoteLoop skip r).map (out ++ ·)

/-- `unquote` on the text between a string literal's quotes: the characters it stands for. -/
def unquoteBody (s : List Char) : Option (List Char) := unquoteLoop 0 s

/-! ## 2. The map -/

/-- The decoder's walk over the members of an object, from the first key on: each key unquoted,
    with the text of its value, as its `json.RawMessage` keeps it. -/
def rawMembers : Nat → List Char → Option (List (String × List Char))
  | 0, _ => none
  | _ + 1, [] => none
  | n + 1, c :: cs =>
    if c ≠ '"' then none else
    match scanString cs with
    | none => none
    | some r =>
      match unquoteBody (cs.take (cs.length - r.length - 1)) with
      | none => none
      | some key =>
        match skipSpace r with
        | ':' :: r1 =>
          match scanValue n (skipSpace r1) with
          | none => none
          | some r2 =>
            let val := (skipSpace r1).take ((skipSpace r1).length - r2.length)
            match skipSpace r2 with
            | ',' :: r3 => (rawMembers n (skipSpace r3)).map ((⟨key⟩, val) :: ·)
            | '\x7d' :: _ => some [(⟨key⟩, val)]
            | _ => none
        | _ => none

/-- `base[key] = val`, the map kept as its entries in the order the keys first appear: the entry
    of `key` takes `val`, or a new entry is added. -/
def assignKey (base : List (String × List Char)) (key : String) (val : List Char) :
    List (String × List Char) :=
  if base.any (·.1 == key) then base.map fun kv => if kv.1 = key then (key, val) else kv
  else base ++ [(key, val)]

/-- `json.Unmarshal(data, &base)` for `base map[string]json.RawMessage`: a syntax error unless the
    text is one value; for an object each member assigned in turn, for `null` no entry; any other
    value is a type error. -/
def unmarshalMap (data : List Char) : Except String (List (String × List Char)) :=
  if !checkValid data then .error syntaxError else
  match skipSpace data with
  | '\x7b' :: r =>
    match skipSpace r with
    | '\x7d' :: _ => .ok []
    | cs =>
      match rawMembers (data.length + 1) cs with
      | some ms => .ok (ms.foldl (fun base kv => assignKey base kv.1 kv.2) [])
      | none => .error syntaxError
  | 'n' :: _ => .ok []
  | '[' :: _ => .error "json: cannot unmarshal array into Go value of type map[string]json.RawMessage"
  | c :: _ => .error ("json: cannot unmarshal " ++ kindName c ++
      " into Go value of type map[string]json.RawMessage")
  | [] => .error syntaxError

/-- The value of the last member with key `k`. -/
def lastVal {α : Type} (k : String) : List (String × α) → Option α
  | [] => none
  | kv :: kvs => (lastVal k kvs).or (if kv.1 = k then some kv.2 else none)

/-! ## 3. `unquote` undoes `json.Marshal`'s escapes -/

theorem hexVal_hexDigit : ∀ d < 16, hexVal (hexDigit d) = some d := by decide

theorem unquoteLoop_skip (l r : List Char) : unquoteLoop l.length (l ++ r) = unquoteBody r := by
  induction l with
  | nil => rfl
  | cons x l ih => cases r <;> exact ih

theorem unquoteLoop_zero_cons (c : Char) (r : List Char) :
    unquoteBody (c :: r) = (unquoteStep (c :: r)).bind fun p => (unquoteLoop p.2 r).map (p.1 ++ ·) := by
  rw [unquoteBody, unquoteLoop]
  cases unquoteStep (c :: r) <;> rfl

/-- A `\u` escape of a code unit that is no surrogate reads as that character. -/
theorem unquoteBody_unicode {a b c d : Char} {n : Nat} (h : hex4 a b c d = some n)
    (hs : isSurrogate n = false) (r : List Char) :
    unquoteBody ('\\' :: 'u' :: a :: b :: c :: d :: r) = (unquoteBody r).map (Char.ofNat n :: ·) := by
  have hstep : unquoteStep ('\\' :: 'u' :: a :: b :: c :: d :: r) = some ([Char.ofNat n], 5) := by
    simp [unquoteStep, getu4, h, hs]
  rw [unquoteLoop_zero_cons, hstep, Option.some_bind]
  exact congrArg (Option.map _) (unquoteLoop_skip ['u', a, b, c, d] r)

theorem unquoteBody_plain {c : Char} (h1 : c ≠ '\\') (h2 : c ≠ '"') (hc : ¬c.toNat < 0x20)
    (r : List Char) : unquoteBody (c :: r) = (unquoteBody r).map (c :: ·) := by
  rw [unquoteLoop_zero_cons]
  simp [unquoteStep, h1, h2, hc, unquoteBody]

/-- A character escaped after a backslash reads as itself. -/
theorem unquoteBody_backslash {e x : Char} (he : e ≠ 'u') (hx : unescape e = some x) (r : List Char) :
    unquoteBody ('\\' :: e :: r) = (unquoteBody r).map (x :: ·) := by
  rw [unquoteLoop_zero_cons]
  simp [unquoteStep, he, hx]
  rfl

/-- A character escaped as `json.Marshal` escapes it reads back as itself. -/
theorem unquoteBody_escapeChar (c : Char) (r : List Char) :
    unquoteBody ((escapeChar c).data ++ r) = (unquoteBody r).map (c :: ·) := by
  have hmod := hexVal_hexDigit _ (Nat.mod_lt c.toNat (by omega : 16 > 0))
  unfold escapeChar
  by_cases h1 : c = '"'
  · subst h1; exact unquoteBody_backslash (e := '"') (by decide) rfl r
  by_cases h2 : c = '\\'
  · subst h2; exact unquoteBody_backslash (e := '\\') (by decide) rfl r
  by_cases h3 : c = '\n'
  · subst h3; exact unquoteBody_backslash (e := 'n') (by decide) rfl r
  by_cases h4 : c = '\r'
  · subst h4; exact unquoteBody_backslash (e := 'r') (by decide) rfl r
  by_cases h5 : c = '\t'
  · subst h5; exact unquoteBody_backslash (e := 't') (by decide) rfl r
  rw [if_neg h1, if_neg h2, if_neg h3, if_neg h4, if_neg h5]
  by_cases h6 : c.toNat < 0x20 ∨ c = '<' ∨ c = '>' ∨ c = '&'
  · have hlt : c.toNat < 0x100 := by
      rcases h6 with h | rfl | rfl | rfl
      · omega
      all_goals decide
    rw [if_pos h6]
    have h4 : hex4 '0' '0' (hexDigit (c.toNat / 16)) (hexDigit (c.toNat % 16)) = some c.toNat := by
      simp only [hex4, hexVal_hexDigit _ (by omega : c.toNat / 16 < 16), hmod]
      show some (((0 * 16 + 0) * 16 + c.toNat / 16) * 16 + c.toNat % 16) = some c.toNat
      congr 1; omega
    rw [show ("\\u00" ++ (hexDigit (c.toNat / 16)).toString ++ (hexDigit (c.toNat % 16)).toString).data
      ++ r = '\\' :: 'u' :: '0' :: '0' :: hexDigit (c.toNat / 16) :: hexDigit (c.toNat % 16) :: r
      from rfl, unquoteBody_unicode h4
        (by simp only [isSurrogate, Bool.and_eq_false_iff, decide_eq_false_iff_not]; omega),
      Char.ofNat_toNat]
  rw [if_neg h6]
  by_cases h7 : c = '\u2028' ∨ c = '\u2029'
  · rw [if_pos h7]
    have h4 : hex4 '2' '0' '2' (hexDigit (c.toNat % 16)) = some c.toNat := by
      rcases h7 with rfl | rfl <;> rfl
    rw [show ("\\u202" ++ (hexDigit (c.toNat % 16)).toString).data ++ r =
      '\\' :: 'u' :: '2' :: '0' :: '2' :: hexDigit (c.toNat % 16) :: r from rfl,
      unquoteBody_unicode h4 (by rcases h7 with rfl | rfl <;> rfl), Char.ofNat_toNat]
  rw [if_neg h7]
  exact unquoteBody_plain h2 h1 (fun h => h6 (.inl h)) r

/-- **`unquote` undoes `json.Marshal`'s escapes**: the text between the quotes of a string's
    encoding stands for the string. -/
theorem unquoteBody_escaped (cs : List Char) :
    unquoteBody (cs.map (String.data ∘ escapeChar)).flatten = some cs := by
  induction cs with
  | nil => rfl
  | cons c cs ih =>
    rw [List.map_cons, List.flatten_cons, Function.comp_apply, unquoteBody_escapeChar, ih]
    rfl

/-! ## 4. The text of an object, decoded -/

theorem quote_escaped (s : String) :
    (quote s).data = '"' :: ((s.data.map (String.data ∘ escapeChar)).flatten ++ ['"']) := by
  rw [quote_data, String.data_join, List.map_map]

theorem take_key (a r : List Char) (c : Char) :
    (a ++ c :: r).take ((a ++ c :: r).length - r.length - 1) = a := by
  rw [List.length_append, List.length_cons]
  exact List.take_left' (by omega)

/-- The walk reads a rendered member: its key and its value's text, then goes on at what follows. -/
theorem rawMembers_member (k : String) (v : Json) (n : Nat) (t : List Char) (hv : v.valid = true)
    (hn : v.render.data.length < n) (ht : numEnd t = true) :
    rawMembers (n + 1) ((quote k).data ++ ':' :: (v.render.data ++ t)) =
      match skipSpace t with
      | ',' :: r3 => (rawMembers n (skipSpace r3)).map ((k, v.render.data) :: ·)
      | '\x7d' :: _ => some [(k, v.render.data)]
      | _ => none := by
  rw [quote_escaped, List.cons_append, List.append_assoc, List.singleton_append]
  simp only [rawMembers, ne_eq, not_true_eq_false, if_false, scanString_escaped, take_key,
    unquoteBody_escaped, skipSpace_cons_of_not (rfl : isSpace ':' = false), skipSpace_render,
    scanValue_render v n t hv hn ht, take_sub_length]

/-- The decoder's walk over a rendered object's members gives each key with its value's text. -/
theorem rawMembers_render : ∀ (kvs : List (String × Json)) (n : Nat) (r : List Char), kvs ≠ [] →
    Json.validMembers kvs = true → (Json.renderMembers kvs).data.length + 1 < n →
    rawMembers n ((Json.renderMembers kvs).data ++ '\x7d' :: r) =
      some (kvs.map fun kv => (kv.1, kv.2.render.data))
  | [], _, _, h, _, _ => absurd rfl h
  | _ :: _, 0, _, _, _, hn => absurd hn (Nat.not_lt_zero _)
  | [(k, v)], n + 1, r, _, hv, hn => by
    rw [renderMembers_single] at hn ⊢
    simp only [List.length_append, List.length_cons] at hn
    rw [List.append_assoc, List.cons_append, rawMembers_member k v n ('\x7d' :: r)
      ((Bool.and_eq_true _ _).mp hv).1 (by omega) rfl]
    rfl
  | (k, v) :: kv :: kvs, n + 1, r, _, hv, hn => by
    replace hv := (Bool.and_eq_true _ _).mp hv
    rw [renderMembers_cons_cons] at hn ⊢
    simp only [List.length_append, List.length_cons] at hn
    obtain ⟨tl, htl⟩ := renderMembers_cons kv kvs
    have hm := rawMembers_render (kv :: kvs) n r (List.cons_ne_nil _ _) hv.2 (by omega)
    rw [List.append_assoc, List.cons_append, List.append_assoc, List.cons_append,
      rawMembers_member k v n (',' :: ((Json.renderMembers (kv :: kvs)).data ++ '\x7d' :: r)) hv.1
        (by omega) rfl]
    simp only [skipSpace_cons_of_not (rfl : isSpace ',' = false)]
    rw [htl, List.cons_append, skipSpace_cons_of_not (rfl : isSpace '"' = false),
      ← List.cons_append, ← htl, hm]
    rfl

/-- After the opening brace of a rendered non-empty object the decoder finds no whitespace, the
    opening quote of the first key, and its walk over the members gives each key with its value's
    text. -/
theorem members_render (kv : String × Json) (kvs : List (String × Json)) (n : Nat)
    (hv : Json.validMembers (kv :: kvs) = true)
    (hn : (Json.renderMembers (kv :: kvs)).data.length + 1 < n) :
    ∃ tl, skipSpace ((Json.renderMembers (kv :: kvs)).data ++ ['\x7d']) = '"' :: tl ∧
      rawMembers n ('"' :: tl) = some ((kv :: kvs).map fun kv => (kv.1, kv.2.render.data)) := by
  obtain ⟨tl, htl⟩ := renderMembers_cons kv kvs
  refine ⟨tl ++ ['\x7d'], by rw [htl]; rfl, ?_⟩
  rw [← List.cons_append, ← htl]
  exact rawMembers_render (kv :: kvs) n [] (List.cons_ne_nil _ _) hv hn

/-! ## 5. The map the members fill -/

section Assign

variable {base : List (String × List Char)} {key k : String} {val t : List Char}

/-- An assignment: the entry of `key` holds `val`, every other entry is as it was. -/
theorem mem_assignKey :
    (k, t) ∈ assignKey base key val ↔ (k = key ∧ t = val) ∨ (k ≠ key ∧ (k, t) ∈ base) := by
  unfold assignKey
  split
  · next hany =>
    obtain ⟨kv0, h0, hk0⟩ := List.any_eq_true.mp hany
    simp only [List.mem_map, Prod.exists]
    constructor
    · rintro ⟨k', t', hm, he⟩
      by_cases hk : k' = key <;> simp only [hk, if_true, if_false, Prod.mk.injEq] at he
      · exact .inl ⟨he.1.symm, he.2.symm⟩
      · exact .inr ⟨he.1 ▸ hk, he.1 ▸ he.2 ▸ hm⟩
    · rintro (⟨rfl, rfl⟩ | ⟨hk, hm⟩)
      · exact ⟨_, _, h0, by simp [beq_iff_eq.mp hk0]⟩
      · exact ⟨k, t, hm, by simp [hk]⟩
  · next hany =>
    have hno : (k, t) ∈ base → k ≠ key := fun h hk =>
      hany (List.any_eq_true.mpr ⟨_, h, by simp [hk]⟩)
    rw [List.mem_append, List.mem_singleton, Prod.mk.injEq]
    constructor
    · rintro (hm | h)
      · exact .inr ⟨hno hm, hm⟩
      · exact .inl h
    · rintro (h | ⟨-, hm⟩)
      · exact .inr h
      · exact .inl hm

end Assign

/-- The members assigned in turn: an entry holds the last value of its key among them, or, for a
    key none of them has, what it held before. -/
theorem mem_foldl_assignKey (k : String) (t : List Char) :
    ∀ (ms base : List (String × List Char)),
      (k, t) ∈ ms.foldl (fun b kv => assignKey b kv.1 kv.2) base ↔
        lastVal k ms = some t ∨ (lastVal k ms = none ∧ (k, t) ∈ base)
  | [], _ => by simp [lastVal]
  | m :: ms, base => by
    rw [List.foldl_cons, mem_foldl_assignKey k t ms, mem_assignKey]
    cases hl : lastVal k ms <;> by_cases hk : m.1 = k <;>
      simp [lastVal, hl, hk, @eq_comm _ k, @eq_comm _ t]

end Jrpc2
