/-
  File:      Jrpc2/Error.lean
  Subject:   `error.go`: the `*Error` an RPC call returns, its text, and its JSON form --
             `MarshalJSON` writes it as a `jerror` object through `json.Marshal`, `UnmarshalJSON`
             reads one back through `json.Unmarshal` into a `jerror`.

  * `Int32`, `Error`, `Error.error`, `Error.errCode`, `errorf`, `Error.withData` -- the record,
    its text `[code] message`, and the constructors that give it a message and data;
  * `parseUint`, `parseInt` -- `strconv.ParseUint` and `strconv.ParseInt` in base 10, which the
    decoder runs on the text of an integer field;
  * `Field`, `simpleLetterEqualFold`, `equalFoldRight`, `fieldOf` -- the field a member's key
    names: the field of that exact name, else the first whose name matches it up to case;
  * `storeField`, `storeMembers`, `unmarshalJError` -- the decoder's walk over the members of a
    `jerror`: each stored into the field its key names, the first type error kept, the walk
    going on after it;
  * `marshalJError`, `Error.marshalJSON`, `Error.unmarshalJSON`;
  * `takeValue`, `decodeValues`, `lastNamed` -- what the decoding is for, stated on values rather
    than texts: each member's value taken by the type of the field its key names, the first type
    error ending it, and the last member naming a field being the one it keeps;
  * `jerrorMembers_depth` -- the object written is one level deeper than its data;
  * **`error_round_trip`** -- the text `MarshalJSON` writes for an error whose data is empty or
    the text `json.Marshal` wrote for a value nested less than `maxNestingDepth` deep reads back,
    into any `Error`, as that error;
  * **`error_text_injective`** -- the text `Error()` writes names the code and the message;
  * **`unmarshalJSON_object`** -- `UnmarshalJSON` of any object of valid values within the
    nesting limit is `decodeValues` of its members: saving the first type error and going on, as
    the decoder does, ends as stopping at it;
  * **`unmarshalJSON_last_member`** -- each field holds the last member that names it.

  NOT here: the `jerror` type and its struct tags, which live outside src: they are taken as the
  JSON-RPC error object, `C int32` under `code`, `M string` under `message` and
  `D json.RawMessage` under `data`, the last two with `omitempty`. `fmt`'s verbs beyond `%d` and
  `%s` (a message comes formatted). The decoder's `panic` on a string it cannot unquote, which a
  text that passed `checkValid` never holds: it is a syntax error here.
-/
import Jrpc2.Nesting
import Jrpc2.RawMap
import Jrpc2.Decimal

namespace Jrpc2

/-! ## 1. The record -/

/-- A Go `int32`, as `code.Code` and the `C` field of a `jerror` hold it. -/
@[ext] structure Int32 where
  val : Int
  range : -2 ^ 31 ≤ val ∧ val < 2 ^ 31
  deriving DecidableEq

/-- The `int32` zero. -/
def Int32.zero : Int32 := ⟨0, by omega⟩

/-- `Error`: the concrete type of the errors RPC calls return. `Data` is the text of its
    `json.RawMessage`, `[]` standing for nil. -/
structure Error where
  Message : String
  Code : Int32
  Data : List Char := []
  deriving DecidableEq

/-- `e.Error()`: `fmt.Sprintf("[%d] %s", e.Code, e.Message)`. -/
def Error.error (e : Error) : String := "[" ++ formatInt e.Code.val ++ "] " ++ e.Message

/-- `e.ErrCode()`. -/
def Error.errCode (e : Error) : Int32 := e.Code

/-- `Errorf(code, msg, args...)`, with the message already formatted. -/
def errorf (code : Int32) (message : String) : Error := { Message := message, Code := code }

/-- `strconv.ParseUint(s, 10, 64)`: one or more decimal digits, denoting less than `2^64`. -/
def parseUint (s : List Char) : Option Nat :=
  if s ≠ [] ∧ s.all Char.isDigit = true ∧ digitsValue s < 2 ^ 64 then some (digitsValue s)
  else none

/-- `strconv.ParseInt(s, 10, 64)`: an optional sign, then `ParseUint`, within the `int64`
    range. -/
def parseInt : List Char → Option Int
  | [] => none
  | c :: r =>
    if c = '-' then (parseUint r).bind fun un => if un ≤ 2 ^ 63 then some (-(un : Int)) else none
    else if c = '+' then (parseUint r).bind fun un => if un < 2 ^ 63 then some un else none
    else (parseUint (c :: r)).bind fun un => if un < 2 ^ 63 then some un else none

/-! ## 3. The `jerror` object -/

/-- A `jerror` as `json.Marshal` and `json.Unmarshal` see it. -/
structure JErrorFields where
  C : Int32
  M : String
  D : List Char
  deriving DecidableEq

/-- The zero `jerror` the decoder starts from. -/
def JErrorFields.zero : JErrorFields := ⟨.zero, "", []⟩

/-- The fields of a `jerror`, in the order of the struct. -/
inductive Field where
  | C
  | M
  | D
  deriving DecidableEq, Repr

/-- The fields of a `jerror`, in the order of the struct. -/
def Field.all : List Field := [.C, .M, .D]

/-- The key a field is written under. -/
def Field.name : Field → String
  | .C => "code"
  | .M => "message"
  | .D => "data"

/-- The key of a field as the encoder writes it, `"name":` (`nameEscHTML`). -/
def Field.key (f : Field) : List Char := (quote f.name).data ++ [':']

/-- `json.Marshal(jerror{...})`: the fields in order, `message` and `data` left out when empty,
    the data's text run through `compact`; a data text that is not one value fails as a
    `*json.MarshalerError`. -/
def marshalJError (v : JErrorFields) : Except String (List Char) :=
  let code := Field.C.key ++ (formatInt v.C.val).data
  let msg := if v.M = "" then [] else ',' :: (Field.M.key ++ (quote v.M).data)
  if v.D = [] then .ok ('\x7b' :: (code ++ msg ++ ['\x7d'])) else
  match compact v.D with
  | .ok d => .ok ('\x7b' :: (code ++ msg ++ ',' :: (Field.D.key ++ d) ++ ['\x7d']))
  | .error err => .error ("json: error calling MarshalJSON for type json.RawMessage: " ++ err)

/-- `simpleLetterEqualFold(name, key)`, for a name of ASCII letters: the key has the name's
    length and each of its characters is the name's letter in either case. (On bytes the test
    is `b & caseMask`; a byte of a non-ASCII character keeps its high bit and matches no
    letter.) -/
def simpleLetterEqualFold : List Char → List Char → Bool
  | [], [] => true
  | s :: ss, t :: ts => s.toUpper == t.toUpper && simpleLetterEqualFold ss ts
  | _, _ => false

/-- `equalFoldRight(name, key)`, for an ASCII name holding `s` or `k`: an ASCII character of the
    key is the name's character, or the same letter in the other case; a non-ASCII one is `ſ`
    (U+017F) against `s` or `S`, or the Kelvin sign (U+212A) against `k` or `K`. -/
def equalFoldRight : List Char → List Char → Bool
  | [], t => t.isEmpty
  | _ :: _, [] => false
  | sb :: ss, tb :: ts =>
    (if tb.toNat < 0x80 then sb == tb || (sb.isAlpha && sb.toUpper == tb.toUpper)
     else if sb = 's' ∨ sb = 'S' then tb == '\u017F'
     else if sb = 'k' ∨ sb = 'K' then tb == '\u212A'
     else false) && equalFoldRight ss ts

/-- The fold function `typeFields` picks for a field's name: `equalFoldRight` for a name holding
    `s` or `k` (here `message`), `simpleLetterEqualFold` for the others. -/
def Field.equalFold : Field → List Char → List Char → Bool
  | .M => equalFoldRight
  | _ => simpleLetterEqualFold

/-- The field a member's key names: the field of that exact name (`nameIndex`), else the first
    field whose fold function matches the key; `none` for a key that names no field. -/
def fieldOf (key : String) : Option Field :=
  (Field.all.find? (·.name == key)).or (Field.all.find? fun f => f.equalFold f.name.data key.data)

/-- The text of a `*json.UnmarshalTypeError` for a member of a `jerror`. -/
def fieldTypeError (value : String) (f : Field) (typ : String) : String :=
  "json: cannot unmarshal " ++ value ++ " into Go struct field jerror." ++ f.name ++ " of type " ++
    typ

/-- The kind a type error names for a value, from its first character. -/
def valueKind (c : Char) : String := if c = '[' then "array" else kindName c

/-- The decoder's store of one member's text into field `f` of `v`: the `jerror` after it, and
    the type error it saves, if any (the field then keeps what it held). `null` leaves an
    `int32` and a `string` as they were; a `json.RawMessage` keeps the text of any value. -/
def storeField (v : JErrorFields) (f : Field) (raw : List Char) : JErrorFields × Option String :=
  match f with
  | .D => ({ v with D := raw }, none)
  | .C =>
    match raw with
    | [] => (v, none)
    | c :: _ =>
      if c = 'n' then (v, none)
      else if c = '-' ∨ c.isDigit then
        match parseInt raw with
        | some n =>
          if h : -2 ^ 31 ≤ n ∧ n < 2 ^ 31 then ({ v with C := ⟨n, h⟩ }, none)
          else (v, some (fieldTypeError ("number " ++ String.mk raw) .C "int32"))
        | none => (v, some (fieldTypeError ("number " ++ String.mk raw) .C "int32"))
      else (v, some (fieldTypeError (valueKind c) .C "int32"))
  | .M =>
    match raw with
    | [] => (v, none)
    | c :: body =>
      if c = 'n' then (v, none)
      else if c = '"' then
        match unquoteBody body.dropLast with
        | some s => ({ v with M := ⟨s⟩ }, none)
        | none => (v, some syntaxError)
      else (v, some (fieldTypeError (valueKind c) .M "string"))

/-- The decoder's walk over the members of a `jerror` in order: a member whose key names a field
    is stored into it, any other skipped; the first type error is kept, and the walk goes on. -/
def storeMembers :
    List (String × List Char) → JErrorFields → Option String → JErrorFields × Option String
  | [], v, err => (v, err)
  | (k, raw) :: ms, v, err =>
    match fieldOf k with
    | none => storeMembers ms v err
    | some f => storeMembers ms (storeField v f raw).1 (err.or (storeField v f raw).2)

/-- `json.Unmarshal(data, &v)` for `v jerror`: a syntax error unless the text is one value; for
    an object the walk over its members, for `null` the zero `jerror`; any other value is a type
    error. -/
def unmarshalJError (data : List Char) : Except String JErrorFields :=
  if !checkValid data then .error syntaxError else
  match skipSpace data with
  | '\x7b' :: r =>
    match skipSpace r with
    | '\x7d' :: _ => .ok .zero
    | cs =>
      match rawMembers (data.length + 1) cs with
      | some ms =>
        match storeMembers ms .zero none with
        | (v, none) => .ok v
        | (_, some err) => .error err
      | none => .error syntaxError
  | 'n' :: _ => .ok .zero
  | c :: _ => .error ("json: cannot unmarshal " ++ valueKind c ++
      " into Go value of type jrpc2.jerror")
  | [] => .error syntaxError

/-- `e.MarshalJSON()`: `json.Marshal(jerror{C: int32(e.Code), M: e.Message, D: e.Data})`. -/
def Error.marshalJSON (e : Error) : Except String (List Char) :=
  marshalJError ⟨e.Code, e.Message, e.Data⟩

/-- `e.UnmarshalJSON(data)`: the error after it, and the error it returns; on an error `e` is
    left as it was. -/
def Error.unmarshalJSON (e : Error) (data : List Char) : Error × Option String :=
  match unmarshalJError data with
  | .ok v => ({ Code := v.C, Message := v.M, Data := v.D }, none)
  | .error err => (e, some err)

/-! ## 4. The text of an `int32`, read back -/

theorem digitChar_isDigit : ∀ d < 10, (Nat.digitChar d).isDigit = true := by decide

theorem digitChar_ne_zero : ∀ d < 10, d ≠ 0 → Nat.digitChar d ≠ '0' := by decide

theorem isDigit_of_mem_repr (n : Nat) {c : Char} (h : c ∈ (toString n).data) : c.isDigit = true := by
  rcases mem_toDigitsCore _ _ _ _ h with h | ⟨d, hd, rfl⟩
  · exact absurd h (List.not_mem_nil _)
  · exact digitChar_isDigit d hd

/-- The decimal text of a positive number does not start with `0`. -/
theorem toDigitsCore_head (fuel : Nat) :
    ∀ n ds, 0 < n → n < fuel → ∃ c cs, Nat.toDigitsCore 10 fuel n ds = c :: cs ∧ c ≠ '0' := by
  induction fuel with
  | zero => intro n ds _ h; omega
  | succ fuel ih =>
    intro n ds hn h
    unfold Nat.toDigitsCore
    dsimp only
    split
    · exact ⟨_, _, rfl, digitChar_ne_zero _ (Nat.mod_lt _ (by omega)) (by omega)⟩
    · exact ih _ _ (by omega) (by omega)

theorem repr_ne_nil (n : Nat) : (toString n).data ≠ [] := fun h =>
  formatInt_ne_empty n (String.ext h)

theorem scanUnsigned_repr (n : Nat) : scanUnsigned (toString n).data = some [] := by
  rcases Nat.eq_zero_or_pos n with rfl | hn
  · rfl
  obtain ⟨c, cs, hcs, hc0⟩ := toDigitsCore_head (n + 1) n [] hn (by omega)
  have hd : ∀ d ∈ c :: cs, d.isDigit = true := fun d hd => isDigit_of_mem_repr n (by
    show d ∈ Nat.toDigitsCore 10 (n + 1) n []
    rw [hcs]; exact hd)
  have hdw : cs.dropWhile Char.isDigit = [] :=
    List.dropWhile_eq_nil_iff.mpr fun d h => hd d (List.mem_cons_of_mem c h)
  have hint : scanInt (c :: cs) = some [] := by
    unfold scanInt
    split
    · next h => exact absurd (List.cons.inj h).1 hc0
    · simp only [scanDigits, hd c (List.mem_cons_self c cs), if_true, hdw]
  show scanUnsigned (Nat.toDigitsCore 10 (n + 1) n []) = some []
  rw [hcs, scanUnsigned, hint]
  rfl

/-- The text `FormatInt` writes is a JSON number. -/
theorem numberLit_formatInt (x : Int) : numberLit (formatInt x).data = true := by
  have h : scanNumber (formatInt x).data = some [] := by
    cases x with
    | ofNat n =>
      show scanNumber (toString n).data = some []
      unfold scanNumber
      split
      · next r h => exact absurd (h ▸ List.mem_cons_self '-' r) (minus_not_mem_repr n)
      · exact scanUnsigned_repr n
    | negSucc n => exact scanUnsigned_repr (n + 1)
  simp [numberLit, h]

theorem formatInt_head (x : Int) :
    ∃ c cs, (formatInt x).data = c :: cs ∧ (c = '-' ∨ c.isDigit) := by
  cases x with
  | ofNat n =>
    obtain ⟨c, cs, hcs⟩ := List.exists_cons_of_ne_nil (repr_ne_nil n)
    exact ⟨c, cs, hcs, .inr (isDigit_of_mem_repr n (hcs ▸ List.mem_cons_self c cs))⟩
  | negSucc n => exact ⟨'-', _, rfl, .inl rfl⟩

/-! ## 5. The text `MarshalJSON` writes -/

/-- `FormatInt`'s text as a JSON number. -/
def formatNumber (x : Int) : JsonNumber := ⟨formatInt x, formatInt_head x⟩

/-- **A rendered object decodes member by member.** The text `json.Marshal` writes for a
    non-empty object of valid values decodes, as a `jerror`, into what the walk over its members,
    each key with its value's text, leaves. -/
theorem unmarshalJError_render (kvs : List (String × Json)) (hne : kvs ≠ [])
    (hv : Json.validMembers kvs = true) (hc : checkValid (Json.object kvs).render.data = true) :
    unmarshalJError (Json.object kvs).render.data =
      match storeMembers (kvs.map fun kv => (kv.1, kv.2.render.data)) .zero none with
      | (v, none) => .ok v
      | (_, some err) => .error err := by
  obtain ⟨kv, kvs, rfl⟩ := List.exists_cons_of_ne_nil hne
  simp only [unmarshalJError, hc, Bool.not_true, Bool.false_eq_true, if_false, skipSpace_render_nil]
  rw [render_object]
  obtain ⟨tl, hsk, hm⟩ := members_render kv kvs
    (('\x7b' :: ((Json.renderMembers (kv :: kvs)).data ++ ['\x7d'])).length + 1) hv (by simp)
  simp only [hsk]
  split
  · next h => exact absurd (List.cons.inj h).1 (by decide)
  · rw [hm]

theorem formatInt_chars (x : Int) : ∀ c ∈ (formatInt x).data, c = '-' ∨ c.isDigit = true := by
  cases x with
  | ofNat n => exact fun c h => .inr (isDigit_of_mem_repr n h)
  | negSucc n =>
    intro c h
    rcases List.mem_cons.mp h with rfl | h
    · exact .inl rfl
    · exact .inr (isDigit_of_mem_repr (n + 1) h)

/-- Two lists that each hold `x` after a part without it agree on that part and on what follows
    `x`. -/
theorem append_cons_cancel {x : Char} :
    ∀ {p q s t : List Char}, x ∉ p → x ∉ q → p ++ x :: s = q ++ x :: t → p = q ∧ s = t
  | [], [], _, _, _, _, h => ⟨rfl, (List.cons.inj h).2⟩
  | [], b :: _, _, _, _, hq, h => absurd ((List.cons.inj h).1 ▸ List.mem_cons_self b _) hq
  | a :: _, [], _, _, hp, _, h => absurd ((List.cons.inj h).1 ▸ List.mem_cons_self a _) hp
  | a :: _, b :: _, _, _, hp, hq, h => by
    obtain ⟨rfl, htail⟩ := List.cons.inj h
    obtain ⟨rfl, rfl⟩ := append_cons_cancel (fun m => hp (List.mem_cons_of_mem a m))
      (fun m => hq (List.mem_cons_of_mem a m)) htail
    exact ⟨rfl, rfl⟩

theorem bracket_not_mem_formatInt (x : Int) : ']' ∉ (formatInt x).data := fun h => by
  rcases formatInt_chars x _ h with h | h <;> exact absurd h (by decide)

/-- **The text of an error names its code and its message.** Two errors print alike under
    `Error()` exactly when they have the same code and the same message. -/
theorem error_text_injective (e1 e2 : Error) :
    e1.error = e2.error ↔ e1.Code = e2.Code ∧ e1.Message = e2.Message := by
  constructor
  · intro h
    have hl := congrArg String.data h
    simp only [Error.error, String.data_append, List.append_assoc,
      show "[".data = ['['] from rfl, show "] ".data = [']', ' '] from rfl, List.singleton_append,
      List.cons_append, List.cons.injEq, true_and] at hl
    obtain ⟨hc, hm⟩ := append_cons_cancel (bracket_not_mem_formatInt _)
      (bracket_not_mem_formatInt _) hl
    simp only [List.nil_append, List.cons.injEq, true_and] at hm
    exact ⟨Int32.ext (formatInt_injective (String.ext hc)), String.ext hm⟩
  · rintro ⟨h1, h2⟩
    rw [Error.error, Error.error, h1, h2]

/-! ## 9. Decoding, value by value -/

/-- The kind a `*json.UnmarshalTypeError` names for a value. -/
def Json.kind : Json → String
  | .null => "null"
  | .bool _ => "bool"
  | .number _ => "number"
  | .string _ => "string"
  | .array _ => "array"
  | .object _ => "object"

/-- What a member's value does to field `f` of `v`, read off the value rather than its text: the
    `jerror` after it, or the type error it is. `null` leaves an `int32` and a `string` as they
    were; a `json.RawMessage` takes the text of any value. -/
def takeValue (v : JErrorFields) : Field → Json → Except String JErrorFields
  | .D, j => .ok { v with D := j.render.data }
  | .C, .null | .M, .null => .ok v
  | .C, .number n =>
    match parseInt n.text.data with
    | some x =>
      if h : -2 ^ 31 ≤ x ∧ x < 2 ^ 31 then .ok { v with C := ⟨x, h⟩ }
      else .error (fieldTypeError ("number " ++ n.text) .C "int32")
    | none => .error (fieldTypeError ("number " ++ n.text) .C "int32")
  | .C, j => .error (fieldTypeError j.kind .C "int32")
  | .M, .string s => .ok { v with M := s }
  | .M, j => .error (fieldTypeError j.kind .M "string")

/-- The members of an object decoded one after another, each by the type of the field its key
    names, a member naming no field skipped; the first type error ends the decoding. -/
def decodeValues : List (String × Json) → JErrorFields → Except String JErrorFields
  | [], v => .ok v
  | (k, j) :: kvs, v =>
    match fieldOf k with
    | none => decodeValues kvs v
    | some f => (takeValue v f j).bind (decodeValues kvs)

/-- A number's text starts with `-` or a digit, which the decoder takes for a number. -/
theorem number_head (n : JsonNumber) :
    ∃ c cs, n.text.data = c :: cs ∧ c ≠ 'n' ∧ c ≠ '"' ∧ (c = '-' ∨ c.isDigit = true) := by
  obtain ⟨c, cs, hcs, hc⟩ := n.head
  refine ⟨c, cs, hcs, ?_, ?_, hc⟩ <;> (rintro rfl; rcases hc with h | h <;> exact absurd h (by decide))

theorem valueKind_number {c : Char} (hc : c = '-' ∨ c.isDigit = true) : valueKind c = "number" := by
  rcases hc with rfl | hd
  · rfl
  · unfold valueKind kindName
    split
    · next h => subst h; exact absurd hd (by decide)
    · split <;> first | rfl | exact absurd hd (by decide)

/-- The decoder's store of a member's text is the value's decoding. -/
theorem storeField_render (v : JErrorFields) (f : Field) (j : Json) :
    storeField v f j.render.data =
      match takeValue v f j with
      | .ok w => (w, none)
      | .error err => (v, some err) := by
  cases f with
  | D => rfl
  | C =>
    cases j with
    | null => rfl
    | bool b => cases b <;> rfl
    | number n =>
      obtain ⟨c, cs, hcs, hn, -, hc⟩ := number_head n
      have ht : String.mk (c :: cs) = n.text := by rw [← hcs]
      simp only [Json.render, storeField, takeValue, hcs, if_neg hn, if_pos hc, ht]
      cases parseInt (c :: cs) with
      | none => rfl
      | some x => dsimp only; split_ifs <;> rfl
    | string s => rw [Json.render, quote_data]; rfl
    | array xs => rw [render_array]; rfl
    | object kvs => rw [render_object]; rfl
  | M =>
    cases j with
    | null => rfl
    | bool b => cases b <;> rfl
    | number n =>
      obtain ⟨c, cs, hcs, hn, hq, hc⟩ := number_head n
      simp only [Json.render, storeField, hcs, if_neg hn, if_neg hq, valueKind_number hc]
      rfl
    | string s =>
      rw [Json.render, quote_escaped]
      simp only [storeField, List.dropLast_concat, unquoteBody_escaped]
      rfl
    | array xs => rw [render_array]; rfl
    | object kvs => rw [render_object]; rfl

/-- Once a type error is saved, the walk keeps it. -/
theorem storeMembers_some (e : String) :
    ∀ (ms : List (String × List Char)) (v : JErrorFields), ∃ w, storeMembers ms v (some e) = (w, some e)
  | [], v => ⟨v, rfl⟩
  | (k, _) :: ms, v => by
    rw [storeMembers]
    split
    · exact storeMembers_some e ms v
    · exact storeMembers_some e ms _

/-- The decoder's walk, which keeps the first type error and goes on, ends as the decoding that
    stops at it. -/
theorem storeMembers_values : ∀ (kvs : List (String × Json)) (v : JErrorFields),
    (match storeMembers (kvs.map fun kv => (kv.1, kv.2.render.data)) v none with
      | (w, none) => Except.ok w
      | (_, some err) => .error err) = decodeValues kvs v
  | [], _ => rfl
  | (k, j) :: kvs, v => by
    simp only [List.map_cons, storeMembers, decodeValues]
    cases fieldOf k with
    | none => exact storeMembers_values kvs v
    | some f =>
      simp only [storeField_render v f j]
      cases takeValue v f j with
      | ok w => exact storeMembers_values kvs w
      | error err =>
        obtain ⟨w, hw⟩ := storeMembers_some err (kvs.map fun kv => (kv.1, kv.2.render.data)) v
        simp only [Option.none_or, hw]
        rfl

/-- `UnmarshalJSON` of a rendered object is `decodeValues` of its members. -/
theorem unmarshalJSON_eq_decodeValues (e0 : Error) (kvs : List (String × Json))
    (hv : Json.validMembers kvs = true) (hc : checkValid (Json.object kvs).render.data = true) :
    e0.unmarshalJSON (Json.object kvs).render.data =
      match decodeValues kvs .zero with
      | .ok v => ({ Code := v.C, Message := v.M, Data := v.D }, none)
      | .error err => (e0, some err) := by
  cases kvs with
  | nil => rfl
  | cons kv kvs =>
    rw [Error.unmarshalJSON, unmarshalJError_render _ (List.cons_ne_nil _ _) hv hc,
      ← storeMembers_values]

/-- **Reading an error object is decoding its members' values in turn.** For every object of
    valid values within the nesting limit, `UnmarshalJSON` of the text `json.Marshal` writes for it
    decodes the members in
    order, each by the type of the field its key names (up to case), members naming no field
    skipped and `null` leaving a code or message as it was. It sets the error's three fields from
    the result, or, at the first member whose value does not fit its field, returns that type
    error and leaves the error as it was. -/
theorem unmarshalJSON_object (e0 : Error) (kvs : List (String × Json))
    (hv : Json.validMembers kvs = true) (hd : (Json.object kvs).depth ≤ maxNestingDepth) :
    e0.unmarshalJSON (Json.object kvs).render.data =
      match decodeValues kvs .zero with
      | .ok v => ({ Code := v.C, Message := v.M, Data := v.D }, none)
      | .error err => (e0, some err) :=
  unmarshalJSON_eq_decodeValues e0 kvs hv (checkValid_depth hv hd)

theorem unmarshalJSON_mixed_keys :
    let kvs : List (String × Json) :=
      [("CODE", .number ⟨"7", '7', [], rfl, .inr rfl⟩), ("Message", .string "a"),
        ("code", .number ⟨"-32600", '-', _, rfl, .inl rfl⟩), ("message", .null), ("id", .bool true)]
    Json.validMembers kvs = true ∧ (Json.object kvs).depth ≤ maxNestingDepth ∧
      (errorf .zero "").unmarshalJSON (Json.object kvs).render.data =
        match decodeValues kvs .zero with
        | .ok v => ({ Code := v.C, Message := v.M, Data := v.D }, none)
        | .error err => (errorf .zero "", some err) :=
  ⟨rfl, by decide, unmarshalJSON_object _ _ rfl (by decide)⟩

/-! ## 10. Which member a field takes -/

/-- Whether a value is `null`. -/
def Json.isNull : Json → Bool
  | .null => true
  | _ => false

/-- The value of the last member of `kvs` whose key names field `f` and whose value `keep`
    accepts. -/
def lastNamed (f : Field) (keep : Json → Bool) : List (String × Json) → Option Json
  | [] => none
  | (k, j) :: kvs =>
    (lastNamed f keep kvs).or (if fieldOf k = some f ∧ keep j = true then some j else none)

section TakeValue

variable {v w : JErrorFields} {f : Field} {j : Json}

/-- Everything a member's value that fits its field can do. -/
theorem takeValue_ok (h : takeValue v f j = .ok w) :
    (f = .D ∧ w = { v with D := j.render.data }) ∨ (f ≠ .D ∧ j = .null ∧ w = v) ∨
      (f = .M ∧ ∃ s, j = .string s ∧ w = { v with M := s }) ∨
      (f = .C ∧ ∃ n x hx, j = .number n ∧ parseInt n.text.data = some x ∧
        w = { v with C := ⟨x, hx⟩ }) := by
  unfold takeValue at h
  split at h
  · exact .inl ⟨rfl, (Except.ok.inj h).symm⟩
  · exact .inr (.inl ⟨nofun, rfl, (Except.ok.inj h).symm⟩)
  · exact .inr (.inl ⟨nofun, rfl, (Except.ok.inj h).symm⟩)
  · split at h
    · split at h
      · exact .inr (.inr (.inr ⟨rfl, _, _, _, rfl, ‹_›, (Except.ok.inj h).symm⟩))
      · cases h
    · cases h
  · cases h
  · exact .inr (.inr (.inl ⟨rfl, _, rfl, (Except.ok.inj h).symm⟩))
  · cases h

theorem takeValue_data (h : takeValue v f j = .ok w) :
    if f = .D ∧ true = true then w.D = j.render.data else w.D = v.D := by
  rcases takeValue_ok h with ⟨rfl, rfl⟩ | ⟨hf, -, rfl⟩ | ⟨rfl, -, -, rfl⟩ | ⟨rfl, -, -, -, -, -, rfl⟩ <;>
    simp [*]

theorem takeValue_message (h : takeValue v f j = .ok w) :
    if f = .M ∧ (!j.isNull) = true then j = .string w.M else w.M = v.M := by
  rcases takeValue_ok h with ⟨rfl, rfl⟩ | ⟨-, rfl, rfl⟩ | ⟨rfl, s, rfl, rfl⟩ | ⟨rfl, -, -, -, -, -, rfl⟩ <;>
    simp [Json.isNull]

theorem takeValue_code (h : takeValue v f j = .ok w) :
    if f = .C ∧ (!j.isNull) = true then ∃ n, j = .number n ∧ parseInt n.text.data = some w.C.val
    else w.C = v.C := by
  rcases takeValue_ok h with ⟨rfl, rfl⟩ | ⟨-, rfl, rfl⟩ | ⟨rfl, -, -, rfl⟩ | ⟨rfl, n, x, hx, rfl, hp, rfl⟩
  · simp
  · simp [Json.isNull]
  · simp
  · rw [if_pos ⟨rfl, rfl⟩]; exact ⟨n, rfl, hp⟩

end TakeValue

/-- A decoding that ends well leaves a field as the last member that counts for it set it, or as
    it was when none does: given what one member does to the field (`hstep`), by induction over
    the members. -/
theorem decodeValues_lastNamed {β : Type} (proj : JErrorFields → β) (Q : Json → β → Prop)
    (f : Field) (keep : Json → Bool)
    (hstep : ∀ v w g j, takeValue v g j = .ok w →
      if g = f ∧ keep j = true then Q j (proj w) else proj w = proj v) :
    ∀ (kvs : List (String × Json)) (v w : JErrorFields), decodeValues kvs v = .ok w →
      match lastNamed f keep kvs with
      | none => proj w = proj v
      | some j => Q j (proj w)
  | [], _, _, h => by cases h; rfl
  | (k, j) :: kvs, v, w, h => by
    have ih := decodeValues_lastNamed proj Q f keep hstep kvs
    simp only [decodeValues] at h
    cases hf : fieldOf k with
    | none =>
      simp only [hf] at h
      simpa [lastNamed, hf] using ih v w h
    | some g =>
      simp only [hf] at h
      cases ht : takeValue v g j with
      | error e => rw [ht] at h; cases h
      | ok v' =>
        rw [ht] at h
        have hs := hstep v v' g j ht
        have ih' := ih v' w h
        simp only [lastNamed, hf, Option.some.injEq]
        cases hl : lastNamed f keep kvs with
        | some j' => rw [hl] at ih'; exact ih'
        | none =>
          rw [hl] at ih'
          by_cases hc : g = f ∧ keep j = true
          · rw [if_pos hc] at hs
            simp only [Option.none_or, if_pos hc, ih', hs]
          · rw [if_neg hc] at hs
            simp only [Option.none_or, if_neg hc, ih', hs]

/-- **A field takes the last member that names it.** For every object of valid values that
    `UnmarshalJSON` reads without an error, the error's data is the text of the value of the last
    member whose key names `data` (up to case), or nil when none does; its message is the string
    of the last member naming `message` whose value is not `null`, or empty when there is none;
    its code is the number of the last such member naming `code`, or 0. Members whose keys name no
    field change nothing. -/
theorem unmarshalJSON_last_member (e0 : Error) (kvs : List (String × Json))
    (hv : Json.validMembers kvs = true)
    (hok : (e0.unmarshalJSON (Json.object kvs).render.data).2 = none) :
    let e := (e0.unmarshalJSON (Json.object kvs).render.data).1
    e.Data = ((lastNamed .D (fun _ => true) kvs).map (·.render.data)).getD [] ∧
      (match lastNamed .M (! ·.isNull) kvs with
        | none => e.Message = ""
        | some j => j = .string e.Message) ∧
      (match lastNamed .C (! ·.isNull) kvs with
        | none => e.Code = .zero
        | some j => ∃ n, j = .number n ∧ parseInt n.text.data = some e.Code.val) := by
  intro e
  have hc : checkValid (Json.object kvs).render.data = true := by
    cases hc : checkValid (Json.object kvs).render.data
    · simp [Error.unmarshalJSON, unmarshalJError, hc] at hok
    · rfl
  simp only [e, unmarshalJSON_eq_decodeValues e0 kvs hv hc] at hok ⊢
  cases hd : decodeValues kvs .zero with
  | error err => rw [hd] at hok; cases hok
  | ok w =>
    have hD := decodeValues_lastNamed (·.D) (fun j d => d = j.render.data) .D (fun _ => true)
      (fun _ _ _ _ => takeValue_data) kvs .zero w hd
    have hM := decodeValues_lastNamed (·.M) (fun j m => j = .string m) .M (! ·.isNull)
      (fun _ _ _ _ => takeValue_message) kvs .zero w hd
    have hC := decodeValues_lastNamed (·.C) (fun j c => ∃ n, j = .number n ∧ parseInt n.text.data = some c.val)
      .C (! ·.isNull) (fun _ _ _ _ => takeValue_code) kvs .zero w hd
    refine ⟨?_, hM, hC⟩
    cases hl : lastNamed .D (fun _ => true) kvs <;> rw [hl] at hD <;> simpa using hD

theorem unmarshalJSON_later_code :
    let kvs : List (String × Json) :=
      [("CODE", .number ⟨"7", '7', [], rfl, .inr rfl⟩), ("code", .number ⟨"-2", '-', _, rfl, .inl rfl⟩),
        ("message", .null), ("Data", .bool true)]
    let e := ((errorf .zero "").unmarshalJSON (Json.object kvs).render.data).1
    Json.validMembers kvs = true ∧
      ((errorf .zero "").unmarshalJSON (Json.object kvs).render.data).2 = none ∧
      e.Data = ((lastNamed .D (fun _ => true) kvs).map (·.render.data)).getD [] ∧
      (match lastNamed .M (! ·.isNull) kvs with
        | none => e.Message = ""
        | some j => j = .string e.Message) ∧
      (match lastNamed .C (! ·.isNull) kvs with
        | none => e.Code = .zero
        | some j => ∃ n, j = .number n ∧ parseInt n.text.data = some e.Code.val) :=
  ⟨rfl, rfl, unmarshalJSON_last_member _ _ rfl rfl⟩

end Jrpc2
