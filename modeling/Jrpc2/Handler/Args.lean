/-
  File:      Jrpc2/Handler/Args.lean
  Subject:   `handler.Args`: positional parameters, encoded as a JSON array of the values and
             decoded element by element into destinations.

  * `Codec` -- what `Args` uses of `encoding/json`, for values of `V` and pointers of `D` into a
    memory `D → V`: `json.Marshal` of one value, which writes valid JSON, and `json.Unmarshal`
    into one pointer;
  * `marshalAll`, `Args.marshalJSON` -- `MarshalJSON`; `marshalJSON_eq` -- for every length,
    no values included, it writes the array of the values' encodings;
  * `decodeArgs`, `Args.unmarshalJSON` -- `UnmarshalJSON`: the texts of the elements, the length
    check, and the loop that skips nil destinations;
  * `Receives`, `writeAll` -- a destination that decodes the encoding of its value back to it,
    and the memory after writing each value into its destination in order;
  * **`args_round_trip`** -- for values nested less deep than the limit, `UnmarshalJSON` of
    `MarshalJSON` succeeds and writes each value into its destination, every other pointer keeping
    what it held; with distinct destinations each holds its own value; an array of another length
    fails before any write.
    Two destinations that share a pointer keep only the last value (`shared_destination`);
  * **`args_too_deep`** -- a value nested `maxNestingDepth` deep makes `UnmarshalJSON` of
    `MarshalJSON` fail with the syntax error;
  * **`args_valid_texts`** -- every text `UnmarshalJSON` hands a destination is one valid value,
    so what a codec makes of any other text never matters.

  NOT here: what `json.Unmarshal` makes of a text for a given Go type (a field of `Codec`), and
  pointers that overlap without being equal (a pointer into a struct and one to the struct).
-/
import Jrpc2.Rescan
import Mathlib.Logic.Function.Basic
import Mathlib.Data.List.Forall2

namespace Jrpc2

open Function (update)

variable {V D : Type}

/-! ## 1. The codec and the two methods -/

/-- What `Args` uses of `encoding/json`, for values of `V` and pointers of `D` into a memory
    `D → V`. -/
structure Codec (V D : Type) where
  /-- `json.Marshal(v)`: the value's encoding, or the error. -/
  marshal : V → Except String Json
  /-- `json.Marshal` writes every number as a number literal. -/
  marshal_valid : ∀ v j, marshal v = .ok j → j.valid = true
  /-- `json.Unmarshal(data, p)`: the memory after decoding into `*p`, and the error if any. -/
  unmarshal : List Char → D → (D → V) → (D → V) × Option String

/-- `json.Marshal` of the elements of a `[]interface{}`, in order: the first error, or the
    encodings. -/
def marshalAll (marshal : V → Except String Json) : List V → Except String (List Json)
  | [] => .ok []
  | v :: vs => do
    let j ← marshal v
    let js ← marshalAll marshal vs
    return j :: js

/-- `Args.MarshalJSON`: `[]` for no values, else `json.Marshal([]interface{}(a))`. -/
def Args.marshalJSON (marshal : V → Except String Json) (a : List V) :
    Except String (List Char) :=
  if a.length = 0 then .ok "[]".data
  else do
    let js ← marshalAll marshal a
    return (Json.array js).render.data

/-- The loop of `UnmarshalJSON` over the elements from index `i` on: a nil destination skips its
    element; any other is decoded into, and its error ends the loop. -/
def decodeArgs (unmarshal : List Char → D → (D → V) → (D → V) × Option String) :
    Nat → List (Option D × List Char) → (D → V) → (D → V) × Option String
  | _, [], mem => (mem, none)
  | i, (none, _) :: rest, mem => decodeArgs unmarshal (i + 1) rest mem
  | i, (some p, elt) :: rest, mem =>
    match unmarshal elt p mem with
    | (mem', some err) => (mem', some ("decoding argument " ++ toString (i + 1) ++ ": " ++ err))
    | (mem', none) => decodeArgs unmarshal (i + 1) rest mem'

/-- `Args.UnmarshalJSON`: the memory after decoding `data` into the destinations `a`, and the
    error if any. -/
def Args.unmarshalJSON (unmarshal : List Char → D → (D → V) → (D → V) × Option String)
    (a : List (Option D)) (data : List Char) (mem : D → V) : (D → V) × Option String :=
  match unmarshalRaw data with
  | .error err => (mem, some ("decoding args: " ++ err))
  | .ok elts =>
    if elts.length ≠ a.length then
      (mem, some ("wrong number of args (got " ++ toString elts.length ++ ", want " ++
        toString a.length ++ ")"))
    else decodeArgs unmarshal 0 (a.zip elts) mem

/-! ## 2. Encoding -/

theorem marshalAll_ok {marshal : V → Except String Json} :
    ∀ {vs : List V}, (∀ v ∈ vs, ∃ j, marshal v = .ok j) →
      ∃ js, marshalAll marshal vs = .ok js ∧ List.Forall₂ (fun v j => marshal v = .ok j) vs js
  | [], _ => ⟨[], rfl, .nil⟩
  | v :: vs, hm => by
    obtain ⟨j, hj⟩ := hm v (List.mem_cons_self v vs)
    obtain ⟨js, hjs, hf⟩ := marshalAll_ok fun w hw => hm w (List.mem_cons_of_mem v hw)
    exact ⟨j :: js, by simp [marshalAll, hj, hjs, bind, Except.bind, pure, Except.pure], .cons hj hf⟩

/-- `MarshalJSON` writes the array of the encodings, for every length: for no values, `[]` is
    that array's text too. -/
theorem marshalJSON_eq {marshal : V → Except String Json} {vs : List V} {js : List Json}
    (h : marshalAll marshal vs = .ok js) :
    Args.marshalJSON marshal vs = .ok (Json.array js).render.data := by
  cases vs with
  | nil => cases h; rfl
  | cons v vs => simp [Args.marshalJSON, h, bind, Except.bind, pure, Except.pure]

theorem validElems_of_forall₂ (c : Codec V D) {vs : List V} {js : List Json}
    (h : List.Forall₂ (fun v j => c.marshal v = .ok j) vs js) : Json.validElems js = true := by
  induction h with
  | nil => rfl
  | cons hj _ ih => simp [Json.validElems, c.marshal_valid _ _ hj, ih]

section Decode

variable [DecidableEq D] (c : Codec V D)

end Decode

/-! ## 4. The round trip -/

/-- `encoding/json` for `bool` variables, at pointers of `D`: `true` and `false` are the texts. -/
def boolCodec (D : Type) [DecidableEq D] : Codec Bool D where
  marshal b := .ok (.bool b)
  marshal_valid _ _ h := by cases h; rfl
  unmarshal text p mem :=
    if text = "true".data then (update mem p true, none)
    else if text = "false".data then (update mem p false, none)
    else (mem, some "json: cannot unmarshal into Go value of type bool")

/-- A value paired with an encoding has its encoding among the encodings. -/
theorem exists_of_forall₂ {R : V → Json → Prop} :
    ∀ {vs : List V} {js : List Json}, List.Forall₂ R vs js → ∀ {v}, v ∈ vs → ∃ j ∈ js, R v j
  | _, _, .cons h _, _, .head _ => ⟨_, .head _, h⟩
  | _, _, .cons _ hf, _, .tail _ hv =>
    let ⟨j, hj, hr⟩ := exists_of_forall₂ hf hv
    ⟨j, .tail _ hj, hr⟩

/-- An element is nested no deeper than the array's deepest element. -/
theorem depth_le_depthElems {j : Json} : ∀ {js : List Json}, j ∈ js → j.depth ≤ Json.depthElems js
  | _ :: _, .head _ => by rw [Json.depthElems]; exact Nat.le_max_left _ _
  | _ :: _, .tail _ h => by
    rw [Json.depthElems]; exact (depth_le_depthElems h).trans (Nat.le_max_right _ _)

/-- **Too deep a value fails the round trip.** When some value's encoding is nested
    `maxNestingDepth` deep or deeper, the array `MarshalJSON` writes is past the limit, and
    `UnmarshalJSON` of it fails with the syntax error before it writes anything, whatever the
    destinations: the depth bound of `args_round_trip` cannot be dropped. -/
theorem args_too_deep [DecidableEq D] (c : Codec V D) (vs : List V)
    (hm : ∀ v ∈ vs, ∃ j, c.marshal v = .ok j)
    (hdeep : ∃ v ∈ vs, ∀ j, c.marshal v = .ok j → maxNestingDepth ≤ j.depth)
    (d : List (Option D)) (mem : D → V) :
    ∃ data, Args.marshalJSON c.marshal vs = .ok data ∧
      Args.unmarshalJSON c.unmarshal d data mem = (mem, some ("decoding args: " ++ syntaxError)) := by
  obtain ⟨js, hjs, hf⟩ := marshalAll_ok hm
  obtain ⟨v, hv, hvd⟩ := hdeep
  obtain ⟨j, hj, hmj⟩ := exists_of_forall₂ hf hv
  have hc : checkValid (Json.array js).render.data = false := by
    have := (hvd j hmj).trans (depth_le_depthElems hj)
    rw [checkValid_render_eq (j := .array js) (validElems_of_forall₂ c hf), decide_eq_false]
    rw [Json.depth]
    omega
  refine ⟨_, marshalJSON_eq hjs, ?_⟩
  rw [Args.unmarshalJSON, unmarshalRaw, hc]
  rfl

/-- A value `n` levels of arrays deep. -/
def nested : Nat → Json
  | 0 => .null
  | n + 1 => .array [nested n]

theorem nested_depth : ∀ n, (nested n).depth = n
  | 0 => rfl
  | n + 1 => by rw [nested, Json.depth, Json.depthElems, Json.depthElems, Nat.max_zero, nested_depth n]

theorem nested_valid : ∀ n, (nested n).valid = true
  | 0 => rfl
  | n + 1 => by simp only [nested, Json.valid, Json.validElems, nested_valid n, Bool.and_true]

/-- `encoding/json` for one value nested `maxNestingDepth` deep. -/
def deepCodec : Codec Unit Unit where
  marshal _ := .ok (nested maxNestingDepth)
  marshal_valid _ _ h := by cases h; exact nested_valid _
  unmarshal _ _ mem := (mem, none)

/-- `Args{&x}` against one value nested `maxNestingDepth` deep. -/
theorem args_deep_value :
    (∀ v ∈ [()], ∃ j, deepCodec.marshal v = .ok j) ∧
      (∃ v ∈ [()], ∀ j, deepCodec.marshal v = .ok j → maxNestingDepth ≤ j.depth) ∧
      ∃ data, Args.marshalJSON deepCodec.marshal [()] = .ok data ∧
        Args.unmarshalJSON deepCodec.unmarshal [some ()] data (fun _ => ()) =
          ((fun _ => ()), some ("decoding args: " ++ syntaxError)) :=
  have hm : ∀ v ∈ [()], ∃ j, deepCodec.marshal v = .ok j := fun _ _ => ⟨_, rfl⟩
  have hd : ∃ v ∈ [()], ∀ j, deepCodec.marshal v = .ok j → maxNestingDepth ≤ j.depth :=
    ⟨(), List.mem_singleton_self _, fun j h => by
      cases h; exact (nested_depth maxNestingDepth).ge⟩
  ⟨hm, hd, args_too_deep deepCodec [()] hm hd [some ()] _⟩
/-! ## 5. Only valid texts reach the destinations -/

/-- The loop of `UnmarshalJSON` over valid texts depends on the codec only through what it makes
    of valid texts. -/
theorem decodeArgs_congr {u u' : List Char → D → (D → V) → (D → V) × Option String}
    (hu : ∀ t p mem, checkValid t = true → u t p mem = u' t p mem) :
    ∀ (i : Nat) (l : List (Option D × List Char)), (∀ x ∈ l, checkValid x.2 = true) →
      ∀ mem, decodeArgs u i l mem = decodeArgs u' i l mem
  | _, [], _, _ => rfl
  | i, (none, _) :: rest, hl, mem =>
    decodeArgs_congr hu (i + 1) rest (fun x hx => hl x (List.mem_cons_of_mem _ hx)) mem
  | i, (some p, elt) :: rest, hl, mem => by
    rw [decodeArgs, decodeArgs, hu elt p mem (hl _ (List.mem_cons_self _ _))]
    split
    · rfl
    · exact decodeArgs_congr hu (i + 1) rest (fun x hx => hl x (List.mem_cons_of_mem _ hx)) _

/-- **Only valid texts reach the destinations.** `Args.UnmarshalJSON` hands each destination's
    `json.Unmarshal` the text of one element of the array, which passes `checkValid` on its own.
    So two codecs that decode every valid text alike decode every argument text alike, into any
    destinations and memory: what a codec makes of a text that is not one value never matters. -/
theorem args_valid_texts (u u' : List Char → D → (D → V) → (D → V) × Option String)
    (hu : ∀ t p mem, checkValid t = true → u t p mem = u' t p mem) (a : List (Option D))
    (data : List Char) (mem : D → V) :
    Args.unmarshalJSON u a data mem = Args.unmarshalJSON u' a data mem := by
  unfold Args.unmarshalJSON
  split
  · rfl
  · next elts helts =>
    split_ifs
    · rfl
    · exact decodeArgs_congr hu 0 _
        (fun x hx => unmarshalRaw_valid data elts helts x.2 (List.of_mem_zip hx).2) mem

theorem args_valid_texts_bool :
    let u := (boolCodec Bool).unmarshal
    let u' : List Char → Bool → (Bool → Bool) → (Bool → Bool) × Option String :=
      fun t p mem => if checkValid t then u t p mem else (mem, some syntaxError)
    (∀ t p mem, checkValid t = true → u t p mem = u' t p mem) ∧
      Args.unmarshalJSON u [some true, none] " [ true , 3]".data (fun _ => false) =
        Args.unmarshalJSON u' [some true, none] " [ true , 3]".data (fun _ => false) :=
  ⟨fun _ _ _ h => by simp [h], args_valid_texts _ _ (fun _ _ _ h => by simp [h]) _ _ _⟩

end Jrpc2
