/-
  File:      Jrpc2/Wire.lean
  Subject:   The wire model the client moves around: error codes, the `jerror`, `jrequest` and
             `jresponse` records, and JSON values with the compact text `json.Marshal` emits.

  * `Code` -- the codes of the `code` package the core produces or inspects;
  * `JError`, `JRequest`, `JResponse` -- the wire records; an ID, a method's params and a result
    are kept as their raw JSON text, `""` standing for an absent (nil) `json.RawMessage`;
  * `Json`, `Json.render` -- a JSON value and its compact encoding, and `Json.isStructured`, the
    kinds JSON-RPC admits as params.

  NOT here: the `jrequests` / `jresponses` batch decoders (outside src); a frame on the channel is
  kept as the list of records it carries.
-/
import Mathlib.Data.List.Basic

namespace Jrpc2

/-! ## 1. Codes and records -/

/-- The error codes of the `code` package that this core produces or inspects. -/
inductive Code where
  | parseError
  | invalidRequest
  | methodNotFound
  | invalidParams
  | internalError
  | cancelled
  | deadlineExceeded
  | systemError
  | other (n : Int)
  deriving DecidableEq, Repr

/-- `jerror`: the error object of a response. -/
structure JError where
  code : Code
  message : String
  data : String := ""
  deriving DecidableEq, Repr

/-- `jerrorf(code, msg)`, with the message already formatted. -/
def jerrorf (code : Code) (message : String) : JError := { code, message }

/-- `jrequest`: one request or notification of an outbound batch. -/
structure JRequest where
  V : String
  ID : String
  M : String
  P : String
  deriving DecidableEq, Repr

/-- `jresponse`: one response of an inbound batch. -/
structure JResponse where
  V : String
  ID : String
  R : String := ""
  E : Option JError := none
  deriving DecidableEq, Repr

/-- `Version`, the protocol marker every request carries. -/
def Version : String := "2.0"

/-- The ID of a request that expects a reply: `string(req.ID)` when it is not empty. -/
def JRequest.pendingID (r : JRequest) : Option String :=
  if r.ID = "" then none else some r.ID

/-- The IDs of a batch that `send` registers, in batch order. -/
def batchIDs (reqs : List JRequest) : List String := reqs.filterMap JRequest.pendingID

@[simp] theorem batchIDs_nil : batchIDs [] = [] := rfl

@[simp] theorem batchIDs_cons (r : JRequest) (rs : List JRequest) :
    batchIDs (r :: rs) = (r.pendingID.toList ++ batchIDs rs) := by
  cases h : r.pendingID <;> simp [batchIDs, List.filterMap_cons, h]

@[simp] theorem batchIDs_append (rs ts : List JRequest) :
    batchIDs (rs ++ ts) = batchIDs rs ++ batchIDs ts := List.filterMap_append _ _ _

/-! ## 2. JSON values and their compact text -/

/-- The text of a JSON number as `encoding/json` writes it: an optional minus sign, then digits
    (`-?(0|[1-9][0-9]*)(\.[0-9]+)?([eE][+-]?[0-9]+)?`); only its leading byte matters here. -/
structure JsonNumber where
  text : String
  head : ∃ c cs, text.data = c :: cs ∧ (c = '-' ∨ c.isDigit)

/-- A JSON value. -/
inductive Json where
  | null
  | bool (b : Bool)
  | number (n : JsonNumber)
  | string (s : String)
  | array (xs : List Json)
  | object (kvs : List (String × Json))

/-- The lower-case hex digit `encoding/json` writes for `d < 16`. -/
def hexDigit (d : Nat) : Char := if d < 10 then Char.ofNat (48 + d) else Char.ofNat (87 + d)

/-- One character of a JSON string literal, escaped as `encoding/json` does by default: quote and
    backslash after a backslash, `\n`, `\r`, `\t` as such, every other control character and the
    HTML-unsafe `<`, `>`, `&` as `\u00XX`, and the line and paragraph separators U+2028, U+2029
    as `\u2028`, `\u2029`. -/
def escapeChar (c : Char) : String :=
  if c = '"' then "\\\"" else
  if c = '\\' then "\\\\" else
  if c = '\n' then "\\n" else
  if c = '\r' then "\\r" else
  if c = '\t' then "\\t" else
  if c.toNat < 0x20 ∨ c = '<' ∨ c = '>' ∨ c = '&' then
    "\\u00" ++ (hexDigit (c.toNat / 16)).toString ++ (hexDigit (c.toNat % 16)).toString else
  if c = '\u2028' ∨ c = '\u2029' then "\\u202" ++ (hexDigit (c.toNat % 16)).toString else
  c.toString

/-- A JSON string literal. -/
def quote (s : String) : String := "\"" ++ String.join (s.data.map escapeChar) ++ "\""

mutual
/-- The compact encoding of a JSON value, as `json.Marshal` emits it. -/
def Json.render : Json → String
  | .null => "null"
  | .bool b => if b then "true" else "false"
  | .number n => n.text
  | .string s => quote s
  | .array xs => "[" ++ Json.renderElems xs ++ "]"
  | .object kvs => "\x7b" ++ Json.renderMembers kvs ++ "\x7d"
/-- The elements of an array, comma separated. -/
def Json.renderElems : List Json → String
  | [] => ""
  | [x] => x.render
  | x :: xs => x.render ++ "," ++ Json.renderElems xs
/-- The members of an object, comma separated. -/
def Json.renderMembers : List (String × Json) → String
  | [] => ""
  | [(k, v)] => quote k ++ ":" ++ v.render
  | (k, v) :: kvs => quote k ++ ":" ++ v.render ++ "," ++ Json.renderMembers kvs
end

/-! The text of each kind of value, character by character. -/

theorem quote_data (s : String) :
    (quote s).data = '"' :: ((String.join (s.data.map escapeChar)).data ++ ['"']) := by
  simp [quote, String.data_append]

theorem render_array (xs : List Json) :
    (Json.array xs).render.data = '[' :: ((Json.renderElems xs).data ++ [']']) := by
  simp [Json.render, String.data_append]

theorem render_object (kvs : List (String × Json)) :
    (Json.object kvs).render.data = '\x7b' :: ((Json.renderMembers kvs).data ++ ['\x7d']) := by
  simp [Json.render, String.data_append]

theorem renderElems_cons_cons (x y : Json) (ys : List Json) :
    (Json.renderElems (x :: y :: ys)).data =
      x.render.data ++ ',' :: (Json.renderElems (y :: ys)).data := by
  simp [Json.renderElems, String.data_append]

theorem renderMembers_single (k : String) (v : Json) :
    (Json.renderMembers [(k, v)]).data = (quote k).data ++ ':' :: v.render.data := by
  simp [Json.renderMembers, String.data_append]

theorem renderMembers_cons_cons (k : String) (v : Json) (kv : String × Json)
    (kvs : List (String × Json)) :
    (Json.renderMembers ((k, v) :: kv :: kvs)).data =
      (quote k).data ++ ':' :: (v.render.data ++ ',' :: (Json.renderMembers (kv :: kvs)).data) := by
  simp [Json.renderMembers, String.data_append]

example : (Json.array [.null, .bool true, .string "a<\x01"]).render =
    "[null,true,\"a\\u003c\\u0001\"]" := by
  decide

/-- Whether a value is an array, an object or `null`: the params JSON-RPC admits. -/
def Json.isStructured : Json → Bool
  | .null | .array _ | .object _ => true
  | _ => false

end Jrpc2
