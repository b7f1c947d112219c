/-
  File:      Jrpc2/Client/Basic.lean
  Subject:   The client of `client.go`: its lock-protected fields, the `*Response` objects `send`
             creates with their `waitComplete` goroutines, and each method as a function on the
             whole client state `Sys`.

  * `Client` -- the fields under `c.mu` (`ch`, `err`, `pending`, `nextID`) and the two options
    read under it;
  * `Response` -- a `*Response`: its ID, its capacity-1 channel (`buf`, and the ghost history
    `sent` of every value sent on it), whether `cancel` ran, and where its watcher is;
  * `Sys` -- the client with its objects, the batches callers are building, the reading
    goroutine, the channel, and ghost histories (`wire`, `allocated`, `answered`);
  * `Sys.deliver`, `Client.req`, `note`, `Sys.send`, `Sys.waitComplete`, `Sys.stop`,
    `marshalParams`, `Sys.batch` -- the methods, transcribed. A channel send that would block
    makes `deliver` / `waitComplete` return `none`; a method call on a nil channel makes `send`
    return `.panic`.

  NOT here: logging, the `OnNotify` callback (it never touches the client's state), and what
  `Call` does with the value it receives.
-/
import Jrpc2.Wire
import Jrpc2.Decimal
import Mathlib.Data.List.AList

namespace Jrpc2

/-! ## 1. Errors and contexts -/

/-- A Go `error` value the client returns or records. -/
inductive Err where
  /-- `io.EOF` -/
  | eof
  /-- an error `channel.IsErrClosing` recognises -/
  | closing
  /-- `errClientStopped` -/
  | stopped
  /-- a `*jrpc2.Error` -/
  | rpc (code : Code) (message : String)
  /-- any other error, by its text -/
  | msg (text : String)
  deriving DecidableEq, Repr

/-- How a request context ended: `pctx.Err()`. -/
inductive CtxErr where
  | canceled
  | deadlineExceeded
  deriving DecidableEq, Repr

/-- `pctx.Err().Error()`. -/
def CtxErr.message : CtxErr → String
  | .canceled => "context canceled"
  | .deadlineExceeded => "context deadline exceeded"

/-- Modelled from the spec: `code.FromError` on a context error (the `code` package is not in
    src): a cancelled context gives `Cancelled`, an expired one `DeadlineExceeded`. -/
def CtxErr.code : CtxErr → Code
  | .canceled => .cancelled
  | .deadlineExceeded => .deadlineExceeded

/-- The `%q` verb on a string (escapes inside the quotes are not modelled). -/
def goQuote (s : String) : String := "\"" ++ s ++ "\""

/-! ## 2. State -/

/-- Where the `waitComplete` goroutine of a `*Response` is. -/
inductive Watch where
  /-- blocked on `<-pctx.Done()` -/
  | waiting
  /-- returned, its deferred `rpc.cancel` notification still to send -/
  | notifying
  /-- finished -/
  | done
  deriving DecidableEq, Repr

/-- A `*Response` created by `send`, with its `waitComplete` goroutine. `buf` is what sits in the
    capacity-1 channel `ch`; `sent` (ghost) is every value ever sent on it. -/
structure Response where
  id : String
  buf : Option JResponse
  sent : List JResponse
  cancelled : Bool
  watch : Watch
  deriving DecidableEq, Repr

/-- `newPending(ctx, id)`, and the `waitComplete` goroutine `send` starts for it. -/
def Response.fresh (id : String) : Response :=
  { id, buf := none, sent := [], cancelled := false, watch := .waiting }

/-- `p.ch <- v`: `none` when the buffer is full, so that the send would block. -/
def Response.put (p : Response) (v : JResponse) : Option Response :=
  if p.buf.isSome then none else some { p with buf := some v, sent := p.sent ++ [v] }

/-- `p.cancel()`. -/
def Response.cancel (p : Response) : Response := { p with cancelled := true }

/-- The fields of a `Client` under `c.mu`, and the two options read under it. -/
structure Client where
  allow1 : Bool
  allowC : Bool
  /-- `c.ch != nil` -/
  ch : Bool
  err : Option Err
  /-- `c.pending`: a request ID to the handle of its `*Response` -/
  pending : AList (fun _ : String => Nat)
  nextID : Int

/-- A reply the peer put on the channel: the response, and (ghost) the position among the
    registered requests of the request it answers, when there is one. -/
structure Reply where
  rsp : JResponse
  answers : Option Nat

/-- The reading goroutine started by `NewClient`. -/
inductive Reader where
  /-- about to call `ch.Recv()` -/
  | idle
  /-- holds a decoded batch, about to take `c.mu` -/
  | holding (f : List Reply)
  /-- `accept` failed and the loop ended -/
  | done

/-- The whole client. -/
structure Sys where
  c : Client
  /-- every `*Response` `send` created; its handle is its position -/
  rsps : List Response
  /-- the batches callers are building in `Call`, `Batch` and `Notify` -/
  drafts : List (List JRequest)
  reader : Reader
  /-- frames the peer sent that the reader has not received yet -/
  inbox : List (List Reply)
  /-- the channel has been closed -/
  closed : Bool
  /-- (ghost) every frame `send` transmitted, in order -/
  wire : List (List JRequest)
  /-- (ghost) every ID `req` allocated, in order -/
  allocated : List String
  /-- (ghost) the requests the peer answered, by position -/
  answered : List Nat

/-- `NewClient(ch, opts)` on a non-nil channel. -/
def Sys.init (allow1 allowC : Bool) : Sys where
  c := { allow1, allowC, ch := true, err := none, pending := ∅, nextID := 1 }
  rsps := []
  drafts := []
  reader := .idle
  inbox := []
  closed := false
  wire := []
  allocated := []
  answered := []

/-! ## 3. The methods -/

namespace Sys

/-- `delete(c.pending, id)`. -/
def erase (s : Sys) (id : String) : Sys := { s with c := { s.c with pending := s.c.pending.erase id } }

/-- `p.ch <- v` for the `*Response` at handle `h`; `none` if the send would block. -/
def put (s : Sys) (h : Nat) (v : JResponse) : Option Sys := do
  let p ← s.rsps[h]?
  let p' ← p.put v
  pure { s with rsps := s.rsps.set h p' }

/-- The watcher of handle `h` moves to `w`. -/
def setWatch (s : Sys) (h : Nat) (w : Watch) : Sys :=
  { s with rsps := s.rsps.modify (fun p => { p with watch := w }) h }

/-- The caller of handle `h` receives the value in its channel. -/
def take (s : Sys) (h : Nat) : Sys :=
  { s with rsps := s.rsps.modify (fun p => { p with buf := none }) h }

end Sys

/-- `c.versionOK(v)`. -/
def Client.versionOK (c : Client) (v : String) : Bool :=
  if v = "" then c.allow1 else v = Version

/-- The response `deliver` synthesizes for a reply with a bad version marker. -/
def versionError (rsp : JResponse) : JResponse :=
  { V := "", ID := rsp.ID,
    E := some (jerrorf .invalidRequest ("incorrect version marker " ++ goQuote rsp.V)) }

/-- `c.deliver(rsp)`, the caller holding `c.mu`. `fixID` is the package's ID filter (not in
    src). -/
def Sys.deliver (fixID : String → String) (s : Sys) (rsp : JResponse) : Option Sys :=
  let id := fixID rsp.ID
  if id = "" then some s
  else match s.c.pending.lookup id with
    | none => some s
    | some h => (s.erase id).put h (if s.c.versionOK rsp.V then rsp else versionError rsp)

/-- The loop of `accept` over a decoded batch, under `c.mu`. -/
def Sys.deliverAll (fixID : String → String) (s : Sys) (rs : List JResponse) : Option Sys :=
  rs.foldlM (Sys.deliver fixID) s

/-- `c.req(ctx, method, params)`; `bits` is what `c.marshalParams` returned for the params. -/
def Client.req (c : Client) (method : String) (bits : Except Err String) :
    Except Err (JRequest × Client) :=
  bits.map fun P =>
    ({ V := Version, ID := formatInt c.nextID, M := method, P },
     { c with nextID := int64Wrap (c.nextID + 1) })

/-- `c.note(ctx, method, params)`. -/
def note (method : String) (bits : Except Err String) : Except Err JRequest :=
  bits.map fun P => { V := Version, ID := "", M := method, P }

/-- What a call of `send` comes to: its results, the error it returns, or a panic (a method call
    on a nil `channel.Channel`). -/
inductive Ret (α : Type) where
  | ok (a : α)
  | error (e : Err)
  | panic

/-- The registration loop of `send`: for each request with an ID, `newPending` and its
    `waitComplete` goroutine (a fresh `*Response` at the next handle), recorded in `c.pending`. -/
def Sys.register (s : Sys) : List JRequest → Sys × List Nat
  | [] => (s, [])
  | r :: rs =>
    if r.ID = "" then s.register rs
    else
      let t := { s with rsps := s.rsps ++ [Response.fresh r.ID],
                        c := { s.c with pending := s.c.pending.insert r.ID s.rsps.length } }
      ((t.register rs).1, s.rsps.length :: (t.register rs).2)

/-- The duplicate-ID test of `send`: the first request whose ID is already pending. -/
def Client.duplicate (c : Client) (reqs : List JRequest) : Option JRequest :=
  reqs.find? fun r => r.ID != "" && (c.pending.lookup r.ID).isSome

/-- `c.send(ctx, reqs)`: `marshalErr` is the error `json.Marshal(reqs)` reports, `sendErr` the one
    `c.ch.Send(b)` reports. -/
def Sys.send (s : Sys) (reqs : List JRequest) (marshalErr : Option String) (sendErr : Option Err) :
    Ret (Sys × List Nat) :=
  if reqs = [] then .error (.msg "empty request batch") else
  match s.c.err with
  | some e => .error e
  | none =>
    match s.c.duplicate reqs with
    | some r => .error (.msg ("duplicate request ID " ++ goQuote r.ID))
    | none =>
      match marshalErr with
      | some e => .error (.msg ("marshaling request failed: " ++ e))
      | none =>
        if !s.c.ch then .panic else
        match sendErr with
        | some e => .error e
        | none => .ok ({ s with wire := s.wire ++ [reqs] }.register reqs)

/-- `c.waitComplete(pctx, id, p)` for the `*Response` at handle `h`, once `pctx` has ended with
    `e`; `none` if the channel send would block. The test is on the ID alone: the entry found
    need not be `p`. -/
def Sys.waitComplete (s : Sys) (h : Nat) (e : CtxErr) : Option Sys := do
  let p ← s.rsps[h]?
  match s.c.pending.lookup p.id with
  | none => pure (s.setWatch h .done)
  | some _ =>
    let t ← (s.erase p.id).put h { V := "", ID := p.id, E := some (jerrorf e.code e.message) }
    pure (t.setWatch h (if s.c.allowC then .notifying else .done))

/-- The deferred cleanup of `waitComplete`, outside the lock: `c.Notify(ctx, "rpc.cancel",
    [id])`. `bits` is what `marshalParams` returns for the ID list; the notification becomes a
    caller's batch, sent by a later `send`. -/
def Sys.cleanup (s : Sys) (h : Nat) (bits : Except Err String) : Sys :=
  match note "rpc.cancel" bits with
  | .ok r => { s.setWatch h .done with drafts := s.drafts ++ [[r]] }
  | .error _ => s.setWatch h .done

/-- The cancel loop of `stop`: `p.cancel()` for every pending `*Response`. -/
def cancelAll (rsps : List Response) (pending : List (Σ _ : String, Nat)) : List Response :=
  pending.foldl (fun rs p => rs.modify Response.cancel p.2) rsps

/-- `c.stop(err)`, the caller holding `c.mu`: only the first call closes the channel and records
    its error. -/
def Sys.stop (s : Sys) (e : Err) : Sys :=
  if s.c.ch then
    { s with closed := true, rsps := cancelAll s.rsps s.c.pending.entries,
             c := { s.c with err := some e, ch := false } }
  else s

/-- What `c.Close()` returns, from the error recorded when it reads `c.err`. -/
def closeResult : Option Err → Option Err
  | some .eof | some .closing | some .stopped => none
  | e => e

/-! ## 4. Params and `Batch` -/

/-- The test `marshalParams` makes of the encoded params: not empty, and starting with `[` or
    `{`, or exactly `null`. -/
def paramsOK (pbits : String) : Bool :=
  match pbits.data with
  | [] => false
  | c :: _ => c = '[' || c = '\x7b' || pbits = "null"

/-- `c.marshalParams(ctx, method, params)`: `enctx` is the client's context encoder applied to
    the call's context, `marshal` is `json.Marshal`, and `none` is `params == nil`. -/
def marshalParams {α : Type} (enctx : String → String → Except Err String)
    (marshal : α → Except Err Json) (method : String) : Option α → Except Err String
  | none => enctx method ""
  | some params => do
    let pbits := (← marshal params).render
    if paramsOK pbits then enctx method pbits
    else throw (.rpc .invalidRequest "invalid parameters: array or object required")

/-- The default `EncodeContext`: params unchanged. -/
def identityEncoder : String → String → Except Err String := fun _ params => .ok params

/-- `Spec`: a method, its params (`none` for nil) and whether it is a notification. -/
structure Spec (α : Type) where
  method : String
  params : Option α
  notify : Bool

section Batch

variable {α : Type} (enctx : String → String → Except Err String) (marshal : α → Except Err Json)

/-- The loop of `c.Batch(ctx, specs)` that builds the requests: `note` for a notification, `req`
    otherwise, returning at the first error. The state is the client's after the loop. -/
def Sys.build (s : Sys) : List (Spec α) → Sys × Except Err (List JRequest)
  | [] => (s, .ok [])
  | sp :: rest =>
    let bits := marshalParams enctx marshal sp.method sp.params
    if sp.notify then
      match note sp.method bits with
      | .error e => (s, .error e)
      | .ok r => ((s.build rest).1, (s.build rest).2.map (r :: ·))
    else
      match s.c.req sp.method bits with
      | .error e => (s, .error e)
      | .ok (r, c) =>
        let t := { s with c, allocated := s.allocated ++ [r.ID] }
        ((t.build rest).1, (t.build rest).2.map (r :: ·))

/-- `c.Batch(ctx, specs)` up to the waits: build the requests, then `send` them. -/
def Sys.batch (s : Sys) (specs : List (Spec α)) (marshalErr : Option String)
    (sendErr : Option Err) : Sys × Ret (List Nat) :=
  match s.build enctx marshal specs with
  | (t, .error e) => (t, .error e)
  | (t, .ok reqs) =>
    match t.send reqs marshalErr sendErr with
    | .ok (u, hs) => (u, .ok hs)
    | .error e => (t, .error e)
    | .panic => (t, .panic)

end Batch

end Jrpc2
