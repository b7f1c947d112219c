/-
  File:      Jrpc2/Handler/Adapter.lean
  Subject:   `handler.New`: the check of a function's signature, and the `Func` that `newHandler`
             builds around the function -- a decoder of the request's parameters, a call through
             `reflect`, and a decoder of the results.

  * `checkFunctionType`, `FuncInfo` -- the signature check with its index reads (`none` where one
    would panic); `checkFunctionType_eq_ok` -- on a function type it accepts exactly the
    documented shapes (`Accepted`), with the facts `infoOf` computes;
  * `newinput`, `decodeOut`, `newHandler` -- the parameter decoders (cases 1, 2, 3a, 3b), the
    result decoders (error only, value only, both) and the handler, as in the source;
  * **`signature_check`** -- the check never panics and accepts exactly `(ctx[, X])` with
    `(error)`, `(Y)` or `(Y, error)`; the decoder it selects reads existing results only, and
    returns the error if there is one, else the value;
  * **`pointer_argument_panics`** -- case 3a passes `reflect.New(T)`, a `*T`, for a parameter of
    a pointer type `T`: once the parameters decode, the call panics (`int_pointer_panics`);
  * **`argument_types`** -- in every other case `Call` receives values of the parameters' types,
    and the handler returns the decoded results without a panic;
  * **`func_conversion`** -- `New(f)` and `New(Func(f))` for an `f` of `Handle`'s type return the
    same pair, except that the reflective one drops a value returned with an error and panics on
    a nil context (`conversion_differs`).

  NOT here: what `UnmarshalParams` makes of the parameters' text, and the method sets behind
  `implements` (both are fields of `Env`).
-/
import Jrpc2.Wire
import Jrpc2.Handler.Reflect

namespace Jrpc2

variable {P : Type}

/-! ## 1. What the adapter takes from outside -/

/-- What the adapter uses from outside the package: which types implement which interfaces,
    and, on a request, `HasParams` and `UnmarshalParams` into a `reflect.New(t)` -- which fails
    with an error text, or leaves the new `*t` holding `p`, whose `Elem()` holds `elem t p`. -/
structure Env (P : Type) where
  implements : GoType → GoType → Bool
  hasParams : P → Bool
  unmarshalParams : P → GoType → Except String P
  elem : GoType → P → Any P

/-- An `error` a handler returns: nil, a `*jrpc2.Error` the adapter makes, or an error value the
    function returned (its dynamic type and data). -/
inductive GoErr (P : Type) where
  | nil
  | rpc (code : Code) (message : String)
  | dyn (type : GoType) (data : P)
  deriving DecidableEq

/-- A value of type `error`, as the `error` it is. -/
def Any.toErr : Any P → GoErr P
  | .nil => .nil
  | .val d x => .dyn d x

/-- A `Func`, applied to a context and a request: its `(interface{}, error)` pair, or `none`
    where it panics. -/
def Func (P : Type) := Any P → P → Option (Any P × GoErr P)

/-! ## 2. The signature check -/

/-- `funcInfo`: the facts of a valid handler's signature. -/
structure FuncInfo where
  /-- the complete function type -/
  type : GoType
  /-- the non-context argument type, or nil -/
  argument : Option GoType
  /-- true if the argument exists and is variadic -/
  isVariadic : Bool
  /-- the non-error result type, or nil -/
  result : Option GoType
  /-- true if the function reports an error -/
  reportsError : Bool
  deriving DecidableEq

/-- `checkFunctionType(fn)`, on `reflect.TypeOf(fn)`: the error, or the signature's facts;
    `none` where a method of `reflect.Type` would panic. -/
def checkFunctionType (fnType : GoType) : Option (Except String FuncInfo) := do
  if fnType.kind ≠ .func then return .error "not a function"
  let some (ins, outs, variadic) := fnType.signature | none
  let np := ins.length
  if np = 0 ∨ np > 2 then return .error "wrong number of parameters"
  let (argument, isVariadic) ← if np = 2 then ins[1]?.map (some ·, variadic) else some (none, false)
  let no := outs.length
  if no < 1 ∨ no > 2 then return .error "wrong number of results"
  if (← ins[0]?) ≠ ctxType then return .error "first parameter is not context.Context"
  if no = 2 then
    if (← outs[1]?) ≠ errType then return .error "result is not of type error"
  let reportsError := (← outs[no - 1]?) == errType
  let result ← if no = 2 ∨ !reportsError then outs[0]?.map some else some none
  return .ok { type := fnType, argument, isVariadic, result, reportsError }

/-- The signatures `New` documents: parameters `(context.Context)` or `(context.Context, X)`,
    `X` possibly `...X`; results `(error)`, `(Y)` or `(Y, error)`. -/
def Accepted (ins outs : List GoType) : Prop :=
  (ins = [ctxType] ∨ ∃ x, ins = [ctxType, x]) ∧
    (outs = [errType] ∨ (∃ y, outs = [y]) ∨ ∃ y, outs = [y, errType])

/-- The facts of an accepted signature: the argument is the second parameter, the result the
    first result unless that is the only one and an `error`. -/
def infoOf (t : GoType) (ins outs : List GoType) (v : Bool) : FuncInfo where
  type := t
  argument := ins[1]?
  isVariadic := ins.length == 2 && v
  result := if outs = [errType] then none else outs.head?
  reportsError := outs.getLast? == some errType

theorem params_shape_iff {ins : List GoType} :
    (ins = [ctxType] ∨ ∃ x, ins = [ctxType, x]) ↔
      ¬(ins = [] ∨ 2 < ins.length) ∧ ins.head? = some ctxType := by
  rcases ins with _ | ⟨a, _ | ⟨b, _ | ⟨c, l⟩⟩⟩ <;> simp

theorem results_shape_iff {outs : List GoType} :
    (outs = [errType] ∨ (∃ y, outs = [y]) ∨ ∃ y, outs = [y, errType]) ↔
      ¬(outs = [] ∨ 2 < outs.length) ∧ ¬(outs.length = 2 ∧ outs.getLast? ≠ some errType) := by
  rcases outs with _ | ⟨y, _ | ⟨e, _ | ⟨z, l⟩⟩⟩ <;> simp

/-- What `checkFunctionType` returns on a function type: its index reads all succeed. -/
theorem checkFunctionType_eq {t : GoType} {ins outs : List GoType} {v : Bool}
    (hs : t.signature = some (ins, outs, v)) :
    checkFunctionType t =
      if ins = [] ∨ 2 < ins.length then some (.error "wrong number of parameters")
      else if outs = [] ∨ 2 < outs.length then some (.error "wrong number of results")
      else if ins.head? ≠ some ctxType then some (.error "first parameter is not context.Context")
      else if outs.length = 2 ∧ outs.getLast? ≠ some errType then
        some (.error "result is not of type error")
      else some (.ok (infoOf t ins outs v)) := by
  have hk : t.kind = .func := by simp [kind_eq_func_iff, hs]
  by_cases hn : ins = [] ∨ 2 < ins.length
  · simp [checkFunctionType, hk, hs, hn]
  obtain ⟨a, rest, rfl, hr⟩ : ∃ a rest, ins = a :: rest ∧ rest.length ≤ 1 := by
    rcases ins with _ | ⟨a, rest⟩
    · simp at hn
    · exact ⟨a, rest, rfl, by simp at hn; omega⟩
  by_cases ho : outs = [] ∨ 2 < outs.length
  · rcases rest with _ | ⟨b, _ | ⟨c, _⟩⟩ <;> simp [checkFunctionType, hk, hs, ho] at hr ⊢
  obtain ⟨y, ys, rfl, hy⟩ : ∃ y ys, outs = y :: ys ∧ ys.length ≤ 1 := by
    rcases outs with _ | ⟨y, ys⟩
    · simp at ho
    · exact ⟨y, ys, rfl, by simp at ho; omega⟩
  rcases rest with _ | ⟨b, _ | ⟨c, _⟩⟩ <;> rcases ys with _ | ⟨e, _ | ⟨z, _⟩⟩ <;>
    simp at hr hy <;> simp [checkFunctionType, hk, hs, infoOf] <;> split_ifs <;> rfl

/-- On a function type the check accepts exactly the documented signatures. -/
theorem checkFunctionType_eq_ok {t : GoType} {ins outs : List GoType} {v : Bool}
    (hs : t.signature = some (ins, outs, v)) (info : FuncInfo) :
    checkFunctionType t = some (.ok info) ↔ Accepted ins outs ∧ info = infoOf t ins outs v := by
  rw [checkFunctionType_eq hs]
  simp only [and_assoc, Accepted, params_shape_iff, results_shape_iff]
  split_ifs with h₁ h₂ h₃ h₄
  · exact iff_of_false (by simp) fun h => h.1 h₁
  · exact iff_of_false (by simp) fun h => h.2.2.1 h₂
  · exact iff_of_false (by simp) fun h => h₃ h.2.1
  · exact iff_of_false (by simp) fun h => h.2.2.2.1 h₄
  · simp only [Option.some.injEq, Except.ok.injEq]
    exact ⟨fun h => ⟨h₁, not_not.mp h₃, h₂, h₄, h.symm⟩, fun h => h.2.2.2.2.symm⟩

/-! ## 3. The decoders and the handler -/

section Decoders

variable (implements : GoType → GoType → Bool)

/-- `oerr.(error)` on a non-nil `interface{}` holding a `d`: a panic unless `d` implements
    `error`. -/
def assertError (d : GoType) (x : P) : Option (GoErr P) :=
  if implements d errType then some (.dyn d x) else none

/-- `if oerr != nil { return nil, oerr.(error) }; return out, nil`. -/
def errorOut (out oerr : Any P) : Option (Any P × GoErr P) :=
  match oerr with
  | .nil => some (out, .nil)
  | .val d x => return (.nil, ← assertError implements d x)

/-- `decodeOut`, chosen by `info`: the handler's pair from the function's results; `none` where
    Go panics (an index out of range, a failed `.(error)`). -/
def decodeOut (info : FuncInfo) (vals : List (Value P)) : Option (Any P × GoErr P) :=
  if info.result.isNone then do
    -- The function returns only an error, the result is always nil.
    errorOut implements .nil (← vals[0]?).iface
  else if !info.reportsError then do
    -- The function returns only a single non-error: err is always nil.
    return ((← vals[0]?).iface, .nil)
  else do
    -- The function returns both a value and an error.
    let out := (← vals[0]?).iface
    errorOut implements out (← vals[1]?).iface

/-- `newinput`, chosen by `info.Argument`: the arguments after the context, decoded from the
    request, or the `*jrpc2.Error` that reports bad parameters. -/
def newinput (E : Env P) (argument : Option GoType) (req : P) :
    Except (GoErr P) (List (Value P)) :=
  match argument with
  | none =>
    -- Case 1: no parameters wanted; verify none were passed.
    if E.hasParams req then .error (.rpc .invalidParams "no parameters accepted") else .ok []
  | some t =>
    if t = reqType then
      -- Case 2: the underlying `*jrpc2.Request` value.
      .ok [⟨reqType, .val reqType req⟩]
    else if t.kind = .ptr then
      -- Case 3a: `in := reflect.New(info.Argument)`, passed as it is.
      match E.unmarshalParams req t with
      | .error err => .error (.rpc .invalidParams ("invalid parameters: " ++ err))
      | .ok p => .ok [⟨.ptr t, .val (.ptr t) p⟩]
    else
      -- Case 3b: `in := reflect.New(info.Argument)`, passed as `in.Elem()`.
      match E.unmarshalParams req t with
      | .error err => .error (.rpc .invalidParams ("invalid parameters: " ++ err))
      | .ok p => .ok [⟨t, E.elem t p⟩]

/-- `newHandler(fn)` on the function `fn` holds (`none`: a nil `fn`): the error, or the `Func`
    it builds; `none` where it panics. `call` is `Call`, or `CallSlice` for a variadic `fn`. -/
def newHandler (E : Env P) : Option (GoFunc P) → Option (Except String (Func P))
  | none => some (.error "nil method")
  | some f =>
    -- Special case: `fn` has the exact signature of `Handle`; no reflection at all.
    if f.type = handleType then
      some (.ok fun ctx req =>
        some (f.run [ctx, .val reqType req] 0, (f.run [ctx, .val reqType req] 1).toErr))
    else do
      match ← checkFunctionType f.type with
      | .error err => return .error err
      | .ok info =>
        return .ok fun ctx req =>
          match newinput E info.argument req with
          | .error ierr => some (.nil, ierr)
          | .ok rest => do
            let vals ← f.call E.implements (valueOf ctx :: rest.map some)
            decodeOut E.implements info vals

end Decoders

/-! ## 4. The result decoders -/

section Decode

variable {implements : GoType → GoType → Bool} {t : GoType} {ins : List GoType} {v : Bool}

/-- An `error` result: a non-nil one is returned as the error, the value dropped. -/
theorem errorOut_eq (out : Any P) {e : Any P} (he : e.HasType implements errType) :
    errorOut implements out e = some (if e.isNil then (out, .nil) else (.nil, e.toErr)) := by
  cases e with
  | nil => rfl
  | val d x =>
    have hd : implements d errType = true := by simpa [Any.HasType, errType, GoType.kind] using he
    simp [errorOut, assertError, hd, Any.isNil, Any.toErr]

/-- Results `(error)`: the error, and no value. -/
theorem decodeOut_error {e : Any P} (he : e.HasType implements errType) :
    decodeOut implements (infoOf t ins [errType] v) [⟨errType, e⟩] = some (.nil, e.toErr) := by
  cases e <;> simpa [decodeOut, infoOf, Any.isNil, Any.toErr] using errorOut_eq .nil he

/-- Results `(Y)` with `Y` not `error`: the value, and no error. -/
theorem decodeOut_value {y : GoType} (hy : y ≠ errType) (r : Any P) :
    decodeOut implements (infoOf t ins [y] v) [⟨y, r⟩] = some (r, .nil) := by
  simp [decodeOut, infoOf, hy]

/-- Results `(Y, error)`: the error if it is non-nil, else the value. -/
theorem decodeOut_both {y : GoType} (r : Any P) {e : Any P} (he : e.HasType implements errType) :
    decodeOut implements (infoOf t ins [y, errType] v) [⟨y, r⟩, ⟨errType, e⟩] =
      some (if e.isNil then (r, .nil) else (.nil, e.toErr)) := by
  simpa [decodeOut, infoOf] using errorOut_eq r he

end Decode

/-- **Signatures and results.** `checkFunctionType` never panics, and accepts `F` exactly when its
    parameters are `(context.Context)` or `(context.Context, X)` and its results `(error)`, `(Y)`
    or `(Y, error)`, with the facts `infoOf` computes. The `decodeOut` these facts select reads
    only the results `F` has and asserts `error` only on its `error` result: it gives `(nil, e)`
    for a non-nil error `e`, `(y, nil)` for a value `y` with no error or a nil one, and
    `(nil, nil)` for a lone nil error. -/
theorem signature_check (implements : GoType → GoType → Bool) (t : GoType) :
    checkFunctionType t ≠ none ∧
    (∀ info, checkFunctionType t = some (.ok info) ↔
      ∃ ins outs v, t.signature = some (ins, outs, v) ∧ Accepted ins outs ∧
        info = infoOf t ins outs v) ∧
    ∀ info ins outs v, checkFunctionType t = some (.ok info) →
      t.signature = some (ins, outs, v) →
      (outs = [errType] → ∀ e : Any P, e.HasType implements errType →
        decodeOut implements info [⟨errType, e⟩] = some (.nil, e.toErr)) ∧
      (∀ y, outs = [y] → y ≠ errType → ∀ r : Any P,
        decodeOut implements info [⟨y, r⟩] = some (r, .nil)) ∧
      (∀ y, outs = [y, errType] → ∀ r e : Any P, e.HasType implements errType →
        decodeOut implements info [⟨y, r⟩, ⟨errType, e⟩] =
          some (if e.isNil then (r, .nil) else (.nil, e.toErr))) := by
  refine ⟨?_, fun info => ?_, fun info ins outs v hc hs => ?_⟩
  · rcases hs : t.signature with _ | ⟨ins, outs, v⟩
    · have hk : t.kind ≠ .func := by simp [kind_eq_func_iff, hs]
      simp [checkFunctionType, hk]
    · rw [checkFunctionType_eq hs]
      split_ifs <;> simp
  · rcases hs : t.signature with _ | ⟨ins, outs, v⟩
    · have hk : t.kind ≠ .func := by simp [kind_eq_func_iff, hs]
      simp [checkFunctionType, hk]
    · rw [checkFunctionType_eq_ok hs]
      exact ⟨fun h => ⟨ins, outs, v, rfl, h⟩, fun ⟨_, _, _, he, h⟩ => by cases he; exact h⟩
  · obtain ⟨-, rfl⟩ := (checkFunctionType_eq_ok hs info).mp hc
    refine ⟨fun ho e he => ?_, fun y ho hy r => ?_, fun y ho r e he => ?_⟩ <;> subst ho
    exacts [decodeOut_error he, decodeOut_value hy r, decodeOut_both r he]

/-! ## 5. The handler -/

section Handler

variable {E : Env P} {f : GoFunc P}

/-- The `Func` built for a function whose type is not exactly `Handle`'s: decode the parameters,
    call through `reflect`, decode the results. -/
theorem newHandler_eq_ok {h : Func P} (hf : f.type ≠ handleType)
    (hnew : newHandler E (some f) = some (.ok h)) :
    ∃ info, checkFunctionType f.type = some (.ok info) ∧ ∀ ctx req, h ctx req =
      match newinput E info.argument req with
      | .error ierr => some (.nil, ierr)
      | .ok rest =>
        (f.call E.implements (valueOf ctx :: rest.map some)).bind (decodeOut E.implements info) := by
  simp only [newHandler, hf, if_false] at hnew
  rcases hc : checkFunctionType f.type with _ | _ | info <;> simp [hc] at hnew
  exact ⟨info, rfl, fun ctx req => by rw [← hnew]⟩

/-- Outside case 3a, the arguments `newinput` decodes have the argument's type. -/
theorem newinput_types {arg : Option GoType} {req : P} {rest : List (Value P)}
    (harg : ∀ t, arg = some t → t = reqType ∨ t.kind ≠ .ptr)
    (hin : newinput E arg req = .ok rest) : rest.map Value.type = arg.toList := by
  cases arg with
  | none =>
    simp only [newinput] at hin
    split at hin <;> cases hin
    rfl
  | some t =>
    by_cases hr : t = reqType
    · subst hr
      simp only [newinput, if_true, Except.ok.injEq] at hin
      subst hin
      rfl
    · simp only [newinput, hr, (harg t rfl).resolve_left hr, if_false] at hin
      split at hin <;> cases hin
      rfl

end Handler

/-- An environment for the runs below: every type implements every interface, and every request
    has parameters, which decode. -/
def openEnv : Env Unit where
  implements _ _ := true
  hasParams _ := true
  unmarshalParams _ _ := .ok ()
  elem t _ := .val t ()

/-! ## 6. Pointer arguments -/

/-- **Pointer arguments panic.** For a function that `New` accepts, whose second parameter has a
    pointer type `T` other than `*jrpc2.Request`, case 3a passes `reflect.New(T)`, a `*T`, where
    `Call` wants a `T`: whenever the parameters decode, the handler panics. -/
theorem pointer_argument_panics (E : Env P) (f : GoFunc P) (h : Func P)
    (hnew : newHandler E (some f) = some (.ok h)) {ins outs : List GoType} {v : Bool}
    (hsig : f.type.signature = some (ins, outs, v)) {t : GoType} (ht : ins[1]? = some t)
    (hptr : t.kind = .ptr) (hreq : t ≠ reqType) (ctx : Any P) (req p : P)
    (hp : E.unmarshalParams req t = .ok p) : h ctx req = none := by
  have hf : f.type ≠ handleType := fun e => by
    rw [e, handleType_signature] at hsig
    cases hsig
    exact hreq (Option.some.inj ht).symm
  obtain ⟨info, hc, hh⟩ := newHandler_eq_ok hf hnew
  obtain ⟨⟨hin, -⟩, rfl⟩ := (checkFunctionType_eq_ok hsig info).mp hc
  obtain ⟨x, rfl⟩ : ∃ x, ins = [ctxType, x] := hin.resolve_left (by rintro rfl; cases ht)
  obtain rfl : x = t := Option.some.inj ht
  rw [hh]
  cases ctx <;>
    simp [infoOf, newinput, hreq, hptr, hp, GoFunc.call, hsig, validArgs, valueOf,
      ptr_not_assignable _ hptr]

/-- `func(ctx context.Context, n *int) error { return nil }`. -/
def intPointerFn : GoFunc Unit :=
  ⟨.func (.cons ctxType (.cons (.ptr (.basic "int")) .nil)) (.cons errType .nil) false,
    fun _ _ => .nil⟩

/-- `New(intPointerFn)`, on a request whose parameters decode: a panic. -/
theorem int_pointer_panics :
    ∃ h, newHandler openEnv (some intPointerFn) = some (.ok h) ∧
      h (.val (.basic "context.backgroundCtx") ()) () = none :=
  ⟨_, rfl, pointer_argument_panics openEnv intPointerFn _ rfl rfl rfl rfl (by decide) _ () () rfl⟩

/-! ## 7. Every other argument -/

/-- **Arguments of the parameters' types.** For a function that `New` accepts, not of `Handle`'s
    exact type, whose second parameter, if any, is `*jrpc2.Request` or no pointer: on a non-nil
    context and a request whose parameters decode, `Call` receives the context and then values
    of exactly the remaining parameter types, and the handler returns `decodeOut` of the
    function's results -- with typed results, never a panic. -/
theorem argument_types (E : Env P) (f : GoFunc P) (h : Func P)
    (hnew : newHandler E (some f) = some (.ok h)) (hf : f.type ≠ handleType)
    {ins outs : List GoType} {v : Bool} (hsig : f.type.signature = some (ins, outs, v))
    (harg : ∀ t, ins[1]? = some t → t = reqType ∨ t.kind ≠ .ptr) (htyped : f.Typed E.implements)
    (d : GoType) (x : P) (hctx : E.implements d ctxType = true) (req : P)
    (rest : List (Value P)) (hin : newinput E ins[1]? req = .ok rest) :
    rest.map Value.type = ins.tail ∧
      h (.val d x) req = decodeOut E.implements (infoOf f.type ins outs v)
        (outs.mapIdx fun i t => ⟨t, f.run (.val d x :: rest.map (·.iface)) i⟩) ∧
      h (.val d x) req ≠ none := by
  obtain ⟨info, hc, hh⟩ := newHandler_eq_ok hf hnew
  obtain ⟨⟨hins, houts⟩, rfl⟩ := (checkFunctionType_eq_ok hsig info).mp hc
  have htys := newinput_types harg hin
  have hctx' := assignableTo_iface E.implements (rfl : ctxType.kind = .interface) hctx
  have hcall : f.call E.implements (valueOf (.val d x) :: rest.map some) =
      some (outs.mapIdx fun i t => ⟨t, f.run (.val d x :: rest.map (·.iface)) i⟩) := by
    rcases hins with rfl | ⟨t, rfl⟩
    · obtain rfl : rest = [] := List.map_eq_nil_iff.mp htys
      exact call_eq_some E.implements hsig
        (rfl : List.length [(⟨d, .val d x⟩ : Value P)] = _) (by simp [hctx'])
    · obtain ⟨r, _, rfl, rfl, hr⟩ := List.map_eq_cons_iff.mp htys
      obtain rfl := List.map_eq_nil_iff.mp hr
      exact call_eq_some E.implements hsig
        (rfl : List.length [(⟨d, .val d x⟩ : Value P), r] = _)
        (by simp [hctx', assignableTo_self])
  have hres : h (.val d x) req = decodeOut E.implements (infoOf f.type ins outs v)
      (outs.mapIdx fun i t => ⟨t, f.run (.val d x :: rest.map (·.iface)) i⟩) := by
    rw [hh]
    erw [hin]
    simp only [hcall, Option.some_bind]
  refine ⟨by rw [htys]; rcases hins with rfl | ⟨t, rfl⟩ <;> rfl, hres, ?_⟩
  have he : ∀ i, outs[i]? = some errType →
      (f.run (.val d x :: rest.map (·.iface)) i).HasType E.implements errType :=
    fun i hi => htyped _ _ _ hsig _ i _ hi
  rw [hres]
  rcases houts with rfl | ⟨y, rfl⟩ | ⟨y, rfl⟩
  · simp [List.mapIdx_nil, decodeOut_error (he 0 rfl)]
  · by_cases hy : y = errType
    · subst hy
      simp [List.mapIdx_nil, decodeOut_error (he 0 rfl)]
    · simp [List.mapIdx_nil, decodeOut_value hy]
  · simp [List.mapIdx_nil, decodeOut_both _ (he 1 rfl)]

/-- `func(ctx context.Context, n int) (int, error) { return n, nil }`. -/
def intValueFn : GoFunc Unit :=
  ⟨.func (.cons ctxType (.cons (.basic "int") .nil)) (.cons (.basic "int") (.cons errType .nil))
    false, fun _ i => if i = 0 then .val (.basic "int") () else .nil⟩

theorem intValueFn_typed : intValueFn.Typed openEnv.implements := by
  intro ins outs v h args i t ht
  simp only [intValueFn, GoType.signature, GoTypes.toList, Option.some.injEq,
    Prod.mk.injEq] at h
  obtain ⟨-, rfl, -⟩ := h
  rcases i with _ | _ | i <;> simp at ht <;> subst ht <;> rfl

/-- `New(intValueFn)` on a context and a request: no panic. -/
theorem int_argument_call :
    ∃ h : Func Unit, newHandler openEnv (some intValueFn) = some (.ok h) ∧
      h (.val (.basic "context.backgroundCtx") ()) () ≠ none := by
  obtain ⟨h, hh⟩ : ∃ h, newHandler openEnv (some intValueFn) = some (.ok h) := ⟨_, rfl⟩
  exact ⟨h, hh, (argument_types openEnv intValueFn h hh (by decide) rfl
    (fun t ht => by cases ht; exact .inr (by decide)) intValueFn_typed _ () rfl () _ rfl).2.2⟩

/-! ## 8. `Func(f)` against `f` -/

/-- **`Func(f)` against `f`.** For an `f` of `Handle`'s exact type whose results are typed,
    `New(f)` calls `f` directly and returns its pair `(r, e)`; `New(Func(f))` goes through
    `reflect`: it panics on a nil context, and otherwise returns `(r, nil)` for a nil `e` and
    `(nil, e)` for a non-nil one. So the two agree unless the context is nil or `f` returns a
    non-nil value together with a non-nil error. -/
theorem func_conversion (E : Env P) (f : GoFunc P) (hf : f.type = handleType)
    (htyped : f.Typed E.implements) :
    ∃ direct reflective : Func P,
      newHandler E (some f) = some (.ok direct) ∧
      newHandler E (some { f with type := funcType }) = some (.ok reflective) ∧
      ∀ ctx req, ctx.HasType E.implements ctxType →
        direct ctx req =
          some (f.run [ctx, .val reqType req] 0, (f.run [ctx, .val reqType req] 1).toErr) ∧
        reflective ctx req = if ctx.isNil then none else
          some (if (f.run [ctx, .val reqType req] 1).isNil then (f.run [ctx, .val reqType req] 0, .nil)
            else (.nil, (f.run [ctx, .val reqType req] 1).toErr)) := by
  have hne : funcType ≠ handleType := by decide
  have hc : checkFunctionType funcType =
      some (.ok (infoOf funcType [ctxType, reqType] [anyType, errType] false)) :=
    (checkFunctionType_eq_ok funcType_signature _).mpr
      ⟨⟨.inr ⟨reqType, rfl⟩, .inr (.inr ⟨anyType, rfl⟩)⟩, rfl⟩
  obtain ⟨reflective, hr⟩ : ∃ g, newHandler E (some { f with type := funcType }) = some (.ok g) := by
    simp [newHandler, hne, hc]
  obtain ⟨info, hc', hh⟩ := newHandler_eq_ok hne hr
  rw [hc, Option.some.injEq, Except.ok.injEq] at hc'
  subst hc'
  refine ⟨_, reflective, by simp [newHandler, hf], hr, fun ctx req hctx => ⟨rfl, ?_⟩⟩
  have he := htyped _ _ _ (hf ▸ handleType_signature) [ctx, .val reqType req] 1 errType rfl
  have hin : newinput E (some reqType) req = .ok [⟨reqType, .val reqType req⟩] := by
    simp [newinput]
  rw [hh]
  erw [hin]
  cases ctx with
  | nil => rfl
  | val d x =>
    have hd : E.implements d ctxType = true := by simpa [Any.HasType, ctxType, GoType.kind] using hctx
    have hcall := @call_eq_some P E.implements { f with type := funcType } _ _ _
      funcType_signature [⟨d, .val d x⟩, ⟨reqType, .val reqType req⟩] rfl
      (by simp [assignableTo_iface E.implements (rfl : ctxType.kind = .interface) hd,
        assignableTo_self])
    have hv : (Any.val d x).isNil = false := rfl
    simp only [List.map] at hcall
    simp only [valueOf, List.map, hcall, Option.some_bind, List.mapIdx_cons, List.mapIdx_nil, hv,
      Bool.false_eq_true, if_false]
    exact decodeOut_both _ he

/-- `func(ctx context.Context, req *jrpc2.Request) (interface{}, error) { return 1, err }`, with
    `err` a non-nil `*errors.errorString`. -/
def valueAndErrorFn : GoFunc Unit :=
  ⟨handleType, fun _ i =>
    if i = 0 then .val (.basic "int") () else .val (.ptr (.basic "errors.errorString")) ()⟩

theorem valueAndErrorFn_typed : valueAndErrorFn.Typed openEnv.implements := by
  intro ins outs v h args i t ht
  simp only [valueAndErrorFn, handleType_signature, Option.some.injEq, Prod.mk.injEq] at h
  obtain ⟨-, rfl, -⟩ := h
  rcases i with _ | _ | i <;> simp at ht <;> subst ht <;> rfl

/-- `func_conversion` at `valueAndErrorFn`: on a context, `New(f)` returns the value with the
    error, `New(Func(f))` the error alone. -/
theorem value_and_error_handlers :
    ∃ direct reflective : Func Unit,
      newHandler openEnv (some valueAndErrorFn) = some (.ok direct) ∧
      newHandler openEnv (some { valueAndErrorFn with type := funcType }) = some (.ok reflective) ∧
      direct (.val (.basic "context.backgroundCtx") ()) () =
        some (.val (.basic "int") (), .dyn (.ptr (.basic "errors.errorString")) ()) ∧
      reflective (.val (.basic "context.backgroundCtx") ()) () =
        some (.nil, .dyn (.ptr (.basic "errors.errorString")) ()) := by
  obtain ⟨direct, reflective, h₁, h₂, h⟩ :=
    func_conversion openEnv valueAndErrorFn rfl valueAndErrorFn_typed
  obtain ⟨hd, hr⟩ := h (.val (.basic "context.backgroundCtx") ()) () rfl
  exact ⟨direct, reflective, h₁, h₂, hd, hr⟩

/-- The two handlers of `valueAndErrorFn` differ: on a context, `New(f)` keeps the value that
    `New(Func(f))` drops; on a nil context, `New(Func(f))` panics where `New(f)` calls `f`. -/
theorem conversion_differs :
    ∃ direct reflective : Func Unit,
      newHandler openEnv (some valueAndErrorFn) = some (.ok direct) ∧
      newHandler openEnv (some { valueAndErrorFn with type := funcType }) = some (.ok reflective) ∧
      direct (.val (.basic "context.backgroundCtx") ()) () ≠
        reflective (.val (.basic "context.backgroundCtx") ()) () ∧
      direct .nil () ≠ reflective .nil () :=
  ⟨_, _, rfl, rfl, by decide, by decide⟩

end Jrpc2
