/-
  File:      Jrpc2/Handler/Reflect.lean
  Subject:   The part of Go's `reflect` that the handler adapter relies on: types with their kinds
             and function signatures, values as an `interface{}` holds them, assignability, and
             `Value.Call`.

  * `GoType` -- named, interface, pointer, slice, function and defined types; `GoType.kind` and
    `GoType.signature` (`NumIn`, `In`, `IsVariadic`, `NumOut`, `Out` of a function type);
  * `ctxType`, `errType`, `reqType`, `anyType`, `handleType`, `funcType` -- the types the adapter
    names;
  * `Any`, `Value`, `valueOf` -- a Go value as an `interface{}` holds it, a `reflect.Value`, and
    `reflect.ValueOf`;
  * `assignableTo`, `Any.HasType` -- Go's assignability over a relation `implements` between a
    type and an interface type (method sets are not modelled), and the values a type holds;
  * `GoFunc`, `GoFunc.call` -- a function value and `Call` / `CallSlice`: a panic (`none`) on a
    zero `Value`, a wrong argument count, or an argument not assignable to its parameter;
  * `ptr_not_assignable` -- a `*T` is never assignable to a pointer type `T`; `call_eq_some` --
    `Call` with valid arguments of assignable types returns the function's results.

  NOT here: channel, map, array and struct types (the adapter looks into none of them), type
  parameters, and `Call` on a variadic function (the adapter calls those with `CallSlice`).
-/
import Mathlib.Data.List.Basic

namespace Jrpc2

/-! ## 1. Types -/

mutual
/-- A Go type, as `reflect` describes it. -/
inductive GoType where
  /-- a named type the adapter never looks into: `int`, `string`, a struct such as
      `jrpc2.Request` -/
  | basic (name : String)
  /-- an interface type: `context.Context`, `error`, `interface{}` -/
  | iface (name : String)
  /-- `*elem` -/
  | ptr (elem : GoType)
  /-- `[]elem` -/
  | slice (elem : GoType)
  /-- `func(ins) (outs)`; when `variadic`, the last parameter `...X` has the type `[]X` -/
  | func (ins outs : GoTypes) (variadic : Bool)
  /-- a defined type over a type literal, such as `handler.Func` -/
  | defined (name : String) (under : GoType)

/-- The parameter or the result types of a function type. -/
inductive GoTypes where
  | nil
  | cons (t : GoType) (ts : GoTypes)
end

deriving instance DecidableEq for GoType

/-- The types of a `GoTypes`, in order. -/
def GoTypes.toList : GoTypes → List GoType
  | .nil => []
  | .cons t ts => t :: ts.toList

/-- `reflect.Kind`, as far as the adapter asks. -/
inductive Kind where
  | func
  | ptr
  | slice
  | interface
  | other
  deriving DecidableEq, Repr

/-- `t.Kind()`: a defined type has the kind of its underlying type. -/
def GoType.kind : GoType → Kind
  | .basic _ => .other
  | .iface _ => .interface
  | .ptr _ => .ptr
  | .slice _ => .slice
  | .func .. => .func
  | .defined _ u => u.kind

/-- `NumIn`, `In`, `IsVariadic`, `NumOut` and `Out` of a function type, read through a defined
    type; `none` where these methods panic, on every other kind. -/
def GoType.signature : GoType → Option (List GoType × List GoType × Bool)
  | .func ins outs v => some (ins.toList, outs.toList, v)
  | .defined _ u => u.signature
  | _ => none

/-- The underlying type: a defined type's literal; every other type is its own. -/
def GoType.underlying : GoType → GoType
  | .defined _ u => u.underlying
  | t => t

/-- Whether the type has a name (predeclared or defined). Every interface type counts as named,
    so that `assignableTo` decides an interface target by `implements` alone: a type whose
    underlying type is an interface `t` implements `t`. -/
def GoType.isNamed : GoType → Bool
  | .basic _ | .iface _ | .defined _ _ => true
  | _ => false

theorem kind_eq_func_iff : ∀ t : GoType, t.kind = .func ↔ t.signature.isSome
  | .defined _ u => kind_eq_func_iff u
  | .basic _ | .iface _ | .ptr _ | .slice _ | .func .. => by simp [GoType.kind, GoType.signature]

theorem sizeOf_underlying_le : ∀ t : GoType, sizeOf t.underlying ≤ sizeOf t
  | .defined _ u => by
    have := sizeOf_underlying_le u
    simp only [GoType.underlying, GoType.defined.sizeOf_spec]
    omega
  | .basic _ | .iface _ | .ptr _ | .slice _ | .func .. => le_refl _

/-- `ctxType`: `context.Context`. -/
def ctxType : GoType := .iface "context.Context"

/-- `errType`: `error`. -/
def errType : GoType := .iface "error"

/-- `reqType`: `*jrpc2.Request`. -/
def reqType : GoType := .ptr (.basic "jrpc2.Request")

/-- `interface{}`. -/
def anyType : GoType := .iface "interface {}"

/-- `func(context.Context, *jrpc2.Request) (interface{}, error)`, the signature of `Handle`. -/
def handleType : GoType :=
  .func (.cons ctxType (.cons reqType .nil)) (.cons anyType (.cons errType .nil)) false

/-- `handler.Func`, the defined type over `handleType`. -/
def funcType : GoType := .defined "handler.Func" handleType

@[simp] theorem handleType_signature :
    handleType.signature = some ([ctxType, reqType], [anyType, errType], false) := rfl

@[simp] theorem funcType_signature :
    funcType.signature = some ([ctxType, reqType], [anyType, errType], false) := rfl

/-! ## 2. Values -/

/-- A Go value as an `interface{}` holds it: nil, or a dynamic type with the value's data. -/
inductive Any (P : Type) where
  | nil
  | val (type : GoType) (data : P)
  deriving DecidableEq

/-- `x != nil` for an `interface{}`. -/
def Any.isNil {P : Type} : Any P → Bool
  | .nil => true
  | .val .. => false

/-- A `reflect.Value`: its type, and `Interface()`, the value it holds as an `interface{}`. -/
structure Value (P : Type) where
  type : GoType
  iface : Any P

variable {P : Type} (implements : GoType → GoType → Bool)

/-- `reflect.ValueOf(x)`: a value of `x`'s dynamic type, or the zero `Value` (`none`) for nil. -/
def valueOf : Any P → Option (Value P)
  | .nil => none
  | .val t x => some ⟨t, .val t x⟩

/-- `v.AssignableTo(t)`: identical types; identical underlying types, one of them unnamed; or an
    interface type `t` that `v` implements. -/
def assignableTo (v t : GoType) : Bool :=
  v == t || (!(v.isNamed && t.isNamed) && v.underlying == t.underlying) ||
    (t.kind == .interface && implements v t)

/-- The values a variable of type `t` holds: for an interface type, nil or a value whose dynamic
    type implements it; for any other type, a value of that very type. -/
def Any.HasType (t : GoType) : Any P → Prop
  | .nil => t.kind = .interface
  | .val d _ => if t.kind = .interface then implements d t = true else d = t

theorem assignableTo_self (t : GoType) : assignableTo implements t t = true := by
  simp [assignableTo]

theorem assignableTo_iface {d t : GoType} (ht : t.kind = .interface) (h : implements d t = true) :
    assignableTo implements d t = true := by
  simp [assignableTo, ht, h]

/-- A `*T` is never assignable to a pointer type `T`: the types differ, their underlying types
    differ, and `T` is no interface. -/
theorem ptr_not_assignable {t : GoType} (ht : t.kind = .ptr) :
    assignableTo implements (.ptr t) t = false := by
  have hne : GoType.ptr t ≠ t := fun h => by simpa using congrArg sizeOf h
  have hu : GoType.ptr t ≠ t.underlying := fun h => by
    have := sizeOf_underlying_le t
    rw [← h, GoType.ptr.sizeOf_spec] at this
    omega
  simp [assignableTo, hne, GoType.underlying, hu, ht]

/-! ## 3. Function values and `Call` -/

/-- A function value: its dynamic type, and what it returns, result by result, for each list of
    arguments (each as an `interface{}` holds it). -/
structure GoFunc (P : Type) where
  type : GoType
  run : List (Any P) → Nat → Any P

/-- The function returns values of its result types. -/
def GoFunc.Typed (f : GoFunc P) : Prop :=
  ∀ ins outs v, f.type.signature = some (ins, outs, v) →
    ∀ args i t, outs[i]? = some t → (f.run args i).HasType implements t

/-- The loop of `Call` over its arguments: they are all valid, or one is the zero `Value`
    (`none`), on which `Call` panics. -/
def validArgs : List (Option (Value P)) → Option (List (Value P))
  | [] => some []
  | a :: as => do return (← a) :: (← validArgs as)

/-- `reflect.ValueOf(f).Call(args)` on a non-variadic `f`, `CallSlice(args)` on a variadic one:
    a panic (`none`) unless `f` is a function, no argument is the zero `Value`, there is one
    argument per parameter, and each argument's type is assignable to its parameter's; else `f`'s
    results, with its result types. -/
def GoFunc.call (f : GoFunc P) (args : List (Option (Value P))) : Option (List (Value P)) := do
  let (ins, outs, _) ← f.type.signature
  let vals ← validArgs args
  if vals.length = ins.length ∧ (vals.zip ins).all (fun (v, t) => assignableTo implements v.type t)
  then some (outs.mapIdx fun i t => ⟨t, f.run (vals.map (·.iface)) i⟩)
  else none

theorem validArgs_map_some (vals : List (Value P)) : validArgs (vals.map some) = some vals := by
  induction vals with
  | nil => rfl
  | cons v vals ih => simp [validArgs, ih]

/-- `Call` with one valid argument per parameter, each assignable to it: `f`'s results. -/
theorem call_eq_some {f : GoFunc P} {ins outs : List GoType} {v : Bool}
    (hs : f.type.signature = some (ins, outs, v)) {vals : List (Value P)}
    (hlen : vals.length = ins.length)
    (hall : ∀ p ∈ vals.zip ins, assignableTo implements p.1.type p.2 = true) :
    f.call implements (vals.map some) =
      some (outs.mapIdx fun i t => ⟨t, f.run (vals.map (·.iface)) i⟩) := by
  have hc : vals.length = ins.length ∧
      (vals.zip ins).all (fun (v, t) => assignableTo implements v.type t) = true :=
    ⟨hlen, List.all_eq_true.mpr hall⟩
  simp [GoFunc.call, hs, validArgs_map_some, hc]

end Jrpc2
