/-
  File:      Jrpc2/Metrics/Collector.lean
  Subject:   The `metrics` package: a collector of integer counters, maximum values and labels,
             whose methods each run their body under one mutex, and its `Snapshot`.

  * `M`, `new` -- the collector's three maps, each a Go map as a finite partial function;
    `new` is `metrics.New`;
  * `M.count`, `M.setMaxValue`, `M.countAndSetMax`, `M.setLabel`, `M.editLabel` -- the bodies
    the methods run with the mutex held; `Op`, `M.apply`, `run` -- a sequence of calls;
  * `M.snapshot` -- `Snapshot`, copying each map into the snapshot's field where it is not nil;
  * `counts`, `maxes` -- the arguments of the calls on one name, in call order: what the
    collector keeps of a name, by `apply_counter` and `apply_maxVal`;
  * **`snapshot_totals`** -- after any calls on a new collector, a snapshot into empty maps holds,
    for every name, the `int64` sum of its counts and the maximum of its values, each present iff
    such a call was made; so every permutation of the calls gives the same two maps.

  NOT here: a nil `*M` (its methods return at once; `New` never returns nil), and the goroutines
  that take the mutex (`Jrpc2/Metrics/Locked.lean`).
-/
import Jrpc2.Decimal
import Mathlib.Logic.Function.Basic
import Mathlib.Algebra.BigOperators.Group.List

namespace Jrpc2.Metrics

open Function (update)

/-! ## 1. The collector and its methods -/

/-- `M`: the maps of a collector. A Go map is a finite partial function, `none` where the key is
    absent; a label holds a non-nil `interface{}` value, of `L`. -/
structure M (L : Type) where
  counter : String → Option Int
  maxVal : String → Option Int
  label : String → Option L

variable {L : Type}

/-- `New`: a collector with three empty maps. -/
def new : M L := ⟨fun _ => none, fun _ => none, fun _ => none⟩

/-- `Count`: `m.counter[name] += n`, an absent counter reading as zero; the `int64` sum wraps. -/
def M.count (m : M L) (name : String) (n : Int) : M L :=
  { m with counter := update m.counter name (some (int64Wrap ((m.counter name).getD 0 + n))) }

/-- `SetMaxValue`: store `n` if the value is not defined yet or `n` is greater. -/
def M.setMaxValue (m : M L) (name : String) (n : Int) : M L :=
  match m.maxVal name with
  | some old => if n > old then { m with maxVal := update m.maxVal name (some n) } else m
  | none => { m with maxVal := update m.maxVal name (some n) }

/-- `CountAndSetMax`: the body of `SetMaxValue`, then that of `Count`, in one critical section. -/
def M.countAndSetMax (m : M L) (name : String) (n : Int) : M L :=
  (m.setMaxValue name n).count name n

/-- `SetLabel`: a nil `value` removes the label, any other value replaces it. -/
def M.setLabel (m : M L) (name : String) (value : Option L) : M L :=
  match value with
  | none => { m with label := update m.label name none }
  | some v => { m with label := update m.label name (some v) }

/-- `EditLabel`: `edit` of the current label (nil if there is none), stored as `SetLabel`
    stores a value. -/
def M.editLabel (m : M L) (name : String) (edit : Option L → Option L) : M L :=
  m.setLabel name (edit (m.label name))

/-- A call of a method that changes the collector. -/
inductive Op (L : Type) where
  | count (name : String) (n : Int)
  | setMaxValue (name : String) (n : Int)
  | countAndSetMax (name : String) (n : Int)
  | setLabel (name : String) (value : Option L)
  | editLabel (name : String) (edit : Option L → Option L)

/-- The body a call runs. -/
def M.apply (m : M L) : Op L → M L
  | .count name n => m.count name n
  | .setMaxValue name n => m.setMaxValue name n
  | .countAndSetMax name n => m.countAndSetMax name n
  | .setLabel name value => m.setLabel name value
  | .editLabel name edit => m.editLabel name edit

/-- A new collector after a sequence of calls, one body after another. -/
def run (ops : List (Op L)) : M L := ops.foldl M.apply new

/-! ## 2. `Snapshot` -/

/-- A `Snapshot`: each field a map, or nil (`none`). -/
structure Snapshot (L : Type) where
  Counter : Option (String → Option Int)
  MaxValue : Option (String → Option Int)
  Label : Option (String → Option (Option L))

/-- A snapshot of three empty maps. -/
def Snapshot.empty : Snapshot L := ⟨some fun _ => none, some fun _ => none, some fun _ => none⟩

/-- `for name, val := range src { dst[name] = val }`: the keys of `src` take its values, the
    others keep theirs. The keys of `src` are distinct, so the order of the range is immaterial. -/
def copyInto {α : Type} (src dst : String → Option α) : String → Option α :=
  fun name => (src name).or (dst name)

/-- What `Snapshot` records of a label: for a `func() interface{}` value, the result of calling
    it (`call` gives it); any other value itself. -/
def labelValue (call : L → Option (Option L)) (val : L) : Option L :=
  match call val with
  | some r => r
  | none => some val

/-- `Snapshot`: each map copied into the matching field of `snap`, where that is not nil. -/
def M.snapshot (call : L → Option (Option L)) (m : M L) (snap : Snapshot L) : Snapshot L where
  Counter := snap.Counter.map (copyInto m.counter)
  MaxValue := snap.MaxValue.map (copyInto m.maxVal)
  Label := snap.Label.map (copyInto fun name => (m.label name).map (labelValue call))

/-! ## 3. What a call does to one name -/

/-- One count on a counter entry: `+= n`, the absent entry reading as zero. -/
def addCount (old : Option Int) (n : Int) : Option Int := some (int64Wrap (old.getD 0 + n))

/-- One value on a maximum entry: the first value, or the greater of the two. -/
def raiseMax (old : Option Int) (n : Int) : Option Int :=
  some (match old with
    | some o => max o n
    | none => n)

/-- The `n` a call adds to the counter `name`, if it counts there. -/
def Op.counted (name : String) : Op L → Option Int
  | .count k n | .countAndSetMax k n => if k = name then some n else none
  | _ => none

/-- The `n` a call offers to the maximum `name`, if it offers one there. -/
def Op.maxed (name : String) : Op L → Option Int
  | .setMaxValue k n | .countAndSetMax k n => if k = name then some n else none
  | _ => none

/-- The `n` of the calls that count on `name`, in call order. -/
def counts (name : String) (ops : List (Op L)) : List Int := ops.filterMap (Op.counted name)

/-- The `n` of the calls that offer a maximum on `name`, in call order. -/
def maxes (name : String) (ops : List (Op L)) : List Int := ops.filterMap (Op.maxed name)

section Fields

variable (m : M L) (name : String) (n : Int)

@[simp] theorem M.count_counter :
    (m.count name n).counter = update m.counter name (addCount (m.counter name) n) := rfl

@[simp] theorem M.count_maxVal : (m.count name n).maxVal = m.maxVal := rfl

@[simp] theorem M.setMaxValue_counter : (m.setMaxValue name n).counter = m.counter := by
  unfold M.setMaxValue; split <;> (try split) <;> rfl

/-- `SetMaxValue` in one formula: the entry becomes `raiseMax` of itself (when `n` is not
    greater, that is the entry unchanged). -/
@[simp] theorem M.setMaxValue_maxVal :
    (m.setMaxValue name n).maxVal = update m.maxVal name (raiseMax (m.maxVal name) n) := by
  unfold M.setMaxValue
  split
  · next old h =>
    split
    · next hlt => simp [raiseMax, h, max_eq_right hlt.le]
    · next hle =>
      have hkeep : raiseMax (m.maxVal name) n = m.maxVal name := by
        simp [raiseMax, h, max_eq_left (not_lt.mp hle)]
      rw [hkeep, Function.update_eq_self]
  · next h => simp [raiseMax, h]

@[simp] theorem M.setLabel_counter (value : Option L) : (m.setLabel name value).counter = m.counter := by
  cases value <;> rfl

@[simp] theorem M.setLabel_maxVal (value : Option L) : (m.setLabel name value).maxVal = m.maxVal := by
  cases value <;> rfl

@[simp] theorem M.count_label : (m.count name n).label = m.label := rfl

@[simp] theorem M.setMaxValue_label : (m.setMaxValue name n).label = m.label := by
  unfold M.setMaxValue; split <;> (try split) <;> rfl

@[simp] theorem M.setLabel_label (value : Option L) :
    (m.setLabel name value).label = update m.label name value := by
  cases value <;> rfl

end Fields

/-- A call changes the counter `name` by its count there, if it has one. -/
theorem apply_counter (m : M L) (op : Op L) (name : String) :
    (m.apply op).counter name = (op.counted name).toList.foldl addCount (m.counter name) := by
  cases op <;> simp only [M.apply, M.countAndSetMax, M.editLabel, Op.counted, M.count_counter,
    M.setMaxValue_counter, M.setLabel_counter, Option.toList, List.foldl_nil] <;>
    split_ifs with h <;> simp [Function.update_apply, h, @eq_comm _ name]

/-- A call changes the maximum `name` by its value there, if it has one. -/
theorem apply_maxVal (m : M L) (op : Op L) (name : String) :
    (m.apply op).maxVal name = (op.maxed name).toList.foldl raiseMax (m.maxVal name) := by
  cases op <;> simp only [M.apply, M.countAndSetMax, M.editLabel, Op.maxed, M.count_maxVal,
    M.setMaxValue_maxVal, M.setLabel_maxVal, Option.toList, List.foldl_nil] <;>
    split_ifs with h <;> simp [Function.update_apply, h, @eq_comm _ name]

/-- A run, seen through one entry whose calls each act on it by a fold: the fold of the run's
    contributions. -/
theorem foldl_apply_entry {β α : Type} (entry : M L → β) (part : Op L → Option α)
    (acc : β → α → β) (h : ∀ m op, entry (m.apply op) = (part op).toList.foldl acc (entry m)) :
    ∀ (ops : List (Op L)) (m : M L),
      entry (ops.foldl M.apply m) = (ops.filterMap part).foldl acc (entry m)
  | [], _ => rfl
  | op :: ops, m => by
    rw [List.foldl_cons, foldl_apply_entry entry part acc h ops, h, List.filterMap_cons]
    cases part op <;> rfl

theorem run_counter (ops : List (Op L)) (name : String) :
    (run ops).counter name = (counts name ops).foldl addCount none :=
  foldl_apply_entry (fun m => m.counter name) _ _ (fun m op => apply_counter m op name) ops new

theorem run_maxVal (ops : List (Op L)) (name : String) :
    (run ops).maxVal name = (maxes name ops).foldl raiseMax none :=
  foldl_apply_entry (fun m => m.maxVal name) _ _ (fun m op => apply_maxVal m op name) ops new

/-! ## 4. The totals -/

theorem foldl_addCount_some (ns : List Int) (x : Int) :
    ns.foldl addCount (some (int64Wrap x)) = some (int64Wrap (x + ns.sum)) := by
  induction ns generalizing x with
  | nil => rw [List.foldl_nil, List.sum_nil, add_zero]
  | cons n ns ih =>
    rw [List.foldl_cons, addCount, Option.getD_some, int64Wrap_add_left, ih, List.sum_cons,
      add_assoc]

/-- The counter of a name: absent without counts, else the wrapped sum of its counts. -/
theorem foldl_addCount_none (ns : List Int) :
    ns.foldl addCount none = if ns = [] then none else some (int64Wrap ns.sum) := by
  cases ns with
  | nil => rfl
  | cons n ns =>
    rw [List.foldl_cons, addCount, Option.getD_none, zero_add, foldl_addCount_some,
      List.sum_cons, if_neg (List.cons_ne_nil n ns)]

/-- The maximum of a name: absent without values, else the greatest of them. -/
theorem foldl_raiseMax_none (ns : List Int) : ns.foldl raiseMax none = ns.max? := by
  have hsome : ∀ (ns : List Int) x, ns.foldl raiseMax (some x) = some (ns.foldl max x) := by
    intro ns
    induction ns with
    | nil => intro x; rfl
    | cons n ns ih => intro x; exact ih (max x n)
  cases ns with
  | nil => rfl
  | cons n ns => exact hsome ns n

theorem raiseMax_right_comm (o : Option Int) (a b : Int) :
    raiseMax (raiseMax o a) b = raiseMax (raiseMax o b) a := by
  cases o with
  | none => simp only [raiseMax, max_comm]
  | some x => simp only [raiseMax, max_assoc, max_comm a b]

/-- The counters of a run are those of any permutation of its calls. -/
theorem run_counter_perm {ops ops' : List (Op L)} (hp : ops'.Perm ops) :
    (run ops').counter = (run ops).counter := by
  funext name
  have hcp := hp.filterMap (Op.counted name)
  simp only [run_counter, counts, foldl_addCount_none, hcp.sum_eq, ← List.length_eq_zero,
    hcp.length_eq]

/-- The maximums of a run are those of any permutation of its calls. -/
theorem run_maxVal_perm {ops ops' : List (Op L)} (hp : ops'.Perm ops) :
    (run ops').maxVal = (run ops).maxVal := by
  funext name
  simp only [run_maxVal, maxes]
  exact (hp.filterMap _).foldl_eq' (fun _ _ _ _ z => raiseMax_right_comm z _ _) none

/-- `Snapshot` into empty maps copies the collector's counters and maximums as they are. -/
theorem snapshot_empty (call : L → Option (Option L)) (m : M L) :
    (m.snapshot call .empty).Counter = some m.counter ∧
      (m.snapshot call .empty).MaxValue = some m.maxVal :=
  ⟨congrArg some (funext fun _ => Option.or_none), congrArg some (funext fun _ => Option.or_none)⟩

/-- **The totals of a run.** Apply any sequence of calls to a collector made by `New`, then
    `Snapshot` into empty maps. For every name, `Counter[name]` is absent if no call counted on
    it, and otherwise the `int64` (wrapped) sum of the `n` of its `Count` and `CountAndSetMax`
    calls; `MaxValue[name]` is the greatest `n` of its `SetMaxValue` and `CountAndSetMax` calls,
    absent if there is none. So both maps are the same for every permutation of the calls. -/
theorem snapshot_totals (call : L → Option (Option L)) (ops : List (Op L)) :
    ∃ c v, ((run ops).snapshot call .empty).Counter = some c ∧
      ((run ops).snapshot call .empty).MaxValue = some v ∧
      (∀ name, c name = if counts name ops = [] then none
        else some (int64Wrap (counts name ops).sum)) ∧
      (∀ name, v name = (maxes name ops).max?) ∧
      ∀ ops' : List (Op L), ops'.Perm ops →
        ((run ops').snapshot call .empty).Counter = some c ∧
          ((run ops').snapshot call .empty).MaxValue = some v := by
  obtain ⟨hc, hv⟩ := snapshot_empty call (run ops)
  refine ⟨_, _, hc, hv, fun name => ?_, fun name => ?_, fun ops' hp => ?_⟩
  · rw [run_counter, foldl_addCount_none]
  · rw [run_maxVal, foldl_raiseMax_none]
  · rw [(snapshot_empty call (run ops')).1, (snapshot_empty call (run ops')).2,
      run_counter_perm hp, run_maxVal_perm hp]
    exact ⟨rfl, rfl⟩

/-- Negative values only: the maximum is the greatest of them, not zero. -/
example : (run (L := Unit) [.setMaxValue "x" (-5), .countAndSetMax "x" (-7)]).maxVal "x" =
    some (-5) := by decide

end Jrpc2.Metrics
