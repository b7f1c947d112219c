/-
  File:      Jrpc2/Handler/Assign.lean
  Subject:   The assigners of the `handler` package: `Map` looks a method up by its name,
             `ServiceMap` splits it at its first `.` and hands the rest to the service's
             assigner, and `Names` lists the composed names, sorted.

  * `Assigner` -- a tree of `Map`s and `ServiceMap`s; `splitN`, `Assigner.assign` and
    `Assigner.names` transcribe `strings.SplitN(method, ".", 2)`, `Assign` and `Names`;
  * `Entry`, `Assigner.entries` -- each handler of a tree with the keys on its path, and the name
    `Names` composes for it (`Entry.name`);
  * `names_perm` -- `Names` lists the entries' names; `assign_eq_some` -- when no service key
    contains a `.`, `Assign n` finds exactly the handler of the entry named `n`;
  * **`assigner_names`** -- on such trees `Names` is sorted without duplicates, and `Assign n`
    succeeds exactly on the listed names, with the handler registered under `n`;
  * `dotted_service_keys` -- the condition is needed: a service `"a.b"` with method `"c"` next to
    a service `"a"` with method `"b.c"` lists `"a.b.c"` twice, and `Assign` reaches the second only.

  NOT here: nil handlers, and assigners other than `Map` and `ServiceMap` in a tree; `Assigner()`
  and `Finish` (no-ops). Go orders strings by their UTF-8 bytes, which is the order of their code
  points that `String` uses.
-/
import Mathlib.Data.List.Sort
import Mathlib.Data.String.Basic

namespace Jrpc2

/-! ## 1. The assigners -/

/-- An assigner tree: a `Map` from method names to handlers, or a `ServiceMap` from service names
    to nested assigners. A list stands for a Go map; its keys are distinct (`Assigner.WF`). -/
inductive Assigner (H : Type) where
  | map (m : List (String × H))
  | serviceMap (m : List (String × Assigner H))

/-- `strings.SplitN(method, ".", 2)`: `[method]` when it has no `.`, else the text before its
    first `.` and the text after it. -/
def splitN (method : String) : List String :=
  match method.data.dropWhile (· != '.') with
  | [] => [method]
  | _ :: rest => [⟨method.data.takeWhile (· != '.')⟩, ⟨rest⟩]

/-- `sort.Strings`. -/
def sortStrings (names : List String) : List String := names.insertionSort (· ≤ ·)

variable {H : Type}

mutual
/-- `Map.Assign` and `ServiceMap.Assign`; `none` is the nil handler. -/
def Assigner.assign : Assigner H → String → Option H
  | .map m, method => m.lookup method
  | .serviceMap m, method =>
    match splitN method with
    | [svc, rest] => assignIn m svc rest
    | _ => none

/-- `if ass, ok := m[svc]; ok { return ass.Assign(ctx, rest) }; return nil`. -/
def assignIn : List (String × Assigner H) → String → String → Option H
  | [], _, _ => none
  | (k, a) :: m, svc, rest => if k = svc then a.assign rest else assignIn m svc rest
end

mutual
/-- `Map.Names` and `ServiceMap.Names`. -/
def Assigner.names : Assigner H → List String
  | .map m => sortStrings (m.map (·.1))
  | .serviceMap m => sortStrings (namesIn m)

/-- The loop of `ServiceMap.Names`: `svc + "." + name` for each name of each service. -/
def namesIn : List (String × Assigner H) → List String
  | [] => []
  | (svc, a) :: m => a.names.map (fun name => svc ++ "." ++ name) ++ namesIn m
end

mutual
/-- Go maps: the keys of every map of the tree are distinct. -/
def Assigner.WF : Assigner H → Prop
  | .map m => (m.map (·.1)).Nodup
  | .serviceMap m => (m.map (·.1)).Nodup ∧ WFIn m

/-- Every assigner of the list is `WF`. -/
def WFIn : List (String × Assigner H) → Prop
  | [] => True
  | (_, a) :: m => a.WF ∧ WFIn m
end

mutual
/-- No service key of the tree contains a `.`. -/
def Assigner.DotFree : Assigner H → Prop
  | .map _ => True
  | .serviceMap m => DotFreeIn m

/-- No service key of the list, nor of the assigners in it, contains a `.`. -/
def DotFreeIn : List (String × Assigner H) → Prop
  | [] => True
  | (svc, a) :: m => '.' ∉ svc.data ∧ a.DotFree ∧ DotFreeIn m
end

/-- Induction over assigner trees: a `ServiceMap` may use the hypothesis for each of its
    assigners. -/
theorem Assigner.induct' {motive : Assigner H → Prop} (map : ∀ m, motive (.map m))
    (serviceMap : ∀ m, (∀ p ∈ m, motive p.2) → motive (.serviceMap m)) (a : Assigner H) :
    motive a :=
  @Assigner.rec H motive (fun m => ∀ p ∈ m, motive p.2) (fun p => motive p.2) map serviceMap
    (fun _ h => (List.not_mem_nil _ h).elim)
    (fun _ _ hd tl p hp => (List.mem_cons.mp hp).elim (· ▸ hd) (tl p)) (fun _ _ h => h) a

theorem wfIn_iff {m : List (String × Assigner H)} : WFIn m ↔ ∀ p ∈ m, p.2.WF := by
  induction m with
  | nil => simp [WFIn]
  | cons p m ih => simp [WFIn, ih]

theorem dotFreeIn_iff {m : List (String × Assigner H)} :
    DotFreeIn m ↔ ∀ p ∈ m, '.' ∉ p.1.data ∧ p.2.DotFree := by
  induction m with
  | nil => simp [DotFreeIn]
  | cons p m ih => simp [DotFreeIn, ih, and_assoc]

/-! ## 2. Splitting at the first dot -/

/-- A method `svc.rest` whose service part has no `.` splits into `[svc, rest]`. -/
theorem splitN_dot {svc : String} (h : '.' ∉ svc.data) (rest : String) :
    splitN (svc ++ "." ++ rest) = [svc, rest] := by
  have hp : ∀ c ∈ svc.data, (c != '.') = true := fun c hc => by
    simpa using fun e : c = '.' => h (e ▸ hc)
  have hd : (svc ++ "." ++ rest).data = svc.data ++ '.' :: rest.data := by simp
  simp [splitN, hd, List.dropWhile_append_of_pos hp, List.takeWhile_append_of_pos hp]

/-- A method splits into two parts only as `svc.rest` with a service part free of `.`. -/
theorem splitN_eq_pair {method svc rest : String} (h : splitN method = [svc, rest]) :
    '.' ∉ svc.data ∧ method = svc ++ "." ++ rest := by
  unfold splitN at h
  have hsplit := List.takeWhile_append_dropWhile (· != '.') method.data
  have hall := List.all_takeWhile (p := (· != '.')) (l := method.data)
  have hhead := List.head?_dropWhile_not (· != '.') method.data
  split at h
  · simp at h
  · rename_i c l hl
    simp only [List.cons.injEq, and_true] at h
    obtain ⟨rfl, rfl⟩ := h
    rw [hl] at hsplit hhead
    simp only [List.head?_cons, Option.map_some', Option.some.injEq, bne_eq_false_iff_eq] at hhead
    subst hhead
    refine ⟨fun hm => by simpa using List.all_eq_true.mp hall _ hm, ?_⟩
    exact String.ext (by simpa using hsplit.symm)

/-- Two composed names with service parts free of `.` agree only part by part. -/
theorem dot_inj {s₁ s₂ x y : String} (h₁ : '.' ∉ s₁.data) (h₂ : '.' ∉ s₂.data)
    (h : s₁ ++ "." ++ x = s₂ ++ "." ++ y) : s₁ = s₂ ∧ x = y := by
  have := splitN_dot h₁ x
  rw [h, splitN_dot h₂] at this
  simp only [List.cons.injEq, and_true] at this
  exact ⟨this.1.symm, this.2.symm⟩

/-! ## 3. The entries of a tree -/

/-- A handler of a tree: the service keys on its path, its key in its `Map`, and the handler. -/
structure Entry (H : Type) where
  services : List String
  method : String
  handler : H

/-- The name `Names` composes for an entry: `svc + "." + ...` down to its method key. -/
def Entry.name (e : Entry H) : String :=
  e.services.foldr (fun svc name => svc ++ "." ++ name) e.method

/-- The entry as the `ServiceMap` one level up sees it, under the key `svc`. -/
def Entry.under (svc : String) (e : Entry H) : Entry H := { e with services := svc :: e.services }

@[simp] theorem Entry.name_under (svc : String) (e : Entry H) :
    (e.under svc).name = svc ++ "." ++ e.name := rfl

mutual
/-- The handlers of a tree with their paths. -/
def Assigner.entries : Assigner H → List (Entry H)
  | .map m => m.map fun (k, h) => ⟨[], k, h⟩
  | .serviceMap m => entriesIn m

/-- The entries of the assigners of a `ServiceMap`, each under its service key. -/
def entriesIn : List (String × Assigner H) → List (Entry H)
  | [] => []
  | (svc, a) :: m => a.entries.map (Entry.under svc) ++ entriesIn m
end

theorem mem_entriesIn {m : List (String × Assigner H)} {e : Entry H} :
    e ∈ entriesIn m ↔ ∃ p ∈ m, ∃ e' ∈ p.2.entries, e = e'.under p.1 := by
  induction m with
  | nil => simp [entriesIn]
  | cons p m ih =>
    obtain ⟨svc, a⟩ := p
    simp [entriesIn, ih, eq_comm]

theorem map_name_under (svc : String) (l : List (Entry H)) :
    (l.map (Entry.under svc)).map Entry.name = (l.map Entry.name).map (svc ++ "." ++ ·) := by
  simp [Function.comp_def]

/-- `Names` lists the names of the entries. -/
theorem names_perm (a : Assigner H) : a.names.Perm (a.entries.map Entry.name) := by
  induction a using Assigner.induct' with
  | map m =>
    refine (List.perm_insertionSort _ _).trans ?_
    simp [Assigner.entries, Entry.name, Function.comp_def]
  | serviceMap m ih =>
    refine (List.perm_insertionSort _ _).trans ?_
    simp only [Assigner.entries]
    induction m with
    | nil => exact .nil
    | cons p m ihm =>
      simp only [namesIn, entriesIn, List.map_append, map_name_under]
      exact ((ih _ (.head _)).map _).append (ihm fun p hp => ih p (.tail _ hp))

/-- `Names` is sorted, whatever the tree. -/
theorem names_sorted (a : Assigner H) : a.names.Sorted (· ≤ ·) := by
  cases a <;> exact List.sorted_insertionSort _ _

/-- The entries of a `ServiceMap` have distinct names when those of each of its assigners do and
    its keys are distinct and free of `.`. -/
theorem entriesIn_nodup {m : List (String × Assigner H)} (hk : (m.map (·.1)).Nodup)
    (hd : ∀ p ∈ m, '.' ∉ p.1.data) (ih : ∀ p ∈ m, (p.2.entries.map Entry.name).Nodup) :
    ((entriesIn m).map Entry.name).Nodup := by
  induction m with
  | nil => exact .nil
  | cons p m ihm =>
    have hk' := List.nodup_cons.mp hk
    have hp := hd p (.head _)
    rw [entriesIn, List.map_append, map_name_under]
    refine List.nodup_append.mpr ⟨(ih p (.head _)).map fun x y h => (dot_inj hp hp h).2,
      ihm hk'.2 (fun q hq => hd q (.tail _ hq)) (fun q hq => ih q (.tail _ hq)), ?_⟩
    intro x hx hy
    obtain ⟨_, -, rfl⟩ := List.mem_map.mp hx
    obtain ⟨_, he, hname⟩ := List.mem_map.mp hy
    obtain ⟨q, hq, e, -, rfl⟩ := mem_entriesIn.mp he
    rw [Entry.name_under] at hname
    exact hk'.1 (List.mem_map.mpr ⟨q, hq, (dot_inj (hd q (.tail _ hq)) hp hname).1⟩)

/-- With distinct keys and service keys free of `.`, no two entries have one name. -/
theorem entries_nodup {a : Assigner H} (hwf : a.WF) (hdot : a.DotFree) :
    (a.entries.map Entry.name).Nodup := by
  induction a using Assigner.induct' with
  | map m => simpa [Assigner.entries, Entry.name, Function.comp_def] using hwf
  | serviceMap m ih =>
    have hw := wfIn_iff.mp hwf.2
    have hd := dotFreeIn_iff.mp hdot
    exact entriesIn_nodup hwf.1 (fun p hp => (hd p hp).1) fun p hp => ih p hp (hw p hp) (hd p hp).2

/-! ## 4. Lookup -/

theorem lookup_eq_some {m : List (String × H)} (hk : (m.map (·.1)).Nodup) {n : String}
    {h : H} : m.lookup n = some h ↔ (n, h) ∈ m := by
  induction m with
  | nil => simp
  | cons p m ih =>
    obtain ⟨k, v⟩ := p
    have hk' := List.nodup_cons.mp hk
    by_cases e : n = k
    · subst e
      simp only [List.lookup_cons_self, Option.some.injEq, List.mem_cons, Prod.mk.injEq, true_and]
      exact ⟨fun e => .inl e.symm, fun h' => h'.elim Eq.symm
        fun hm => (hk'.1 (List.mem_map.mpr ⟨_, hm, rfl⟩)).elim⟩
    · have hb : (n == k) = false := by simpa using e
      simp [List.lookup_cons, hb, e, ih hk'.2]

/-- The lookup of `ServiceMap.Assign`: the service's assigner, asked for the rest. -/
theorem assignIn_eq (m : List (String × Assigner H)) (svc rest : String) :
    assignIn m svc rest = (m.lookup svc).bind (·.assign rest) := by
  induction m with
  | nil => rfl
  | cons p m ih =>
    obtain ⟨k, a⟩ := p
    by_cases e : k = svc
    · subst e; simp [assignIn]
    · have hb : (svc == k) = false := by simpa using Ne.symm e
      simp [assignIn, List.lookup_cons, e, hb, ih]

/-- **`Assign` finds the handler named `n`**, when the keys of every map are distinct and no
    service key contains a `.`. -/
theorem assign_eq_some {a : Assigner H} (hwf : a.WF) (hdot : a.DotFree) {n : String} {h : H} :
    a.assign n = some h ↔ ∃ e ∈ a.entries, e.name = n ∧ e.handler = h := by
  induction a using Assigner.induct' generalizing n with
  | map m =>
    rw [Assigner.assign, lookup_eq_some hwf]
    simp only [Assigner.entries, List.mem_map, Prod.exists]
    exact ⟨fun hm => ⟨⟨[], n, h⟩, ⟨n, h, hm, rfl⟩, rfl, rfl⟩,
      fun ⟨_, ⟨_, _, hm, he⟩, hn, hh⟩ => by subst he; exact hn ▸ hh ▸ hm⟩
  | serviceMap m ih =>
    obtain ⟨hk, hwf⟩ := hwf
    have hd := dotFreeIn_iff.mp hdot
    have hget : ∀ {svc rest}, assignIn m svc rest = some h ↔
        ∃ p ∈ m, p.1 = svc ∧ p.2.assign rest = some h := by
      intro svc rest
      rw [assignIn_eq, Option.bind_eq_some]
      exact ⟨fun ⟨a, hl, ha⟩ => ⟨(svc, a), (lookup_eq_some hk).mp hl, rfl, ha⟩,
        fun ⟨p, hp, hs, ha⟩ => ⟨p.2, (lookup_eq_some hk).mpr (hs ▸ hp), ha⟩⟩
    simp only [Assigner.entries, mem_entriesIn]
    constructor
    · intro ha
      simp only [Assigner.assign] at ha
      split at ha
      · rename_i svc rest hs
        obtain ⟨-, rfl⟩ := splitN_eq_pair hs
        obtain ⟨p, hp, rfl, hpa⟩ := hget.mp ha
        obtain ⟨e, he, rfl, rfl⟩ := (ih p hp (wfIn_iff.mp hwf p hp) (hd p hp).2).mp hpa
        exact ⟨e.under p.1, ⟨p, hp, e, he, rfl⟩, rfl, rfl⟩
      · cases ha
    · rintro ⟨_, ⟨p, hp, e, he, rfl⟩, rfl, rfl⟩
      simp only [Assigner.assign, Entry.name_under, splitN_dot (hd p hp).1]
      exact hget.mpr ⟨p, hp, rfl, (ih p hp (wfIn_iff.mp hwf p hp) (hd p hp).2).mpr ⟨e, he, rfl, rfl⟩⟩

/-! ## 5. Names and lookup together -/

/-- **`Names` and `Assign` agree.** On a tree whose maps have distinct keys and whose service keys
    have no `.`: `Names` is sorted and has no duplicates, `Assign n` returns a handler exactly
    when `n` is listed, and then the handler of the entry whose composed name is `n`. -/
theorem assigner_names (a : Assigner H) (hwf : a.WF) (hdot : a.DotFree) :
    a.names.Sorted (· ≤ ·) ∧ a.names.Nodup ∧
      ∀ n, ((a.assign n).isSome ↔ n ∈ a.names) ∧
        ∀ h, (a.assign n = some h ↔ ∃ e ∈ a.entries, e.name = n ∧ e.handler = h) := by
  refine ⟨names_sorted a, (names_perm a).nodup_iff.mpr (entries_nodup hwf hdot), fun n =>
    ⟨?_, fun h => assign_eq_some hwf hdot⟩⟩
  rw [(names_perm a).mem_iff, Option.isSome_iff_exists]
  simp only [assign_eq_some hwf hdot, List.mem_map]
  exact ⟨fun ⟨_, e, he, hn, _⟩ => ⟨e, he, hn⟩, fun ⟨e, he, hn⟩ => ⟨e.handler, e, he, hn, rfl⟩⟩

/-- A `ServiceMap` of two services, `rpc` with two methods and `math` a `ServiceMap` of two
    services of its own: `Assign` finds a method three levels down, and not a name that skips a
    level. -/
theorem rpc_ping_names :
    let a : Assigner Nat := .serviceMap [("rpc", .map [("ping", 0), ("echo", 1)]),
      ("math", .serviceMap [("int", .map [("add", 2)]), ("real", .map [("add", 3)])])]
    a.WF ∧ a.DotFree ∧ a.assign "math.real.add" = some 3 ∧ a.assign "math.add" = none ∧
      (a.names.Sorted (· ≤ ·) ∧ a.names.Nodup ∧
      ∀ n, ((a.assign n).isSome ↔ n ∈ a.names) ∧
        ∀ h, (a.assign n = some h ↔ ∃ e ∈ a.entries, e.name = n ∧ e.handler = h)) :=
  have hwf : (Assigner.serviceMap [("rpc", .map [("ping", 0), ("echo", 1)]),
      ("math", .serviceMap [("int", .map [("add", 2)]), ("real", .map [("add", 3)])])]).WF := by
    simp [Assigner.WF, WFIn]
  have hdot : (Assigner.serviceMap [("rpc", .map [("ping", 0), ("echo", 1)]),
      ("math", .serviceMap [("int", .map [("add", 2)]), ("real", .map [("add", 3)])])]).DotFree := by
    simp [Assigner.DotFree, DotFreeIn]
  ⟨hwf, hdot, rfl, rfl, assigner_names _ hwf hdot⟩

/-- **Keys with a `.` break both.** A service `"a.b"` with method `"c"` next to a service `"a"`
    with method `"b.c"` (distinct keys, non-nil handlers): `Names` lists `"a.b.c"` twice, and
    `Assign "a.b.c"` splits it as `a` / `b.c` and returns the second handler, never the first. -/
theorem dotted_service_keys :
    let a : Assigner Nat := .serviceMap [("a.b", .map [("c", 0)]), ("a", .map [("b.c", 1)])]
    a.WF ∧ a.names = ["a.b.c", "a.b.c"] ∧ ⟨["a.b"], "c", 0⟩ ∈ a.entries ∧
      a.assign "a.b.c" = some 1 := by
  refine ⟨by simp [Assigner.WF, WFIn], ?_, by simp [Assigner.entries, entriesIn, Entry.under], by decide⟩
  simp [Assigner.names, namesIn, sortStrings, List.insertionSort, List.orderedInsert]

end Jrpc2
