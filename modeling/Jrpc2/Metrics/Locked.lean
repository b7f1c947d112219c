/-
  File:      Jrpc2/Metrics/Locked.lean
  Subject:   Goroutines that call one collector at once. Each method runs its body between
             `m.mu.Lock()` and the deferred `m.mu.Unlock()`; a body reads the maps and then writes
             them, and any goroutine may move between any two steps of another.

  * `Phase`, `Goroutine`, `Sys`, `Step`, `Reach` -- the system over every interleaving: where
    each goroutine is in its current call and the calls it has left, whether the mutex is held,
    and the bodies written so far in the order they wrote; `M.commit` is a body's write, computed
    from the maps it read;
  * `Inv`, `Inv.step`, `Inv.reach` -- the invariant of every reachable state: one goroutine is
    past `Lock` while the mutex is held and none while it is free, a body that has read saw the
    maps as they are, the maps are the written bodies run one after another, and those bodies with
    the calls not yet written are all the calls;
  * **`interleavings_linearize`** -- once every goroutine has made all its calls, the maps are
    the calls run one after another in the order they wrote, and a `Snapshot` holds the counters
    and maximums of the calls run in program order; before that, some goroutine can always move.

  NOT here: an `edit` that calls back into the collector (`sync.Mutex` is not reentrant: that
  call never returns), and `Snapshot` taken while goroutines run (it holds the mutex and writes
  no map of the collector).
-/
import Jrpc2.Metrics.Collector
import Mathlib.Data.List.Perm.Basic

namespace Jrpc2.Metrics

open Function (update)

variable {L : Type}

/-! ## 1. Goroutines, the mutex and the steps -/

/-- Where a goroutine is in its current call. -/
inductive Phase (L : Type) where
  /-- between calls: the next one starts with `m.mu.Lock()` -/
  | idle
  /-- `Lock` has returned; the body has not read the maps -/
  | locked (op : Op L)
  /-- the body has read the maps, as `seen`, and has not written -/
  | read (op : Op L) (seen : M L)
  /-- the body has written; the deferred `Unlock` is left -/
  | written

/-- Between two calls. -/
def Phase.isIdle : Phase L → Bool
  | .idle => true
  | _ => false

/-- A goroutine: where it is in its current call, and the calls it has not started. -/
structure Goroutine (L : Type) where
  phase : Phase L
  calls : List (Op L)

/-- The calls of a goroutine whose bodies have not written: the current one until it writes,
    then those not started. -/
def Goroutine.pending (g : Goroutine L) : List (Op L) :=
  match g.phase with
  | .locked op | .read op _ => op :: g.calls
  | _ => g.calls

/-- The name a call acts on. -/
def Op.name : Op L → String
  | .count name _ | .setMaxValue name _ | .countAndSetMax name _ | .setLabel name _
  | .editLabel name _ => name

/-- The write of a body that read `seen`: the three entries of its name take what the body
    computed from `seen`; every other entry is left as it is in `m`. -/
def M.commit (m seen : M L) (op : Op L) : M L :=
  ⟨update m.counter op.name ((seen.apply op).counter op.name),
    update m.maxVal op.name ((seen.apply op).maxVal op.name),
    update m.label op.name ((seen.apply op).label op.name)⟩

/-- The collector, whether `m.mu` is held, the goroutines (in no order: a step may take any of
    them), and the calls whose bodies have written, in the order they wrote. -/
structure Sys (L : Type) where
  m : M L
  held : Bool
  gs : List (Goroutine L)
  done : List (Op L)

/-- Goroutines that make the calls of `progs`, each its own list in order, on a collector made
    by `New`; none has started. -/
def Sys.init (progs : List (List (Op L))) : Sys L := ⟨new, false, progs.map (⟨.idle, ·⟩), []⟩

/-- **One step of one goroutine**, the others being `others`. -/
inductive Step : Sys L → Sys L → Prop where
  /-- `m.mu.Lock()` returns once the mutex is free. -/
  | lock (s : Sys L) (op : Op L) (rest : List (Op L)) (others : List (Goroutine L))
      (hp : s.gs.Perm (⟨.idle, op :: rest⟩ :: others)) (hf : s.held = false) :
      Step s ⟨s.m, true, ⟨.locked op, rest⟩ :: others, s.done⟩
  /-- The body reads the maps. -/
  | read (s : Sys L) (op : Op L) (rest : List (Op L)) (others : List (Goroutine L))
      (hp : s.gs.Perm (⟨.locked op, rest⟩ :: others)) :
      Step s ⟨s.m, s.held, ⟨.read op s.m, rest⟩ :: others, s.done⟩
  /-- The body writes the entries of its name, from what it read. -/
  | write (s : Sys L) (op : Op L) (seen : M L) (rest : List (Op L))
      (others : List (Goroutine L)) (hp : s.gs.Perm (⟨.read op seen, rest⟩ :: others)) :
      Step s ⟨s.m.commit seen op, s.held, ⟨.written, rest⟩ :: others, s.done ++ [op]⟩
  /-- The deferred `m.mu.Unlock()`. -/
  | unlock (s : Sys L) (rest : List (Op L)) (others : List (Goroutine L))
      (hp : s.gs.Perm (⟨.written, rest⟩ :: others)) :
      Step s ⟨s.m, false, ⟨.idle, rest⟩ :: others, s.done⟩

/-- The states the goroutines of `progs` reach, over every interleaving. -/
inductive Reach (progs : List (List (Op L))) : Sys L → Prop where
  | start : Reach progs (Sys.init progs)
  | step (s s' : Sys L) : Reach progs s → Step s s' → Reach progs s'

/-- Every goroutine has made all its calls. -/
def Sys.finished (s : Sys L) : Bool := s.gs.all fun g => g.phase.isIdle && g.calls.isEmpty

/-- The number of goroutines past `Lock`. -/
def pastLock (gs : List (Goroutine L)) : Nat := gs.countP fun g => !g.phase.isIdle

/-! ## 2. A body that writes what it read -/

theorem Op.counted_of_ne {op : Op L} {k : String} (h : op.name ≠ k) : op.counted k = none := by
  cases op <;> simp only [Op.name, Op.counted] at h ⊢ <;> simp [h]

theorem Op.maxed_of_ne {op : Op L} {k : String} (h : op.name ≠ k) : op.maxed k = none := by
  cases op <;> simp only [Op.name, Op.maxed] at h ⊢ <;> simp [h]

/-- A call leaves the labels of other names as they are. -/
theorem apply_label_of_ne (m : M L) {op : Op L} {k : String} (h : op.name ≠ k) :
    (m.apply op).label k = m.label k := by
  cases op <;> simp only [Op.name, M.apply, M.countAndSetMax, M.editLabel, M.count_label,
    M.setMaxValue_label, M.setLabel_label] at h ⊢ <;> exact Function.update_noteq (Ne.symm h) _ _

/-- A body that writes onto the maps it read has run as `M.apply`: a call changes only the
    entries of its name. -/
theorem M.commit_self (m : M L) (op : Op L) : m.commit m op = m.apply op := by
  show M.mk _ _ _ = M.mk (m.apply op).counter (m.apply op).maxVal (m.apply op).label
  congr 1 <;> refine Function.update_eq_iff.mpr ⟨rfl, fun k hk => ?_⟩
  · rw [apply_counter, Op.counted_of_ne (Ne.symm hk)]; rfl
  · rw [apply_maxVal, Op.maxed_of_ne (Ne.symm hk)]; rfl
  · exact (apply_label_of_ne m (Ne.symm hk)).symm

theorem run_concat (ops : List (Op L)) (op : Op L) : run (ops ++ [op]) = (run ops).apply op := by
  rw [run, List.foldl_append]; rfl

/-! ## 3. The invariant -/

/-- **The invariant** of the states the goroutines of `progs` reach. -/
structure Inv (progs : List (List (Op L))) (s : Sys L) : Prop where
  /-- one goroutine is past `Lock` while the mutex is held, none while it is free -/
  mutex : pastLock s.gs = if s.held then 1 else 0
  /-- a body that has read saw the maps as they are -/
  seen : ∀ g ∈ s.gs, ∀ op seen, g.phase = .read op seen → seen = s.m
  /-- the maps are the written bodies, run one after another -/
  log : s.m = run s.done
  /-- the written calls and those not yet written are all the calls of the programs -/
  calls : (s.done ++ (s.gs.map Goroutine.pending).flatten).Perm progs.flatten

theorem Inv.start (progs : List (List (Op L))) : Inv progs (Sys.init progs) where
  mutex := List.countP_eq_zero.mpr (by simp [Sys.init, Phase.isIdle])
  seen := by simp [Sys.init]
  log := rfl
  calls := by simp [Sys.init, Function.comp_def, Goroutine.pending]

theorem perm_cons_of_mem {gs : List (Goroutine L)} {g : Goroutine L} (h : g ∈ gs) :
    ∃ others, gs.Perm (g :: others) :=
  let ⟨l, r, e⟩ := List.append_of_mem h
  ⟨l ++ r, e ▸ List.perm_middle⟩

section Moves

variable {progs : List (List (Op L))} {s : Sys L} {g g' : Goroutine L} {others : List (Goroutine L)}

/-- While a goroutine is past `Lock`, the mutex is held and every other goroutine is between
    calls. -/
theorem Inv.others_idle (hi : Inv progs s) (hp : s.gs.Perm (g :: others))
    (hg : g.phase.isIdle = false) : s.held = true ∧ ∀ g' ∈ others, g'.phase.isIdle = true := by
  have hb := hi.mutex
  rw [pastLock, hp.countP_eq, List.countP_cons, hg] at hb
  cases hh : s.held <;> simp [hh] at hb
  exact ⟨rfl, hb⟩

/-- With the mutex free, every goroutine is between calls. -/
theorem Inv.all_idle (hi : Inv progs s) (hf : s.held = false) :
    ∀ g ∈ s.gs, g.phase.isIdle = true := by
  simpa [pastLock, hf] using hi.mutex

/-- With the others between calls, the count is that of the one goroutine. -/
theorem pastLock_cons_of_idle (hoth : ∀ g' ∈ others, g'.phase.isIdle = true) :
    pastLock (g :: others) = if g.phase.isIdle then 0 else 1 := by
  rw [pastLock, List.countP_cons, List.countP_eq_zero.mpr fun g' hg' => by simp [hoth g' hg']]
  cases g.phase.isIdle <;> rfl

/-- A goroutine replaced by one that is past `Lock` iff it was leaves the count unchanged. -/
theorem pastLock_replace (hp : s.gs.Perm (g :: others)) (he : g'.phase.isIdle = g.phase.isIdle) :
    pastLock (g' :: others) = pastLock s.gs := by
  rw [pastLock, pastLock, hp.countP_eq, List.countP_cons, List.countP_cons, he]

/-- A goroutine replaced by one with the same pending calls leaves the calls as they are. -/
theorem Inv.calls_replace (hi : Inv progs s) (hp : s.gs.Perm (g :: others))
    (he : g'.pending = g.pending) :
    (s.done ++ ((g' :: others).map Goroutine.pending).flatten).Perm progs.flatten := by
  refine List.Perm.trans ?_ hi.calls
  rw [List.map_cons, he, ← List.flatten_cons, ← List.map_cons]
  exact ((hp.map _).flatten).symm.append_left _

/-- No body has read when the moved goroutine has not and the others are between calls. -/
theorem seen_of_idle (m : M L) (hg : ∀ op seen, g.phase ≠ .read op seen)
    (hoth : ∀ g' ∈ others, g'.phase.isIdle = true) :
    ∀ g' ∈ g :: others, ∀ op seen, g'.phase = .read op seen → seen = m := by
  intro g' hg' op seen hr
  rcases List.mem_cons.mp hg' with rfl | hmem
  · exact absurd hr (hg op seen)
  · have := hoth g' hmem
    rw [hr] at this
    cases this

end Moves

/-- **Every step keeps the invariant.** -/
theorem Inv.step {progs : List (List (Op L))} {s s' : Sys L} (hi : Inv progs s)
    (h : Step s s') : Inv progs s' := by
  cases h with
  | lock op rest others hp hf =>
    have hoth := fun g hg => hi.all_idle hf g (hp.symm.subset (List.mem_cons_of_mem _ hg))
    exact ⟨pastLock_cons_of_idle hoth, seen_of_idle _ (fun _ _ => nofun) hoth, hi.log,
      hi.calls_replace hp rfl⟩
  | read op rest others hp =>
    refine ⟨(pastLock_replace hp rfl).trans hi.mutex, fun g hg op' seen hr => ?_, hi.log,
      hi.calls_replace hp rfl⟩
    rcases List.mem_cons.mp hg with rfl | hmem
    · cases hr; rfl
    · exact hi.seen g (hp.symm.subset (List.mem_cons_of_mem _ hmem)) op' seen hr
  | write op seen rest others hp =>
    obtain rfl := hi.seen _ (hp.symm.subset (List.mem_cons_self _ _)) op seen rfl
    obtain ⟨-, hoth⟩ := hi.others_idle hp rfl
    refine ⟨(pastLock_replace hp rfl).trans hi.mutex, seen_of_idle _ (fun _ _ => nofun) hoth, ?_, ?_⟩
    · rw [M.commit_self, hi.log, run_concat]
    · simpa only [List.append_assoc, List.singleton_append] using
        hi.calls_replace hp (show (⟨.locked op, rest⟩ : Goroutine L).pending = _ from rfl)
  | unlock rest others hp =>
    obtain ⟨-, hoth⟩ := hi.others_idle hp rfl
    exact ⟨pastLock_cons_of_idle hoth, seen_of_idle _ (fun _ _ => nofun) hoth, hi.log,
      hi.calls_replace hp rfl⟩

/-- **Every reachable state keeps the invariant**, by induction on the run. -/
theorem Inv.reach {progs : List (List (Op L))} {s : Sys L} (h : Reach progs s) : Inv progs s := by
  induction h with
  | start => exact Inv.start progs
  | step _ _ _ hs ih => exact ih.step hs

/-! ## 4. Every interleaving is a sequential run -/

/-- A goroutine past `Lock` can always move. -/
theorem step_of_busy {s : Sys L} {g : Goroutine L} {others : List (Goroutine L)}
    (hp : s.gs.Perm (g :: others)) (hg : g.phase.isIdle = false) : ∃ s', Step s s' := by
  obtain ⟨ph, calls⟩ := g
  cases ph with
  | idle => cases hg
  | locked op => exact ⟨_, .read s op calls others hp⟩
  | read op seen => exact ⟨_, .write s op seen calls others hp⟩
  | written => exact ⟨_, .unlock s calls others hp⟩

/-- **No reachable state is stuck** before every goroutine has made all its calls: the holder of
    the mutex can move, and with the mutex free a goroutine with a call left can take it. -/
theorem Inv.progress {progs : List (List (Op L))} {s : Sys L} (hi : Inv progs s)
    (hn : s.finished = false) : ∃ s', Step s s' := by
  obtain ⟨g, hg, hng⟩ := List.all_eq_false.mp hn
  obtain ⟨others, hp⟩ := perm_cons_of_mem hg
  obtain ⟨ph, calls⟩ := g
  cases ph with
  | idle =>
    cases calls with
    | nil => exact absurd rfl hng
    | cons op rest =>
      cases hh : s.held
      · exact ⟨_, .lock s op rest others hp hh⟩
      · obtain ⟨g', hg', hb⟩ :=
          List.countP_pos_iff.mp (show 0 < pastLock s.gs by simp [hi.mutex, hh])
        obtain ⟨others', hp'⟩ := perm_cons_of_mem hg'
        exact step_of_busy hp' (by simpa using hb)
  | _ => exact step_of_busy hp rfl

/-- Once every goroutine has made all its calls, the written calls are all the calls. -/
theorem Inv.done_perm {progs : List (List (Op L))} {s : Sys L} (hi : Inv progs s)
    (hf : s.finished = true) : s.done.Perm progs.flatten := by
  have hnil : (s.gs.map Goroutine.pending).flatten = [] := by
    refine List.flatten_eq_nil_iff.mpr fun l hl => ?_
    obtain ⟨⟨ph, calls⟩, hg, rfl⟩ := List.mem_map.mp hl
    have := List.all_eq_true.mp hf _ hg
    cases ph <;> simp_all [Phase.isIdle, Goroutine.pending]
  simpa [hnil] using hi.calls

/-- **Every interleaving is a sequential run.** Goroutines each make their own calls on one
    collector made by `New`, each body under the mutex; take any state of any interleaving.
    If every goroutine has made all its calls, the collector is those calls run one after another
    in the order their bodies wrote, a permutation of all the calls; so a `Snapshot` into empty
    maps holds the counters and maximums of the calls run one after another in program order,
    whatever the interleaving: no count is lost and none is made twice. If some goroutine has a
    call left, some goroutine can move: the mutex never deadlocks them. -/
theorem interleavings_linearize (progs : List (List (Op L))) (s : Sys L) (hr : Reach progs s) :
    (s.finished = true → ∃ order : List (Op L), order.Perm progs.flatten ∧ s.m = run order ∧
      ∀ call : L → Option (Option L),
        (s.m.snapshot call .empty).Counter = some (run progs.flatten).counter ∧
        (s.m.snapshot call .empty).MaxValue = some (run progs.flatten).maxVal) ∧
    (s.finished = false → ∃ s', Step s s') := by
  have hi := Inv.reach hr
  refine ⟨fun hf => ⟨s.done, hi.done_perm hf, hi.log, fun call => ?_⟩, hi.progress⟩
  rw [(snapshot_empty call s.m).1, (snapshot_empty call s.m).2, hi.log,
    run_counter_perm (hi.done_perm hf), run_maxVal_perm (hi.done_perm hf)]
  exact ⟨rfl, rfl⟩

/-- Two goroutines, counting `1` and `2` on `"x"`: the first takes the mutex, runs its body and
    lets go, then the second does; at the end a `Snapshot` holds the counters of the two calls run
    one after another. -/
theorem two_goroutines_linearize :
    ∃ s : Sys Unit, Reach [[.count "x" 1], [.count "x" 2]] s ∧ s.finished = true ∧
      (s.m.snapshot (fun _ => none) .empty).Counter =
        some (run (L := Unit) [.count "x" 1, .count "x" 2]).counter := by
  have first := Reach.step _ _ (.step _ _ (.step _ _ (.step _ _
    (@Reach.start Unit [[.count "x" 1], [.count "x" 2]])
    (.lock _ (.count "x" 1) [] [⟨.idle, [.count "x" 2]⟩] (.refl _) rfl))
    (.read _ _ _ _ (.refl _))) (.write _ _ _ _ _ (.refl _))) (.unlock _ _ _ (.refl _))
  have both := Reach.step _ _ (.step _ _ (.step _ _ (.step _ _ first
    (.lock _ (.count "x" 2) [] [⟨.idle, []⟩] (.swap _ _ _) rfl))
    (.read _ _ _ _ (.refl _))) (.write _ _ _ _ _ (.refl _))) (.unlock _ _ _ (.refl _))
  obtain ⟨-, -, -, hsnap⟩ := (interleavings_linearize _ _ both).1 rfl
  exact ⟨_, both, rfl, (hsnap _).1⟩

end Jrpc2.Metrics
