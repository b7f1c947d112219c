/-
  File:      Jrpc2/Client/Stop.lean
  Subject:   Shutting the client down: `stop`, reached from `Close` and from a failing reader,
             against every interleaving of the other parties.

  * `step_shape` -- a step is calm (`Calm`, Frame.lean), a `send` on a running client, or a
    `stop`;
  * `StopInv` -- the channel is nil and closed exactly when an error is recorded, and then every
    pending `*Response` has been cancelled; it holds on every reachable state (`stopInv_reach`);
  * **`stop_final`** -- what follows for every reachable state: the error, once recorded, never
    changes, a second `stop` does nothing, `send` never calls `Send` on a nil channel, and a
    stopped client's `send` returns its error (the empty-batch check comes first);
  * `send_empty_after_close` -- the empty batch after `Close`: `send` reports the empty batch,
    not the recorded error.
-/
import Jrpc2.Client.Frame

namespace Jrpc2

variable {fixID : String → String} {peer : Sys → List Reply → Prop}

/-! ## 1. The invariant -/

/-- The shutdown invariant. -/
structure StopInv (s : Sys) : Prop where
  /-- `c.ch` is nil exactly when `c.err` is set. -/
  ch : s.c.ch = s.c.err.isNone
  /-- The channel has been closed exactly when `c.err` is set. -/
  closed : s.closed = s.c.err.isSome
  /-- Once `c.err` is set, every pending `*Response` has been cancelled. -/
  cancelled : ∀ (id : String) (h : Nat) (p : Response), s.c.err.isSome →
    s.c.pending.lookup id = some h → s.rsps[h]? = some p → p.cancelled = true

theorem StopInv.calm {s t : Sys} (hI : StopInv s) (hc : Calm s t) : StopInv t where
  ch := by rw [hc.ch, hc.err, hI.ch]
  closed := by rw [hc.closed, hc.err, hI.closed]
  cancelled id h p he hl hp := by
    obtain ⟨q, hq, -, e⟩ := hc.same h p hp
    rw [← e]
    exact hI.cancelled id h q (hc.err ▸ he) (hc.pending id h hl) hq

theorem stopInv_init (allow1 allowC : Bool) : StopInv (Sys.init allow1 allowC) :=
  ⟨rfl, rfl, fun _ _ _ h => by cases h⟩

/-- The first `stop` closes the channel, records the error and cancels every pending entry. -/
theorem stopInv_stop {s : Sys} (hI : StopInv s) (e : Err) : StopInv (s.stop e) := by
  unfold Sys.stop
  split
  · refine ⟨rfl, rfl, fun id h p _ hl hp => ?_⟩
    rw [getElem?_cancelAll] at hp
    obtain ⟨q, -, rfl⟩ := Option.map_eq_some'.mp hp
    have hmem : h ∈ s.c.pending.entries.map (·.2) :=
      List.mem_map.mpr ⟨⟨id, h⟩, AList.mem_lookup_iff.mp hl, rfl⟩
    simp [hmem, Response.cancel]
  · exact hI

/-- **What a step can do to the shutdown state**: nothing (a calm step), register requests on a
    running client (`send`), or `stop` followed by a calm change. -/
theorem step_shape {s t : Sys} (h : Step fixID peer s t) :
    Calm s t ∨ (s.c.err = none ∧ t.c.err = none ∧ t.c.ch = s.c.ch ∧ t.closed = s.closed) ∨
    ∃ e, Calm (s.stop e) t := by
  cases h with
  | begin => exact .inl (Calm.of_fields rfl rfl rfl rfl rfl)
  | req pre post d m bits =>
    rcases reqStep_cases s pre post d m bits with e | ⟨P, e⟩ <;> rw [e] <;>
      exact .inl (Calm.of_fields rfl rfl rfl rfl rfl)
  | note pre post d m bits =>
    rcases noteStep_cases s pre post d m bits with e | ⟨P, e⟩ <;> rw [e] <;>
      exact .inl (Calm.of_fields rfl rfl rfl rfl rfl)
  | send _ pre post d _ _ hs _ ht =>
    obtain ⟨-, he, -, -, -, -, ht⟩ := send_ok ht
    rw [register_eq, Prod.mk.injEq] at ht
    obtain ⟨rfl, -⟩ := ht
    exact .inr (.inl ⟨he, he, rfl, rfl⟩)
  | sendFail => exact .inl (Calm.of_fields rfl rfl rfl rfl rfl)
  | arrive => exact .inl (Calm.of_fields rfl rfl rfl rfl rfl)
  | recv => exact .inl (Calm.of_fields rfl rfl rfl rfl rfl)
  | accept _ _ _ ht => exact .inl ((calm_deliverAll ht).trans (Calm.of_fields rfl rfl rfl rfl rfl))
  | recvFail e _ => exact .inr (.inr ⟨e, Calm.of_fields rfl rfl rfl rfl rfl⟩)
  | waitComplete _ _ _ _ _ _ ht => exact .inl (calm_waitComplete ht)
  | cleanup h _ bits => exact .inl (calm_cleanup h bits)
  | close => exact .inr (.inr ⟨_, Calm.of_fields rfl rfl rfl rfl rfl⟩)
  | take h => exact .inl (calm_take h)

theorem stopInv_step {s t : Sys} (hI : StopInv s) (h : Step fixID peer s t) : StopInv t := by
  rcases step_shape h with hc | ⟨he, he', hch, hcl⟩ | ⟨e, hc⟩
  · exact hI.calm hc
  · refine ⟨?_, ?_, fun _ _ _ h => ?_⟩
    · rw [hch, hI.ch, he, he']
    · rw [hcl, hI.closed, he, he']
    · simp [he'] at h
  · exact (stopInv_stop hI e).calm hc

theorem stopInv_reach {s : Sys} (hr : Reach fixID peer s) : StopInv s := by
  induction hr with
  | init => exact stopInv_init _ _
  | step _ h ih => exact stopInv_step ih h

/-! ## 2. A stopped client -/

/-- A `stop` after the first does nothing. -/
theorem stop_of_stopped {s : Sys} (hI : StopInv s) (h : s.c.err.isSome) (e : Err) : s.stop e = s := by
  have : s.c.ch = false := by rw [hI.ch]; cases hs : s.c.err <;> simp_all
  simp [Sys.stop, this]

/-- **Shutting the client down**, on every reachable state: `c.ch` is nil and the channel
    closed exactly when `c.err` is set; no step changes a recorded error and a second `stop`
    does nothing; `send` never calls `Send` on a nil channel; a stopped client's `send` of a
    non-empty batch returns the recorded error; and every `*Response` still pending after `stop`
    has been cancelled. -/
theorem client_shutdown {s : Sys} (hr : Reach fixID peer s) :
    s.c.ch = s.c.err.isNone ∧ s.closed = s.c.err.isSome ∧
    (∀ e t, s.c.err = some e → Step fixID peer s t → t.c.err = some e) ∧
    (∀ e, s.c.err.isSome → s.stop e = s) ∧
    (∀ reqs me se, s.send reqs me se ≠ .panic) ∧
    (∀ e reqs me se, s.c.err = some e → reqs ≠ [] → s.send reqs me se = .error e) ∧
    (∀ id h p, s.c.err.isSome → s.c.pending.lookup id = some h → s.rsps[h]? = some p →
      p.cancelled = true) := by
  have hI := stopInv_reach hr
  refine ⟨hI.ch, hI.closed, fun e t he h => ?_, fun e h => stop_of_stopped hI h e,
    fun reqs me se hp => ?_, fun e reqs me se he hne => by simp [Sys.send, hne, he], hI.cancelled⟩
  · rcases step_shape h with hc | ⟨he', -⟩ | ⟨e', hc⟩
    · rw [hc.err, he]
    · rw [he] at he'; cases he'
    · rw [hc.err, stop_of_stopped hI (by simp [he]), he]
  · obtain ⟨he, hch⟩ := send_panic hp
    rw [hI.ch, he] at hch
    cases hch

/-- After `Close`, a request batch gets the recorded error back. -/
theorem send_after_close :
    Reach id (fun _ _ => True) ((Sys.init false false).stop .stopped) ∧
    ((Sys.init false false).stop .stopped).send [⟨Version, "1", "m", "[]"⟩] none none =
      .error .stopped :=
  have hr : Reach id (fun _ _ => True) ((Sys.init false false).stop .stopped) :=
    .step (.init false false) (.close _)
  ⟨hr, (client_shutdown hr).2.2.2.2.2.1 .stopped _ none none rfl (List.cons_ne_nil _ _)⟩

/-- After `Close`, `send` of an empty batch reports the empty batch, not the recorded error. -/
theorem send_empty_after_close :
    Reach id (fun _ _ => True) ((Sys.init false false).stop .stopped) ∧
    ((Sys.init false false).stop .stopped).c.err = some .stopped ∧
    ((Sys.init false false).stop .stopped).send [] none none = .error (.msg "empty request batch") :=
  ⟨.step (.init false false) (.close _), rfl, rfl⟩

end Jrpc2
