/-
  File:      Jrpc2/Client/Cancel.lean
  Subject:   The deferred `rpc.cancel` of `waitComplete`. A watcher waits on its context, may
             then hold the notification, and is done. It holds the notification only on a client
             with `allowC` set, for a request whose channel received the context error and
             nothing else: "a reply has not yet been delivered", as the comment on
             `waitComplete` says.

  * `Idle s t` -- `t` has the `allowC` of `s` and its objects, each with its ID, what its
    channel received and its watcher; `step_watchShape` -- a step is idle, an `accept`, a
    `waitComplete` of a waiting watcher, a deferred `rpc.cancel` or a `send`;
  * `CancelInv` -- a watcher holding the notification belongs to a client with `allowC` set, and
    its channel received exactly the error its context ended with; it holds on every reachable
    state whose run handed out at most `2^64` IDs (`cancelInv_reach`);
  * **`cancel_unanswered`** -- what follows, with the ID no longer pending.

  NOT here: the notification's params (what `marshalParams` makes of `[id]` is an input of
  `cleanup`), and its transmission, a caller's `send` (System.lean).
-/
import Jrpc2.Client.Once

namespace Jrpc2

variable {fixID : String → String} {peer : Sys → List Reply → Prop}

/-! ## 1. Setting a watcher -/

namespace Sys

theorem getElem?_setWatch (s : Sys) (h k : Nat) (w : Watch) :
    (s.setWatch h w).rsps[k]? =
      s.rsps[k]?.map fun p => if h = k then { p with watch := w } else p :=
  List.getElem?_modify _ _ _ _

theorem setWatch_ne (s : Sys) {h k : Nat} (w : Watch) (hk : h ≠ k) :
    (s.setWatch h w).rsps[k]? = s.rsps[k]? := by
  rw [getElem?_setWatch]
  simp [hk]

theorem cleanup_eq (s : Sys) (h : Nat) (bits : Except Err String) :
    (s.cleanup h bits).c = s.c ∧ (s.cleanup h bits).rsps = (s.setWatch h .done).rsps := by
  rcases cleanup_cases s h bits with e | ⟨P, e⟩ <;> rw [e] <;> exact ⟨rfl, rfl⟩

end Sys

/-! ## 2. Idle steps -/

/-- `t` has the `allowC` of `s` and its objects, each with its ID, what its channel received and
    its watcher. -/
structure Idle (s t : Sys) : Prop where
  allowC : t.c.allowC = s.c.allowC
  watchers : ∀ h : Nat, t.rsps[h]?.map (fun p => (p.id, p.sent, p.watch)) =
    s.rsps[h]?.map (fun p => (p.id, p.sent, p.watch))

section Idle

variable {s t u : Sys}

theorem Idle.of_eq (ha : t.c.allowC = s.c.allowC) (hr : t.rsps = s.rsps) : Idle s t :=
  ⟨ha, fun _ => hr ▸ rfl⟩

theorem Idle.trans (h₁ : Idle s t) (h₂ : Idle t u) : Idle s u :=
  ⟨h₂.allowC.trans h₁.allowC, fun h => (h₂.watchers h).trans (h₁.watchers h)⟩

/-- The object at a handle of `t` is one of `s`, with its ID, what it received and its watcher. -/
theorem Idle.back (hi : Idle s t) {h : Nat} {p : Response} (hp : t.rsps[h]? = some p) :
    ∃ q, s.rsps[h]? = some q ∧ q.id = p.id ∧ q.sent = p.sent ∧ q.watch = p.watch := by
  have := hi.watchers h
  rw [hp, Option.map_some', eq_comm, Option.map_eq_some'] at this
  obtain ⟨q, hq, e⟩ := this
  simp only [Prod.mk.injEq] at e
  exact ⟨q, hq, e.1, e.2.1, e.2.2⟩

theorem Idle.fwd (hi : Idle s t) {h : Nat} {q : Response} (hq : s.rsps[h]? = some q) :
    ∃ p, t.rsps[h]? = some p ∧ p.watch = q.watch := by
  have := hi.watchers h
  rw [hq, Option.map_some', Option.map_eq_some'] at this
  obtain ⟨p, hp, e⟩ := this
  exact ⟨p, hp, congrArg (·.2.2) e⟩

theorem idle_modify (f : Response → Response)
    (hf : ∀ p, ((f p).id, (f p).sent, (f p).watch) = (p.id, p.sent, p.watch)) (h : Nat) :
    Idle s { s with rsps := s.rsps.modify f h } :=
  ⟨rfl, fun k => by
    rw [List.getElem?_modify]
    cases s.rsps[k]? with
    | none => rfl
    | some q => simp only [Option.map_eq_map, Option.map_some']; split <;> simp [hf]⟩

theorem idle_take (h : Nat) : Idle s (s.take h) :=
  idle_modify (fun p => { p with buf := none }) (fun _ => rfl) h

theorem idle_stop (e : Err) : Idle s (s.stop e) := by
  unfold Sys.stop
  split
  · refine ⟨rfl, fun h => ?_⟩
    rw [getElem?_cancelAll]
    cases s.rsps[h]? with
    | none => rfl
    | some q => simp only [Option.map_some']; split <;> rfl
  · exact Idle.of_eq rfl rfl

end Idle

/-- **What a step can do to the watchers**: nothing (`Idle`); deliver a batch of replies
    (`accept`); end the context of a waiting watcher (`waitComplete`); finish a watcher holding
    the notification (the deferred `rpc.cancel`); or register fresh objects (`send`). -/
theorem step_watchShape {s t : Sys} (h : Step fixID peer s t) :
    Idle s t ∨ (∃ rs u, s.deliverAll fixID rs = some u ∧ Idle u t) ∨
    (∃ h p e, s.rsps[h]? = some p ∧ p.watch = .waiting ∧ s.waitComplete h e = some t) ∨
    (∃ h, Idle (s.setWatch h .done) t) ∨
    (∃ ids : List String, t.c.allowC = s.c.allowC ∧ t.rsps = s.rsps ++ ids.map Response.fresh) := by
  cases h with
  | begin => exact .inl (Idle.of_eq rfl rfl)
  | req pre post d m bits =>
    rcases reqStep_cases s pre post d m bits with e | ⟨P, e⟩ <;> rw [e] <;>
      exact .inl (Idle.of_eq rfl rfl)
  | note pre post d m bits =>
    rcases noteStep_cases s pre post d m bits with e | ⟨P, e⟩ <;> rw [e] <;>
      exact .inl (Idle.of_eq rfl rfl)
  | send _ pre post d _ _ _ hd ht =>
    obtain ⟨-, -, -, -, -, -, ht⟩ := send_ok ht
    rw [register_eq, Prod.mk.injEq] at ht
    obtain ⟨rfl, -⟩ := ht
    exact .inr (.inr (.inr (.inr ⟨_, rfl, rfl⟩)))
  | sendFail => exact .inl (Idle.of_eq rfl rfl)
  | arrive => exact .inl (Idle.of_eq rfl rfl)
  | recv => exact .inl (Idle.of_eq rfl rfl)
  | accept u _ _ ht => exact .inr (.inl ⟨_, u, ht, Idle.of_eq rfl rfl⟩)
  | recvFail e => exact .inl ((idle_stop e).trans (Idle.of_eq rfl rfl))
  | waitComplete _ h p e hp hw ht => exact .inr (.inr (.inl ⟨h, p, e, hp, hw, ht⟩))
  | cleanup h _ bits =>
    have e := Sys.cleanup_eq s h bits
    exact .inr (.inr (.inr (.inl ⟨h, Idle.of_eq (congrArg Client.allowC e.1) e.2⟩)))
  | close => exact .inl (idle_stop _)
  | take h => exact .inl (idle_take h)

/-! ## 3. Who holds the notification -/

/-- A watcher holding the `rpc.cancel` notification belongs to a client with `allowC` set, and its
    channel received exactly the error its context ended with. -/
def CancelInv (s : Sys) : Prop :=
  ∀ (h : Nat) (p : Response), s.rsps[h]? = some p → p.watch = .notifying →
    s.c.allowC = true ∧ ∃ e, p.sent = [Sys.ctxResponse p.id e]

section CancelInv

variable {s t : Sys}

theorem cancelInv_init (allow1 allowC : Bool) : CancelInv (Sys.init allow1 allowC) :=
  fun _ _ h => by simp [Sys.init] at h

theorem CancelInv.idle (hK : CancelInv s) (hi : Idle s t) : CancelInv t := fun h p hp hw => by
  obtain ⟨q, hq, hid, hs, hqw⟩ := hi.back hp
  rw [hi.allowC, ← hid, ← hs]
  exact hK h q hq (hqw.trans hw)

/-- A step that changes the objects at one handle only keeps the invariant if it holds there. -/
theorem CancelInv.at (hK : CancelInv s) (ha : t.c.allowC = s.c.allowC) {h : Nat}
    (hh : ∀ p, t.rsps[h]? = some p → p.watch = .notifying →
      t.c.allowC = true ∧ ∃ e, p.sent = [Sys.ctxResponse p.id e])
    (hk : ∀ k, h ≠ k → t.rsps[k]? = s.rsps[k]?) : CancelInv t := fun k p hp hw => by
  by_cases hhk : h = k
  · subst hhk
    exact hh p hp hw
  · rw [hk k hhk] at hp
    rw [ha]
    exact hK k p hp hw

theorem CancelInv.setWatch_done (hK : CancelInv s) (h : Nat) : CancelInv (s.setWatch h .done) :=
  hK.at rfl (fun p hp hw => by
    rw [Sys.getElem?_setWatch] at hp
    obtain ⟨q, -, rfl⟩ := Option.map_eq_some'.mp hp
    simp at hw) fun k hk => Sys.setWatch_ne s _ hk

/-- A reply reaches a pending `*Response`, which has received nothing, so its watcher does not
    hold the notification. -/
theorem CancelInv.deliver (hC : ChanInv s) (hK : CancelInv s) {r : JResponse}
    (hd : s.deliver fixID r = some t) : CancelInv t := by
  rcases Sys.deliver_cases hd with rfl | ⟨h, p, -, hl, hp, -, rfl⟩
  · exact hK
  obtain ⟨q, hq, hqs⟩ := hC.reg _ h hl
  rw [hp] at hq
  cases hq
  refine hK.at rfl (fun p' hp' hw => ?_) fun k hk => by
    rw [Sys.fill_rsps, Sys.erase_rsps, List.getElem?_set_ne hk]
  rw [Sys.fill_rsps, Sys.erase_rsps, List.getElem?_set_self (List.getElem?_eq_some_iff.mp hp).1]
    at hp'
  cases hp'
  obtain ⟨-, e, he⟩ := hK h p hp hw
  simp [hqs] at he

theorem CancelInv.deliverAll : ∀ {s : Sys} {rs : List JResponse}, IdInv s → ChanInv s →
    CancelInv s → s.deliverAll fixID rs = some t → CancelInv t
  | s, [], _, _, hK, h => by cases h; exact hK
  | s, r :: rs, hI, hC, hK, h => by
    rw [Sys.deliverAll_cons] at h
    obtain ⟨u, hu, ht⟩ := Option.bind_eq_some.mp h
    exact CancelInv.deliverAll (hI.quiet (Quiet.of_calm (calm_deliver hu) (frame_deliver hu)))
      (hC.deliver hI hu) (hK.deliver hC hu) ht

/-- The context ends while the request is pending: the channel receives the context error, its
    first value, and the watcher holds the notification exactly when `allowC` is set. -/
theorem CancelInv.waitComplete (hI : IdInv s) (hC : ChanInv s) (hK : CancelInv s) {h : Nat}
    {e : CtxErr} (ht : s.waitComplete h e = some t) : CancelInv t := by
  obtain ⟨p, hp, ⟨-, rfl⟩ | ⟨h', hl, -, rfl⟩⟩ := Sys.waitComplete_cases ht
  · exact hK.setWatch_done h
  obtain rfl := hI.handle_eq hp hl
  obtain ⟨q, hq, hqs⟩ := hC.reg _ _ hl
  rw [hp] at hq
  cases hq
  refine hK.at rfl (fun p' hp' hw => ?_) fun k hk => by
    rw [Sys.setWatch_ne _ _ hk, Sys.fill_rsps, Sys.erase_rsps, List.getElem?_set_ne hk]
  rw [Sys.getElem?_setWatch, Sys.fill_rsps, Sys.erase_rsps,
    List.getElem?_set_self (List.getElem?_eq_some_iff.mp hp).1, Option.map_some', if_pos rfl] at hp'
  cases hp'
  refine ⟨?_, e, by simp [hqs]⟩
  show s.c.allowC = true
  cases hc : s.c.allowC
  · simp [hc] at hw
  · rfl

/-- `send` registers fresh objects, whose watchers wait. -/
theorem CancelInv.append (hK : CancelInv s) (ha : t.c.allowC = s.c.allowC) {ids : List String}
    (hr : t.rsps = s.rsps ++ ids.map Response.fresh) : CancelInv t := fun h p hp hw => by
  rw [hr] at hp
  by_cases hh : h < s.rsps.length
  · rw [List.getElem?_append_left hh] at hp
    rw [ha]
    exact hK h p hp hw
  · rw [List.getElem?_append_right (by omega), List.getElem?_map] at hp
    obtain ⟨id, -, rfl⟩ := Option.map_eq_some'.mp hp
    cases hw

theorem CancelInv.step (hI : IdInv s) (hC : ChanInv s) (hK : CancelInv s)
    (h : Step fixID peer s t) : CancelInv t := by
  rcases step_watchShape h with hi | ⟨rs, u, hu, hi⟩ | ⟨h, p, e, -, -, ht⟩ | ⟨h, hi⟩ | ⟨ids, ha, hr⟩
  · exact hK.idle hi
  · exact (hK.deliverAll hI hC hu).idle hi
  · exact hK.waitComplete hI hC ht
  · exact (hK.setWatch_done h).idle hi
  · exact hK.append ha hr

end CancelInv

/-- The invariant on every reachable state whose run handed out at most `2^64` IDs. -/
theorem cancelInv_reach {s : Sys} (hr : Reach fixID peer s) (hb : s.allocated.length ≤ 2 ^ 64) :
    CancelInv s := by
  induction hr with
  | init => exact cancelInv_init _ _
  | @step s t hs h ih =>
    have hb' := (allocated_mono h).length_le.trans hb
    exact (ih hb').step (idInv_reach hs hb') (chanInv_reach hs hb') h

/-- **`rpc.cancel` only for a request no reply reached**, on every reachable state whose run
    handed out at most `2^64` IDs, whatever the peer sends and in every interleaving: a watcher
    holding the notification belongs to a client with `allowC` set, the `*Response` it watches
    received exactly the error its context ended with and nothing else, and its ID is no longer
    pending, so a reply that comes later is dropped. -/
theorem cancel_unanswered {s : Sys} (hr : Reach fixID peer s) (hb : s.allocated.length ≤ 2 ^ 64)
    {h : Nat} {p : Response} (hp : s.rsps[h]? = some p) (hw : p.watch = .notifying) :
    s.c.allowC = true ∧ (∃ e, p.sent = [Sys.ctxResponse p.id e]) ∧
      s.c.pending.lookup p.id = none := by
  obtain ⟨ha, e, he⟩ := cancelInv_reach hr hb h p hp hw
  refine ⟨ha, ⟨e, he⟩, ?_⟩
  rw [(chanInv_reach hr hb).lookup_eq (idInv_reach hr hb) hp, he]
  rfl

/-- A call whose context is canceled before any reply: its watcher holds the notification. -/
theorem cancel_unanswered_canceled :
    ∃ s p, Reach id (fun _ _ => True) s ∧ s.allocated.length ≤ 2 ^ 64 ∧ s.rsps[0]? = some p ∧
      p.watch = .notifying ∧ s.c.allowC = true ∧ (∃ e, p.sent = [Sys.ctxResponse p.id e]) ∧
      s.c.pending.lookup p.id = none := by
  have hr : Reach id (fun _ _ => True) _ :=
    ((((Reach.init false true).step (.begin _)).step (.req _ [] [] [] "m" (.ok "[]") rfl)).step
      (.send _ _ [] [] [⟨Version, formatInt 1, "m", "[]"⟩] none none [0] rfl rfl)).step
      (.waitComplete _ _ 0 _ .canceled rfl rfl rfl)
  exact ⟨_, _, hr, by decide, rfl, rfl, cancel_unanswered (h := 0) hr (by decide) rfl rfl⟩

end Jrpc2
