/-
  File:      Jrpc2/Client/Once.lean
  Subject:   Each `*Response` receives at most one value: the channel sends `deliver` and
             `waitComplete` make under `c.mu` never block, and the first of them to find the ID in
             `c.pending` fixes the value.

  * `IdInv.handle_eq` -- with the ID invariant (Ids.lean), a pending ID sits at the handle of the
    one object carrying it, so `waitComplete`'s test on the ID alone finds its own entry;
  * `Still s t` -- `t` has the pending table and the channels of `s`, up to watchers, `cancel`
    and a caller's receive;
  * `step_chanShape` -- a step is still, an `accept`, a `waitComplete` or a `send`;
  * `ChanInv` -- a pending entry's `*Response` has received nothing, a `*Response` that has
    received nothing is pending under its ID at its own handle, and every channel received at
    most one value; it holds on every reachable state whose run handed out at most `2^64` IDs
    (`chanInv_reach`);
  * **`response_once`** -- what follows: at most one value per channel, pending exactly while
    nothing was received, `accept` and `waitComplete` never block, and no step changes a value
    once received;
  * `second_value_after_wrap` -- the bound is needed: once the counter has come round
    (`wrap_run`, Wrap.lean) a stale watcher sends a second value on a channel.
-/
import Jrpc2.Client.Ids
import Jrpc2.Client.Wrap

namespace Jrpc2

variable {fixID : String → String} {peer : Sys → List Reply → Prop}

/-! ## 1. One ID, one handle -/

section Unique

variable {s : Sys}

/-- Two pending IDs at one handle are one ID. -/
theorem IdInv.key_inj (hI : IdInv s) {id id' : String} {h : Nat}
    (hl : s.c.pending.lookup id = some h) (hl' : s.c.pending.lookup id' = some h) : id = id' :=
  Option.some.inj ((hI.keys id h hl).symm.trans (hI.keys id' h hl'))

/-- The objects carry distinct IDs. -/
theorem IdInv.ids_nodup (hI : IdInv s) : (s.rsps.map Response.id).Nodup := by
  rw [hI.ids]
  exact hI.fresh.sublist (by rw [batchIDs_append]; exact List.sublist_append_right _ _)

/-- A pending ID sits at the handle of the one object carrying it. -/
theorem IdInv.handle_eq (hI : IdInv s) {h h' : Nat} {p : Response}
    (hp : s.rsps[h]? = some p) (hl : s.c.pending.lookup p.id = some h') : h' = h := by
  have e₁ := hI.keys _ _ hl
  have e₂ : (s.rsps.map Response.id)[h]? = some p.id := by rw [List.getElem?_map, hp]; rfl
  exact List.getElem?_inj (List.getElem?_eq_some_iff.mp e₁).1 hI.ids_nodup (e₁.trans e₂.symm)

end Unique

/-! ## 2. Still steps -/

/-- `t` has the pending table of `s` and the same channels, up to watchers, `cancel` and a
    caller's receive. -/
structure Still (s t : Sys) : Prop where
  pending : t.c.pending = s.c.pending
  chans : ∀ h : Nat,
    t.rsps[h]?.map (fun p => (p.id, p.sent)) = s.rsps[h]?.map (fun p => (p.id, p.sent))
  buf : ∀ (h : Nat) (p : Response), t.rsps[h]? = some p → p.buf.isSome →
    ∃ q, s.rsps[h]? = some q ∧ q.buf.isSome

section Still

variable {s t u : Sys}

theorem Still.of_eq (hp : t.c.pending = s.c.pending) (hr : t.rsps = s.rsps) : Still s t :=
  ⟨hp, fun _ => hr ▸ rfl, fun _ p h hb => ⟨p, hr ▸ h, hb⟩⟩

theorem Still.trans (h₁ : Still s t) (h₂ : Still t u) : Still s u where
  pending := h₂.pending.trans h₁.pending
  chans h := (h₂.chans h).trans (h₁.chans h)
  buf h p hp hb := by
    obtain ⟨q, hq, hb'⟩ := h₂.buf h p hp hb
    exact h₁.buf h q hq hb'

/-- The object at a handle of `t` is one of `s`, with its ID and what it received. -/
theorem Still.back (hs : Still s t) {h : Nat} {p : Response} (hp : t.rsps[h]? = some p) :
    ∃ q, s.rsps[h]? = some q ∧ q.id = p.id ∧ q.sent = p.sent := by
  have := hs.chans h
  rw [hp, Option.map_some', eq_comm, Option.map_eq_some'] at this
  obtain ⟨q, hq, e⟩ := this
  exact ⟨q, hq, congrArg Prod.fst e, congrArg Prod.snd e⟩

theorem Still.fwd (hs : Still s t) {h : Nat} {q : Response} (hq : s.rsps[h]? = some q) :
    ∃ p, t.rsps[h]? = some p ∧ p.id = q.id ∧ p.sent = q.sent := by
  have := hs.chans h
  rw [hq, Option.map_some', Option.map_eq_some'] at this
  obtain ⟨p, hp, e⟩ := this
  exact ⟨p, hp, congrArg Prod.fst e, congrArg Prod.snd e⟩

theorem still_modify (f : Response → Response) (hid : ∀ p, (f p).id = p.id)
    (hs : ∀ p, (f p).sent = p.sent) (hb : ∀ p, (f p).buf.isSome → p.buf.isSome) (h : Nat) :
    Still s { s with rsps := s.rsps.modify f h } where
  pending := rfl
  chans k := by
    rw [List.getElem?_modify]
    cases s.rsps[k]? with
    | none => rfl
    | some q => simp only [Option.map_some']; split <;> simp [hid, hs]
  buf k p hp hbp := by
    rw [List.getElem?_modify] at hp
    obtain ⟨q, hq, rfl⟩ := Option.map_eq_some'.mp hp
    refine ⟨q, hq, ?_⟩
    split at hbp
    · exact hb q hbp
    · exact hbp

theorem still_setWatch (h : Nat) (w : Watch) : Still s (s.setWatch h w) :=
  still_modify (fun p => { p with watch := w }) (fun _ => rfl) (fun _ => rfl) (fun _ h => h) h

theorem still_take (h : Nat) : Still s (s.take h) :=
  still_modify (fun p => { p with buf := none }) (fun _ => rfl) (fun _ => rfl)
    (fun _ h => by simp at h) h

theorem still_stop (e : Err) : Still s (s.stop e) := by
  unfold Sys.stop
  split
  · refine ⟨rfl, fun h => ?_, fun h p hp hb => ?_⟩
    · rw [getElem?_cancelAll]
      cases s.rsps[h]? with
      | none => rfl
      | some q => simp only [Option.map_some']; split <;> rfl
    · rw [getElem?_cancelAll] at hp
      obtain ⟨q, hq, rfl⟩ := Option.map_eq_some'.mp hp
      refine ⟨q, hq, ?_⟩
      split at hb <;> exact hb
  · exact Still.of_eq rfl rfl

end Still

/-- **What a step can do to the channels**: nothing (`Still`); deliver a batch of replies
    (`accept`, then the reader goes back to `Recv`); end a request context (`waitComplete`); or
    transmit and register a batch (`send`). -/
theorem step_chanShape {s t : Sys} (h : Step fixID peer s t) :
    Still s t ∨ (∃ rs u, s.deliverAll fixID rs = some u ∧ Still u t) ∨
    (∃ h e, s.waitComplete h e = some t) ∨
    (∃ pre d post, s.drafts = pre ++ d :: post ∧
      t = { s with drafts := pre ++ post, wire := s.wire ++ [d],
                   rsps := s.rsps ++ (batchIDs d).map Response.fresh,
                   c := { s.c with pending := insertAll s.c.pending s.rsps.length (batchIDs d) } }) := by
  cases h with
  | begin => exact .inl (Still.of_eq rfl rfl)
  | req pre post d m bits =>
    rcases reqStep_cases s pre post d m bits with e | ⟨P, e⟩ <;> rw [e] <;>
      exact .inl (Still.of_eq rfl rfl)
  | note pre post d m bits =>
    rcases noteStep_cases s pre post d m bits with e | ⟨P, e⟩ <;> rw [e] <;>
      exact .inl (Still.of_eq rfl rfl)
  | send _ pre post d _ _ _ hd ht =>
    obtain ⟨-, -, -, -, -, -, ht⟩ := send_ok ht
    rw [register_eq, Prod.mk.injEq] at ht
    obtain ⟨rfl, -⟩ := ht
    exact .inr (.inr (.inr ⟨pre, d, post, hd, rfl⟩))
  | sendFail => exact .inl (Still.of_eq rfl rfl)
  | arrive => exact .inl (Still.of_eq rfl rfl)
  | recv => exact .inl (Still.of_eq rfl rfl)
  | accept u _ _ ht => exact .inr (.inl ⟨_, u, ht, Still.of_eq rfl rfl⟩)
  | recvFail e => exact .inl ((still_stop e).trans (Still.of_eq rfl rfl))
  | waitComplete _ h _ e _ _ ht => exact .inr (.inr (.inl ⟨h, e, ht⟩))
  | cleanup h _ bits =>
    rcases cleanup_cases s h bits with e | ⟨P, e⟩ <;> rw [e]
    · exact .inl (still_setWatch h _)
    · exact .inl ((still_setWatch h _).trans (Still.of_eq rfl rfl))
  | close => exact .inl (still_stop _)
  | take h => exact .inl (still_take h)

/-! ## 3. The invariant -/

/-- The channel invariant. -/
structure ChanInv (s : Sys) : Prop where
  /-- A pending entry's `*Response` has received nothing. -/
  reg : ∀ (id : String) (h : Nat), s.c.pending.lookup id = some h →
    ∃ p, s.rsps[h]? = some p ∧ p.sent = []
  /-- A `*Response` that has received nothing is pending under its ID, at its own handle. -/
  unreg : ∀ (h : Nat) (p : Response), s.rsps[h]? = some p → p.sent = [] →
    s.c.pending.lookup p.id = some h
  /-- Every channel received at most one value, and is empty if it received none. -/
  once : ∀ (h : Nat) (p : Response), s.rsps[h]? = some p →
    (p.sent = [] ∧ p.buf = none) ∨ ∃ v, p.sent = [v]

section ChanInv

variable {s t : Sys}

theorem chanInv_init (allow1 allowC : Bool) : ChanInv (Sys.init allow1 allowC) :=
  ⟨fun _ _ h => (by cases h), fun _ _ h => (by simp [Sys.init] at h),
    fun _ _ h => (by simp [Sys.init] at h)⟩

theorem ChanInv.still (hC : ChanInv s) (hs : Still s t) : ChanInv t where
  reg id h hl := by
    obtain ⟨q, hq, hqs⟩ := hC.reg id h (hs.pending ▸ hl)
    obtain ⟨p, hp, -, e⟩ := hs.fwd hq
    exact ⟨p, hp, e.trans hqs⟩
  unreg h p hp hps := by
    obtain ⟨q, hq, hid, e⟩ := hs.back hp
    rw [hs.pending, ← hid]
    exact hC.unreg h q hq (e.trans hps)
  once h p hp := by
    obtain ⟨q, hq, -, e⟩ := hs.back hp
    rcases hC.once h q hq with ⟨hqs, hqb⟩ | ⟨v, hv⟩
    · refine .inl ⟨e ▸ hqs, Option.not_isSome_iff_eq_none.mp fun hb => ?_⟩
      obtain ⟨q', hq', hb'⟩ := hs.buf h p hp hb
      rw [hq] at hq'
      cases hq'
      simp [hqb] at hb'
    · exact .inr ⟨v, e ▸ hv⟩

/-- The first `deliver` or `waitComplete` to find the ID pending takes the entry out and sends
    on its channel, which has received nothing. -/
theorem ChanInv.complete (hI : IdInv s) (hC : ChanInv s) {id : String} {h : Nat} {p : Response}
    (hl : s.c.pending.lookup id = some h) (hp : s.rsps[h]? = some p) (v : JResponse) :
    ChanInv ((s.erase id).fill h p v) := by
  obtain ⟨q, hq, hqs⟩ := hC.reg id h hl
  rw [hp] at hq
  cases hq
  have hlen := (List.getElem?_eq_some_iff.mp hp).1
  refine ⟨fun id' h' hl' => ?_, fun h' p' hp' hps => ?_, fun h' p' hp' => ?_⟩
  · simp only [Sys.fill_c, Sys.erase_pending] at hl'
    have hne : id' ≠ id := by rintro rfl; simp [AList.lookup_erase] at hl'
    rw [AList.lookup_erase_ne hne] at hl'
    have hh : h ≠ h' := fun e => hne (hI.key_inj hl' (e ▸ hl))
    rw [Sys.fill_rsps, Sys.erase_rsps, List.getElem?_set_ne hh]
    exact hC.reg id' h' hl'
  · rw [Sys.fill_rsps, Sys.erase_rsps] at hp'
    by_cases hh : h = h'
    · subst hh
      rw [List.getElem?_set_self hlen] at hp'
      cases hp'
      simp at hps
    · rw [List.getElem?_set_ne hh] at hp'
      have hl' := hC.unreg h' p' hp' hps
      have hne : p'.id ≠ id := fun e => hh (Option.some.inj ((e ▸ hl').symm.trans hl)).symm
      rwa [Sys.fill_c, Sys.erase_pending, AList.lookup_erase_ne hne]
  · rw [Sys.fill_rsps, Sys.erase_rsps] at hp'
    by_cases hh : h = h'
    · subst hh
      rw [List.getElem?_set_self hlen] at hp'
      cases hp'
      exact .inr ⟨v, by simp [hqs]⟩
    · rw [List.getElem?_set_ne hh] at hp'
      exact hC.once h' p' hp'

theorem ChanInv.deliver (hI : IdInv s) (hC : ChanInv s) {r : JResponse}
    (hd : s.deliver fixID r = some t) : ChanInv t := by
  rcases Sys.deliver_cases hd with rfl | ⟨h, p, -, hl, hp, -, rfl⟩
  · exact hC
  · exact hC.complete hI hl hp _

theorem ChanInv.deliverAll : ∀ {s : Sys} {rs : List JResponse}, IdInv s → ChanInv s →
    s.deliverAll fixID rs = some t → ChanInv t
  | s, [], _, hC, h => by cases h; exact hC
  | s, r :: rs, hI, hC, h => by
    rw [Sys.deliverAll_cons] at h
    obtain ⟨u, hu, ht⟩ := Option.bind_eq_some.mp h
    exact ChanInv.deliverAll (hI.quiet (Quiet.of_calm (calm_deliver hu) (frame_deliver hu)))
      (hC.deliver hI hu) ht

theorem ChanInv.waitComplete (hI : IdInv s) (hC : ChanInv s) {h : Nat} {e : CtxErr}
    (ht : s.waitComplete h e = some t) : ChanInv t := by
  obtain ⟨p, hp, ⟨-, rfl⟩ | ⟨h', hl, -, rfl⟩⟩ := Sys.waitComplete_cases ht
  · exact hC.still (still_setWatch h _)
  · obtain rfl := hI.handle_eq hp hl
    exact (hC.complete hI hl hp _).still (still_setWatch _ _)

/-- `send` registers fresh objects whose IDs nothing pending carries. -/
theorem ChanInv.send (hI : IdInv s) (hC : ChanInv s) {pre post : List (List JRequest)}
    {d : List JRequest} (hd : s.drafts = pre ++ d :: post) :
    ChanInv { s with drafts := pre ++ post, wire := s.wire ++ [d],
                     rsps := s.rsps ++ (batchIDs d).map Response.fresh,
                     c := { s.c with pending := insertAll s.c.pending s.rsps.length (batchIDs d) } } := by
  have hnd := hI.draft_nodup hd
  have hfree := hI.draft_not_pending hd
  refine ⟨fun id h hl => ?_, fun h p hp hps => ?_, fun h p hp => ?_⟩
  · by_cases hm : id ∈ batchIDs d
    · obtain ⟨i, hi⟩ := List.mem_iff_getElem?.mp hm
      rw [lookup_insertAll_of_nodup hnd hi] at hl
      cases hl
      refine ⟨Response.fresh id, ?_, rfl⟩
      rw [List.getElem?_append_right (by omega), Nat.add_sub_cancel_left, List.getElem?_map, hi]
      rfl
    · rw [lookup_insertAll_of_not_mem hm] at hl
      obtain ⟨q, hq, hqs⟩ := hC.reg id h hl
      exact ⟨q, by rw [List.getElem?_append_left (List.getElem?_eq_some_iff.mp hq).1, hq], hqs⟩
  · by_cases hh : h < s.rsps.length
    · rw [List.getElem?_append_left hh] at hp
      have hl := hC.unreg h p hp hps
      rwa [lookup_insertAll_of_not_mem fun hm => by simp [hfree _ hm] at hl]
    · rw [List.getElem?_append_right (by omega), List.getElem?_map] at hp
      obtain ⟨id, hi, rfl⟩ := Option.map_eq_some'.mp hp
      show (insertAll _ _ _).lookup id = _
      rw [lookup_insertAll_of_nodup hnd hi, Nat.add_sub_cancel' (by omega)]
  · by_cases hh : h < s.rsps.length
    · rw [List.getElem?_append_left hh] at hp
      exact hC.once h p hp
    · rw [List.getElem?_append_right (by omega), List.getElem?_map] at hp
      obtain ⟨id, -, rfl⟩ := Option.map_eq_some'.mp hp
      exact .inl ⟨rfl, rfl⟩

theorem ChanInv.step (hI : IdInv s) (hC : ChanInv s) (h : Step fixID peer s t) : ChanInv t := by
  rcases step_chanShape h with hs | ⟨rs, u, hu, hs⟩ | ⟨h, e, ht⟩ | ⟨pre, d, post, hd, rfl⟩
  · exact hC.still hs
  · exact (hC.deliverAll hI hu).still hs
  · exact hC.waitComplete hI ht
  · exact hC.send hI hd

end ChanInv

/-- The channel invariant on every reachable state whose run handed out at most `2^64` IDs. -/
theorem chanInv_reach {s : Sys} (hr : Reach fixID peer s) (hb : s.allocated.length ≤ 2 ^ 64) :
    ChanInv s := by
  induction hr with
  | init => exact chanInv_init _ _
  | @step s t hs h ih =>
    have hb' := (allocated_mono h).length_le.trans hb
    exact (ih hb').step (idInv_reach hs hb') h

/-! ## 4. One value per channel -/

/-- Every object of `s` is still in `t`, having received at least what it had. -/
def Grows (s t : Sys) : Prop :=
  ∀ (h : Nat) (p : Response), s.rsps[h]? = some p → ∃ q, t.rsps[h]? = some q ∧ p.sent.IsPrefix q.sent

section Grows

variable {s t u : Sys}

theorem Grows.trans (h₁ : Grows s t) (h₂ : Grows t u) : Grows s u := fun h p hp => by
  obtain ⟨q, hq, e₁⟩ := h₁ h p hp
  obtain ⟨r, hr, e₂⟩ := h₂ h q hq
  exact ⟨r, hr, e₁.trans e₂⟩

theorem Still.grows (hs : Still s t) : Grows s t := fun _ _ hp => by
  obtain ⟨q, hq, -, e⟩ := hs.fwd hp
  exact ⟨q, hq, e ▸ List.prefix_refl _⟩

theorem grows_fill {id : String} {h : Nat} {p : Response} (hp : s.rsps[h]? = some p)
    (v : JResponse) : Grows s ((s.erase id).fill h p v) := fun k q hq => by
  rw [Sys.fill_rsps, Sys.erase_rsps]
  by_cases hk : h = k
  · subst hk
    rw [hp] at hq
    cases hq
    exact ⟨_, List.getElem?_set_self (List.getElem?_eq_some_iff.mp hp).1, List.prefix_append _ _⟩
  · exact ⟨q, by rw [List.getElem?_set_ne hk, hq], List.prefix_refl _⟩

theorem grows_deliverAll : ∀ {s : Sys} {rs : List JResponse}, s.deliverAll fixID rs = some t →
    Grows s t
  | s, [], h => by cases h; exact (Still.of_eq rfl rfl).grows
  | s, r :: rs, h => by
    rw [Sys.deliverAll_cons] at h
    obtain ⟨u, hu, ht⟩ := Option.bind_eq_some.mp h
    refine Grows.trans ?_ (grows_deliverAll ht)
    rcases Sys.deliver_cases hu with rfl | ⟨h, p, -, -, hp, -, rfl⟩
    · exact (Still.of_eq rfl rfl).grows
    · exact grows_fill hp _

theorem grows_waitComplete {h : Nat} {e : CtxErr} (ht : s.waitComplete h e = some t) :
    Grows s t := by
  obtain ⟨p, hp, ⟨-, rfl⟩ | ⟨h', -, -, rfl⟩⟩ := Sys.waitComplete_cases ht
  · exact (still_setWatch h _).grows
  · exact (grows_fill hp _).trans (still_setWatch h _).grows

/-- No step takes back a value a channel received. -/
theorem grows_step (h : Step fixID peer s t) : Grows s t := by
  rcases step_chanShape h with hs | ⟨rs, u, hu, hs⟩ | ⟨h, e, ht⟩ | ⟨pre, d, post, -, rfl⟩
  · exact hs.grows
  · exact (grows_deliverAll hu).trans hs.grows
  · exact grows_waitComplete ht
  · exact fun h p hp => ⟨p, List.getElem?_append_left (List.getElem?_eq_some_iff.mp hp).1 ▸ hp,
      List.prefix_refl _⟩

end Grows

section Sends

variable {s : Sys}

/-- A channel that received nothing is empty. -/
theorem ChanInv.buf_none (hC : ChanInv s) {h : Nat} {p : Response} (hp : s.rsps[h]? = some p)
    (hps : p.sent = []) : p.buf = none := by
  rcases hC.once h p hp with ⟨-, hb⟩ | ⟨v, hv⟩
  · exact hb
  · simp [hps] at hv

/-- The channel send of `deliver` never blocks. -/
theorem ChanInv.deliver_isSome (hC : ChanInv s) (r : JResponse) : (s.deliver fixID r).isSome := by
  simp only [Sys.deliver]
  by_cases hne : fixID r.ID = ""
  · rw [if_pos hne]; rfl
  · rw [if_neg hne]
    cases hl : s.c.pending.lookup (fixID r.ID) with
    | none => rfl
    | some h =>
      obtain ⟨p, hp, hps⟩ := hC.reg _ h hl
      exact Option.isSome_iff_exists.mpr ⟨_, Sys.put_eq_some.mpr ⟨p, hp, hC.buf_none hp hps, rfl⟩⟩

/-- The loop of `accept` runs to its end. -/
theorem ChanInv.deliverAll_isSome : ∀ {s : Sys} (rs : List JResponse), IdInv s → ChanInv s →
    (s.deliverAll fixID rs).isSome
  | s, [], _, _ => rfl
  | s, r :: rs, hI, hC => by
    obtain ⟨u, hu⟩ := Option.isSome_iff_exists.mp (hC.deliver_isSome r : (s.deliver fixID r).isSome)
    rw [Sys.deliverAll_cons, hu, Option.some_bind]
    exact ChanInv.deliverAll_isSome rs (hI.quiet (Quiet.of_calm (calm_deliver hu) (frame_deliver hu)))
      (hC.deliver hI hu)

/-- The channel send of `waitComplete` never blocks. -/
theorem ChanInv.waitComplete_isSome (hI : IdInv s) (hC : ChanInv s) {h : Nat}
    (hh : h < s.rsps.length) (e : CtxErr) : (s.waitComplete h e).isSome := by
  obtain ⟨p, hp⟩ : ∃ p, s.rsps[h]? = some p := ⟨_, List.getElem?_eq_getElem hh⟩
  unfold Sys.waitComplete
  simp only [hp, Option.bind_eq_bind, Option.some_bind]
  split
  · rfl
  · rename_i h' hl
    obtain rfl := hI.handle_eq hp hl
    obtain ⟨q, hq, hqs⟩ := hC.reg _ _ hl
    rw [hp] at hq
    cases hq
    obtain ⟨t, ht⟩ : ∃ t, (s.erase p.id).put h' (Sys.ctxResponse p.id e) = some t :=
      ⟨_, Sys.put_eq_some.mpr ⟨p, hp, hC.buf_none hp hqs, rfl⟩⟩
    simp only [Sys.ctxResponse] at ht
    rw [ht]
    rfl

/-- An object's ID is pending, at its handle, exactly while its channel received nothing. -/
theorem ChanInv.lookup_eq (hC : ChanInv s) (hI : IdInv s) {h : Nat} {p : Response}
    (hp : s.rsps[h]? = some p) : s.c.pending.lookup p.id = if p.sent = [] then some h else none := by
  split
  · exact hC.unreg h p hp ‹_›
  · cases hl : s.c.pending.lookup p.id with
    | none => rfl
    | some h' =>
      obtain rfl := hI.handle_eq hp hl
      obtain ⟨q, hq, hqs⟩ := hC.reg _ _ hl
      rw [hp] at hq
      cases hq
      contradiction

end Sends

/-- **Each `*Response` receives at most one value**, on every reachable state whose run handed out
    at most `2^64` IDs, whatever the peer sends and in every interleaving: a channel received at
    most one value, and its ID is pending (at its own handle) exactly while it received none, so
    every later reply or context end for that ID finds nothing; the channel sends of `accept` and
    `waitComplete` never block; and no step changes a value once received. -/
theorem response_once {s : Sys} (hr : Reach fixID peer s) (hb : s.allocated.length ≤ 2 ^ 64) :
    (∀ (h : Nat) (p : Response), s.rsps[h]? = some p → p.sent.length ≤ 1 ∧
      s.c.pending.lookup p.id = if p.sent = [] then some h else none) ∧
    (∀ rs, (s.deliverAll fixID rs).isSome) ∧
    (∀ (h : Nat) (e : CtxErr), h < s.rsps.length → (s.waitComplete h e).isSome) ∧
    (∀ (t : Sys) (h : Nat) (p : Response), Step fixID peer s t → s.rsps[h]? = some p →
      ∃ q, t.rsps[h]? = some q ∧ p.sent.IsPrefix q.sent) := by
  have hI := idInv_reach hr hb
  have hC := chanInv_reach hr hb
  refine ⟨fun h p hp => ⟨?_, hC.lookup_eq hI hp⟩, fun rs => hC.deliverAll_isSome rs hI,
    fun h e hh => hC.waitComplete_isSome hI hh e, fun t h p hs hp => grows_step hs h p hp⟩
  rcases hC.once h p hp with ⟨hps, -⟩ | ⟨v, hv⟩ <;> simp [*]

/-- A run in which a `*Response` received a value: `begin`, a `req`, its `send`, and the end of
    its context. Its channel received one value, its ID is no longer pending, and no batch the
    reader accepts next blocks. -/
theorem response_once_init :
    ∃ s p, Reach id (fun _ _ => True) s ∧ s.allocated.length ≤ 2 ^ 64 ∧ s.rsps[0]? = some p ∧
      p.sent.length = 1 ∧ s.c.pending.lookup p.id = none ∧ ∀ rs, (s.deliverAll id rs).isSome := by
  have hr : Reach id (fun _ _ => True) _ :=
    ((((Reach.init false true).step (.begin _)).step (.req _ [] [] [] "m" (.ok "[]") rfl)).step
      (.send _ _ [] [] [⟨Version, formatInt 1, "m", "[]"⟩] none none [0] rfl rfl)).step
      (.waitComplete _ _ 0 _ .canceled rfl rfl rfl)
  have h := response_once hr (by decide)
  exact ⟨_, _, hr, by decide, rfl, rfl, by rw [(h.1 0 _ rfl).2]; rfl, h.2.1⟩

/-- Past `2^64` IDs a channel receives two values: the run of `wrap_run`. -/
theorem second_value_after_wrap :
    ∃ s, Reach id (fun _ _ => True) s ∧ s.allocated.length = 2 ^ 64 + 1 ∧
      ∃ p, s.rsps[0]? = some p ∧ p.sent.length = 2 := by
  obtain ⟨s, hr, hlen, -, -, -, -, -, h0, -⟩ := @wrap_run (fun _ _ => True) fun _ _ _ => trivial
  obtain ⟨p, hp, e⟩ := Option.map_eq_some'.mp h0
  exact ⟨s, hr, hlen, p, hp, e⟩

end Jrpc2
