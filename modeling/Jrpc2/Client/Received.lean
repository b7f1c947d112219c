/-
  File:      Jrpc2/Client/Received.lean
  Subject:   What a caller can receive. `deliver` sends a reply on the channel of the entry its
             filtered ID finds in `c.pending`, and `waitComplete` sends the context error on its
             own `*Response`; `send` records each ID with the object it creates for it. So a
             `*Response` receives only what is its own, against any peer and with no bound on
             the IDs handed out (unlike `response_once`, Once.lean, whose bound the counter's
             wrap makes necessary).

  * `allow1_step` -- no step changes `allow1`, so `versionOK` reads the same throughout a run;
  * `KeyInv` -- a pending entry points at the `*Response` carrying its ID: `send` inserts each ID
    with the handle of its fresh object (a later insert of the same ID replaces the entry, and
    points at an object with that ID too), and nothing else adds entries (`keyInv_reach`);
  * `Received`, `RecvInv` -- every value a channel received is its context's error or a reply
    whose filtered ID is the request's, itself if its version marker is accepted and else the
    version error (`recvInv_reach`);
  * **`received_own`** -- both, on every reachable state.

  NOT here: which reply a caller gets when the peer answers one ID twice (the first, by
  `response_once` within the bound), and what the caller does with it (`Call`'s switch on the
  error code reads `Response.Error`, not in src).
-/
import Jrpc2.Client.Once

namespace Jrpc2

variable {fixID : String → String} {peer : Sys → List Reply → Prop}

/-! ## 1. The client's options stay -/

section Options

variable {s t : Sys}

theorem deliverAll_allow1 : ∀ {s : Sys} {rs : List JResponse}, s.deliverAll fixID rs = some t →
    t.c.allow1 = s.c.allow1
  | s, [], h => by cases h; rfl
  | s, r :: rs, h => by
    rw [Sys.deliverAll_cons] at h
    obtain ⟨u, hu, ht⟩ := Option.bind_eq_some.mp h
    rw [deliverAll_allow1 ht]
    rcases Sys.deliver_cases hu with rfl | ⟨h, p, -, -, -, -, rfl⟩ <;> rfl

/-- No step changes `allow1`. -/
theorem allow1_step (h : Step fixID peer s t) : t.c.allow1 = s.c.allow1 := by
  cases h with
  | req pre post d m bits =>
    rcases reqStep_cases s pre post d m bits with e | ⟨P, e⟩ <;> rw [e]
  | note pre post d m bits =>
    rcases noteStep_cases s pre post d m bits with e | ⟨P, e⟩ <;> rw [e]
  | send _ pre post d _ _ _ _ ht =>
    obtain ⟨-, -, -, -, -, -, ht⟩ := send_ok ht
    rw [register_eq, Prod.mk.injEq] at ht
    obtain ⟨rfl, -⟩ := ht
    rfl
  | accept u _ _ ht => exact (deliverAll_allow1 ht : u.c.allow1 = _)
  | recvFail e => unfold Sys.stop; split <;> rfl
  | waitComplete _ h _ e _ _ ht =>
    obtain ⟨p, -, ⟨-, rfl⟩ | ⟨h', -, -, rfl⟩⟩ := Sys.waitComplete_cases ht <;> rfl
  | cleanup h _ bits => rcases cleanup_cases s h bits with e | ⟨P, e⟩ <;> rw [e] <;> rfl
  | close => unfold Sys.stop; split <;> rfl
  | begin | sendFail | arrive | recv | take => rfl

end Options

/-! ## 2. Each pending entry points at its own object -/

/-- An entry of `insertAll` was in the table, or is one of the inserted IDs, at its position. -/
theorem lookup_insertAll_cases {m : AList (fun _ : String => Nat)} {id : String} {h : Nat} :
    ∀ {n ids}, (insertAll m n ids).lookup id = some h →
      m.lookup id = some h ∨ ∃ i, ids[i]? = some id ∧ h = n + i := by
  intro n ids hl
  induction ids generalizing m n with
  | nil => exact .inl hl
  | cons x ids ih =>
    rcases ih hl with hl | ⟨i, hi, rfl⟩
    · by_cases hx : id = x
      · subst hx
        rw [AList.lookup_insert, Option.some.injEq] at hl
        exact .inr ⟨0, List.getElem?_cons_zero, by rw [hl, Nat.add_zero]⟩
      · rw [AList.lookup_insert_ne hx] at hl
        exact .inl hl
    · exact .inr ⟨i + 1, (List.getElem?_cons_succ ..).trans hi, by omega⟩

/-- A pending entry points at the `*Response` carrying its ID. -/
def KeyInv (s : Sys) : Prop :=
  ∀ (id : String) (h : Nat), s.c.pending.lookup id = some h → ∃ p, s.rsps[h]? = some p ∧ p.id = id

section KeyInv

variable {s t : Sys}

theorem keyInv_init (allow1 allowC : Bool) : KeyInv (Sys.init allow1 allowC) :=
  fun _ _ h => by cases h

theorem KeyInv.still (hK : KeyInv s) (hs : Still s t) : KeyInv t := fun id h hl => by
  obtain ⟨q, hq, rfl⟩ := hK id h (hs.pending ▸ hl)
  obtain ⟨p, hp, e, -⟩ := hs.fwd hq
  exact ⟨p, hp, e⟩

/-- Taking an entry out and sending on a channel keep the entries' objects. -/
theorem KeyInv.fill (hK : KeyInv s) (id : String) {h : Nat} {p : Response}
    (hp : s.rsps[h]? = some p) (v : JResponse) : KeyInv ((s.erase id).fill h p v) :=
  fun id' h' hl => by
    obtain ⟨q, hq, rfl⟩ := hK id' h' ((calm_erase id).pending id' h' hl)
    rw [Sys.fill_rsps, Sys.erase_rsps]
    by_cases hh : h = h'
    · subst hh
      rw [hp] at hq
      cases hq
      exact ⟨_, List.getElem?_set_self (List.getElem?_eq_some_iff.mp hp).1, rfl⟩
    · exact ⟨q, by rw [List.getElem?_set_ne hh, hq], rfl⟩

theorem KeyInv.deliver (hK : KeyInv s) {r : JResponse} (hd : s.deliver fixID r = some t) :
    KeyInv t := by
  rcases Sys.deliver_cases hd with rfl | ⟨h, p, -, -, hp, -, rfl⟩
  · exact hK
  · exact hK.fill _ hp _

theorem KeyInv.deliverAll : ∀ {s : Sys} {rs : List JResponse}, KeyInv s →
    s.deliverAll fixID rs = some t → KeyInv t
  | s, [], hK, h => by cases h; exact hK
  | s, r :: rs, hK, h => by
    rw [Sys.deliverAll_cons] at h
    obtain ⟨u, hu, ht⟩ := Option.bind_eq_some.mp h
    exact KeyInv.deliverAll (hK.deliver hu) ht

theorem KeyInv.waitComplete (hK : KeyInv s) {h : Nat} {e : CtxErr}
    (ht : s.waitComplete h e = some t) : KeyInv t := by
  obtain ⟨p, hp, ⟨-, rfl⟩ | ⟨h', -, -, rfl⟩⟩ := Sys.waitComplete_cases ht
  · exact hK.still (still_setWatch _ _)
  · exact (hK.fill _ hp _).still (still_setWatch _ _)

/-- `send` records each ID of the batch with the handle of the object it creates for it. -/
theorem KeyInv.register (hK : KeyInv s) {ids : List String}
    (hr : t.rsps = s.rsps ++ ids.map Response.fresh)
    (hp : t.c.pending = insertAll s.c.pending s.rsps.length ids) : KeyInv t := fun id h hl => by
  rw [hr]
  rw [hp] at hl
  rcases lookup_insertAll_cases hl with hl | ⟨i, hi, rfl⟩
  · obtain ⟨q, hq, rfl⟩ := hK id h hl
    exact ⟨q, (List.getElem?_append_left (List.getElem?_eq_some_iff.mp hq).1).trans hq, rfl⟩
  · refine ⟨Response.fresh id, ?_, rfl⟩
    rw [List.getElem?_append_right (by omega), Nat.add_sub_cancel_left, List.getElem?_map, hi]
    rfl

theorem KeyInv.step (hK : KeyInv s) (h : Step fixID peer s t) : KeyInv t := by
  rcases step_chanShape h with hs | ⟨rs, u, hu, hs⟩ | ⟨h, e, ht⟩ | ⟨pre, d, post, -, rfl⟩
  · exact hK.still hs
  · exact (hK.deliverAll hu).still hs
  · exact hK.waitComplete ht
  · exact hK.register rfl rfl

end KeyInv

theorem keyInv_reach {s : Sys} (hr : Reach fixID peer s) : KeyInv s := by
  induction hr with
  | init => exact keyInv_init _ _
  | step _ h ih => exact ih.step h

/-! ## 3. What a channel received -/

/-- What the `*Response` with ID `id` may receive on client `c`: the error its context ended
    with, or a reply whose ID `fixID` maps to `id`, passed on if `c` accepts its version marker
    and replaced by the version error if not. -/
def Received (fixID : String → String) (c : Client) (id : String) (v : JResponse) : Prop :=
  (∃ e, v = Sys.ctxResponse id e) ∨
    ∃ r : JResponse, fixID r.ID = id ∧ v = if c.versionOK r.V then r else versionError r

theorem Received.congr {c c' : Client} {id : String} {v : JResponse}
    (ha : c'.allow1 = c.allow1) (hv : Received fixID c id v) : Received fixID c' id v := by
  have e : c'.versionOK = c.versionOK := by funext x; simp only [Client.versionOK, ha]
  unfold Received at hv ⊢
  rwa [e]

/-- Every value a channel received is one it may receive. -/
def RecvInv (fixID : String → String) (s : Sys) : Prop :=
  ∀ (h : Nat) (p : Response), s.rsps[h]? = some p → ∀ v ∈ p.sent, Received fixID s.c p.id v

section RecvInv

variable {s t : Sys}

theorem recvInv_init (allow1 allowC : Bool) : RecvInv fixID (Sys.init allow1 allowC) :=
  fun _ _ h => by simp [Sys.init] at h

theorem RecvInv.still (hR : RecvInv fixID s) (hs : Still s t) (ha : t.c.allow1 = s.c.allow1) :
    RecvInv fixID t := fun h p hp v hv => by
  obtain ⟨q, hq, hid, e⟩ := hs.back hp
  rw [← e] at hv
  rw [← hid]
  exact (hR h q hq v hv).congr ha

/-- Sending a value the object may receive keeps the invariant. -/
theorem RecvInv.fill (hR : RecvInv fixID s) (id : String) {h : Nat} {p : Response}
    (hp : s.rsps[h]? = some p) {v : JResponse} (hv : Received fixID s.c p.id v) :
    RecvInv fixID ((s.erase id).fill h p v) := fun k q hq w hw => by
  rw [Sys.fill_rsps, Sys.erase_rsps] at hq
  by_cases hk : h = k
  · subst hk
    rw [List.getElem?_set_self (List.getElem?_eq_some_iff.mp hp).1] at hq
    cases hq
    rcases List.mem_append.mp hw with hw | hw
    · exact (hR h p hp w hw).congr rfl
    · rw [List.mem_singleton.mp hw]
      exact hv.congr rfl
  · rw [List.getElem?_set_ne hk] at hq
    exact (hR k q hq w hw).congr rfl

/-- `deliver` sends a reply on the object its filtered ID finds, which carries that ID. -/
theorem RecvInv.deliver (hK : KeyInv s) (hR : RecvInv fixID s) {r : JResponse}
    (hd : s.deliver fixID r = some t) : RecvInv fixID t := by
  rcases Sys.deliver_cases hd with rfl | ⟨h, p, -, hl, hp, -, rfl⟩
  · exact hR
  obtain ⟨q, hq, hid⟩ := hK _ _ hl
  rw [hp] at hq
  cases hq
  exact hR.fill _ hp (.inr ⟨r, hid.symm, rfl⟩)

theorem RecvInv.deliverAll : ∀ {s : Sys} {rs : List JResponse}, KeyInv s → RecvInv fixID s →
    s.deliverAll fixID rs = some t → RecvInv fixID t
  | s, [], _, hR, h => by cases h; exact hR
  | s, r :: rs, hK, hR, h => by
    rw [Sys.deliverAll_cons] at h
    obtain ⟨u, hu, ht⟩ := Option.bind_eq_some.mp h
    exact RecvInv.deliverAll (hK.deliver hu) (hR.deliver hK hu) ht

/-- `waitComplete` sends the context error on its own object. -/
theorem RecvInv.waitComplete (hR : RecvInv fixID s) {h : Nat} {e : CtxErr}
    (ht : s.waitComplete h e = some t) : RecvInv fixID t := by
  obtain ⟨p, hp, ⟨-, rfl⟩ | ⟨h', -, -, rfl⟩⟩ := Sys.waitComplete_cases ht
  · exact hR.still (still_setWatch _ _) rfl
  · exact (hR.fill _ hp (.inl ⟨e, rfl⟩)).still (still_setWatch _ _) rfl

/-- `send` creates objects that received nothing. -/
theorem RecvInv.register (hR : RecvInv fixID s) (ha : t.c.allow1 = s.c.allow1)
    {ids : List String} (hr : t.rsps = s.rsps ++ ids.map Response.fresh) : RecvInv fixID t :=
  fun h p hp v hv => by
    rw [hr] at hp
    by_cases hh : h < s.rsps.length
    · rw [List.getElem?_append_left hh] at hp
      exact (hR h p hp v hv).congr ha
    · rw [List.getElem?_append_right (by omega), List.getElem?_map] at hp
      obtain ⟨id, -, rfl⟩ := Option.map_eq_some'.mp hp
      simp [Response.fresh] at hv

theorem RecvInv.step (hK : KeyInv s) (hR : RecvInv fixID s) (h : Step fixID peer s t) :
    RecvInv fixID t := by
  have ha := allow1_step h
  rcases step_chanShape h with hs | ⟨rs, u, hu, hs⟩ | ⟨h, e, ht⟩ | ⟨pre, d, post, -, rfl⟩
  · exact hR.still hs ha
  · exact (hR.deliverAll hK hu).still hs (ha.trans (deliverAll_allow1 hu).symm)
  · exact hR.waitComplete ht
  · exact hR.register ha rfl

end RecvInv

theorem recvInv_reach {s : Sys} (hr : Reach fixID peer s) : RecvInv fixID s := by
  induction hr with
  | init => exact recvInv_init _ _
  | step hs h ih => exact ih.step (keyInv_reach hs) h

/-- **A caller receives only what is its own**, on every reachable state, whatever the peer sends,
    in every interleaving and however many IDs the run handed out: every pending entry points at
    the `*Response` carrying its ID, and every value the channel of a `*Response` received is the
    error its context ended with, or a reply whose ID the filter maps to the request's ID, passed
    on only if the client accepts its version marker and replaced by the version error if not. -/
theorem received_own {s : Sys} (hr : Reach fixID peer s) :
    (∀ (id : String) (h : Nat), s.c.pending.lookup id = some h →
      ∃ p, s.rsps[h]? = some p ∧ p.id = id) ∧
    ∀ (h : Nat) (p : Response), s.rsps[h]? = some p → ∀ v ∈ p.sent,
      (∃ e, v = Sys.ctxResponse p.id e) ∨
        ∃ r : JResponse, fixID r.ID = p.id ∧ v = if s.c.versionOK r.V then r else versionError r :=
  ⟨keyInv_reach hr, recvInv_reach hr⟩

/-- A reply with the version marker `1.0` to the first call: the caller receives the version
    error for it. -/
theorem received_own_bad_version :
    ∃ s p, Reach id (fun _ _ => True) s ∧ s.rsps[0]? = some p ∧
      p.sent = [versionError { V := "1.0", ID := formatInt 1, R := "true" }] ∧
      ((∀ (id : String) (h : Nat), s.c.pending.lookup id = some h →
        ∃ p, s.rsps[h]? = some p ∧ p.id = id) ∧
      ∀ (h : Nat) (p : Response), s.rsps[h]? = some p → ∀ v ∈ p.sent,
        (∃ e, v = Sys.ctxResponse p.id e) ∨
          ∃ r : JResponse, r.ID = p.id ∧ v = if s.c.versionOK r.V then r else versionError r) := by
  have hr : Reach id (fun _ _ => True) _ :=
    ((((((Reach.init false false).step (.begin _)).step (.req _ [] [] [] "m" (.ok "[]") rfl)).step
      (.send _ _ [] [] [⟨Version, formatInt 1, "m", "[]"⟩] none none [0] rfl rfl)).step
      (.arrive _ [⟨{ V := "1.0", ID := formatInt 1, R := "true" }, none⟩] trivial)).step
      (.recv _ _ [] rfl rfl)).step (.accept _ _ _ rfl rfl)
  exact ⟨_, _, hr, rfl, rfl, received_own hr⟩

end Jrpc2
