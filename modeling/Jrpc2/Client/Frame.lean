/-
  File:      Jrpc2/Client/Frame.lean
  Subject:   What the methods under `c.mu` leave alone: the frame lemmas the invariant files use
             instead of unfolding a method.

  * `Calm s t` -- `t` has the same `ch`, `err` and closed channel as `s`, no pending entry that
    `s` lacks, and the same `*Response` objects up to their channels and watchers (same IDs, same
    `cancelled`); `deliver`, `accept`, `waitComplete`, the deferred `rpc.cancel` and a caller's
    receive are calm;
  * `Frame s t` -- `t` has the batches, the reader, the channel traffic, the ghost histories and
    the counter of `s`: true of every method that only touches `c.pending`, `c.err`, `c.ch`, the closed flag
    and the objects; `stop` also keeps the pending table and the objects' IDs (`stop_pending`,
    `stop_ids`).
-/
import Jrpc2.Client.System

namespace Jrpc2

variable {fixID : String → String}

/-! ## 1. Calm steps -/

/-- `t` agrees with `s` on what `stop` decides, has no pending entry `s` lacks, and the same
    `*Response` objects up to their channels and watchers. -/
structure Calm (s t : Sys) : Prop where
  ch : t.c.ch = s.c.ch
  err : t.c.err = s.c.err
  closed : t.closed = s.closed
  pending : ∀ (id : String) (h : Nat), t.c.pending.lookup id = some h → s.c.pending.lookup id = some h
  length : t.rsps.length = s.rsps.length
  same : ∀ (h : Nat) (p : Response), t.rsps[h]? = some p →
    ∃ q, s.rsps[h]? = some q ∧ q.id = p.id ∧ q.cancelled = p.cancelled

section Calm

variable {s t u : Sys}

theorem Calm.of_fields (hch : t.c.ch = s.c.ch) (herr : t.c.err = s.c.err)
    (hp : t.c.pending = s.c.pending) (hr : t.rsps = s.rsps) (hcl : t.closed = s.closed) :
    Calm s t :=
  ⟨hch, herr, hcl, fun _ _ h => hp ▸ h, hr ▸ rfl, fun _ p h => ⟨p, hr ▸ h, rfl, rfl⟩⟩

theorem Calm.trans (h₁ : Calm s t) (h₂ : Calm t u) : Calm s u where
  ch := h₂.ch.trans h₁.ch
  err := h₂.err.trans h₁.err
  closed := h₂.closed.trans h₁.closed
  pending id h hl := h₁.pending id h (h₂.pending id h hl)
  length := h₂.length.trans h₁.length
  same h p hp := by
    obtain ⟨q, hq, e₁, e₂⟩ := h₂.same h p hp
    obtain ⟨r, hr, e₁', e₂'⟩ := h₁.same h q hq
    exact ⟨r, hr, e₁'.trans e₁, e₂'.trans e₂⟩

/-- A calm step keeps the IDs of the objects, handle by handle. -/
theorem Calm.ids (hc : Calm s t) : t.rsps.map Response.id = s.rsps.map Response.id := by
  apply List.ext_getElem?
  intro h
  simp only [List.getElem?_map]
  cases hp : t.rsps[h]? with
  | none =>
    have : s.rsps.length ≤ h := hc.length ▸ List.getElem?_eq_none_iff.mp hp
    simp [List.getElem?_eq_none_iff.mpr this]
  | some p =>
    obtain ⟨q, hq, hid, -⟩ := hc.same h p hp
    simp [hq, hid]

theorem calm_modify (f : Response → Response) (hid : ∀ p, (f p).id = p.id)
    (hf : ∀ p, (f p).cancelled = p.cancelled) (h : Nat) :
    Calm s { s with rsps := s.rsps.modify f h } :=
  ⟨rfl, rfl, rfl, fun _ _ h => h, List.length_modify _ _ _, fun k p hp => by
    rw [List.getElem?_modify] at hp
    cases hq : s.rsps[k]? with
    | none => simp [hq] at hp
    | some q =>
      refine ⟨q, rfl, ?_⟩
      simp only [hq, Option.map_eq_map, Option.map_some', Option.some.injEq] at hp
      split at hp <;> subst hp <;> simp [hid, hf]⟩

theorem calm_fill {h : Nat} {p : Response} (v : JResponse) (hp : s.rsps[h]? = some p) :
    Calm s (s.fill h p v) :=
  ⟨rfl, rfl, rfl, fun _ _ h => h, List.length_set .., fun k q hq => by
    simp only [Sys.fill, List.getElem?_set] at hq
    split at hq
    · subst k
      simp only [(List.getElem?_eq_some_iff.mp hp).1, if_true, Option.some.injEq] at hq
      exact ⟨p, hp, by rw [← hq], by rw [← hq]⟩
    · exact ⟨q, hq, rfl, rfl⟩⟩

theorem calm_erase (id : String) : Calm s (s.erase id) :=
  ⟨rfl, rfl, rfl, fun k h hl => by
    by_cases hk : k = id
    · subst hk; simp [Sys.erase, AList.lookup_erase] at hl
    · rwa [Sys.erase, AList.lookup_erase_ne hk] at hl, rfl, fun _ p h => ⟨p, h, rfl, rfl⟩⟩

theorem calm_deliver {r : JResponse} (hd : s.deliver fixID r = some t) : Calm s t := by
  rcases Sys.deliver_cases hd with rfl | ⟨h, p, -, -, hp, -, rfl⟩
  · exact Calm.of_fields rfl rfl rfl rfl rfl
  · exact (calm_erase _).trans (calm_fill _ hp)

theorem calm_deliverAll : ∀ {s : Sys} {rs : List JResponse}, s.deliverAll fixID rs = some t → Calm s t
  | s, [], h => by cases h; exact Calm.of_fields rfl rfl rfl rfl rfl
  | s, r :: rs, h => by
    rw [Sys.deliverAll_cons] at h
    obtain ⟨u, hu, ht⟩ := Option.bind_eq_some.mp h
    exact (calm_deliver hu).trans (calm_deliverAll ht)

theorem calm_setWatch (h : Nat) (w : Watch) : Calm s (s.setWatch h w) :=
  calm_modify (fun p => { p with watch := w }) (fun _ => rfl) (fun _ => rfl) h

theorem calm_take (h : Nat) : Calm s (s.take h) :=
  calm_modify (fun p => { p with buf := none }) (fun _ => rfl) (fun _ => rfl) h

theorem calm_waitComplete {h : Nat} {e : CtxErr} (ht : s.waitComplete h e = some t) : Calm s t := by
  obtain ⟨p, hp, ⟨-, rfl⟩ | ⟨h', -, -, rfl⟩⟩ := Sys.waitComplete_cases ht
  · exact calm_setWatch h _
  · exact ((calm_erase _).trans (calm_fill _ hp)).trans (calm_setWatch h _)

theorem calm_cleanup (h : Nat) (bits : Except Err String) : Calm s (s.cleanup h bits) := by
  rcases cleanup_cases s h bits with e | ⟨P, e⟩ <;> rw [e]
  · exact calm_setWatch h _
  · exact (calm_setWatch h _).trans (Calm.of_fields rfl rfl rfl rfl rfl)

end Calm

/-! ## 2. Frames -/

/-- `t` has the batches, the reader, the channel traffic, the ghost histories and the counter
    of `s`. -/
structure Frame (s t : Sys) : Prop where
  drafts : t.drafts = s.drafts
  reader : t.reader = s.reader
  inbox : t.inbox = s.inbox
  wire : t.wire = s.wire
  allocated : t.allocated = s.allocated
  answered : t.answered = s.answered
  nextID : t.c.nextID = s.c.nextID

section Frame

variable {s t u : Sys}

theorem Frame.trans (h₁ : Frame s t) (h₂ : Frame t u) : Frame s u :=
  ⟨h₂.drafts.trans h₁.drafts, h₂.reader.trans h₁.reader, h₂.inbox.trans h₁.inbox,
    h₂.wire.trans h₁.wire, h₂.allocated.trans h₁.allocated, h₂.answered.trans h₁.answered,
    h₂.nextID.trans h₁.nextID⟩

theorem frame_deliver {r : JResponse} (hd : s.deliver fixID r = some t) : Frame s t := by
  rcases Sys.deliver_cases hd with rfl | ⟨h, p, -, -, -, -, rfl⟩ <;>
    exact ⟨rfl, rfl, rfl, rfl, rfl, rfl, rfl⟩

theorem frame_deliverAll : ∀ {s : Sys} {rs : List JResponse}, s.deliverAll fixID rs = some t →
    Frame s t
  | s, [], h => by cases h; exact ⟨rfl, rfl, rfl, rfl, rfl, rfl, rfl⟩
  | s, r :: rs, h => by
    rw [Sys.deliverAll_cons] at h
    obtain ⟨u, hu, ht⟩ := Option.bind_eq_some.mp h
    exact (frame_deliver hu).trans (frame_deliverAll ht)

theorem frame_waitComplete {h : Nat} {e : CtxErr} (ht : s.waitComplete h e = some t) :
    Frame s t := by
  obtain ⟨p, -, ⟨-, rfl⟩ | ⟨h', -, -, rfl⟩⟩ := Sys.waitComplete_cases ht <;>
    exact ⟨rfl, rfl, rfl, rfl, rfl, rfl, rfl⟩

theorem frame_stop (e : Err) : Frame s (s.stop e) := by
  unfold Sys.stop; split <;> exact ⟨rfl, rfl, rfl, rfl, rfl, rfl, rfl⟩

/-- The cancel loop of `stop` keeps every object's ID. -/
theorem cancelAll_ids (rsps : List Response) (es : List (Σ _ : String, Nat)) :
    (cancelAll rsps es).map Response.id = rsps.map Response.id := by
  apply List.ext_getElem?
  intro h
  rw [List.getElem?_map, List.getElem?_map, getElem?_cancelAll]
  cases rsps[h]? with
  | none => rfl
  | some p => simp only [Option.map_some']; split <;> rfl

theorem stop_ids (e : Err) : (s.stop e).rsps.map Response.id = s.rsps.map Response.id := by
  unfold Sys.stop; split
  · exact cancelAll_ids _ _
  · rfl

theorem stop_pending (e : Err) : (s.stop e).c.pending = s.c.pending := by
  unfold Sys.stop; split <;> rfl

end Frame

end Jrpc2
