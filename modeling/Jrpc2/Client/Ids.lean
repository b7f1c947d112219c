/-
  File:      Jrpc2/Client/Ids.lean
  Subject:   Request IDs over every run: what `req` hands out, what `send` registers, and why no
             two IDs in flight collide while the `int64` counter has not come round.

  * `allocList n` -- the first `n` IDs `req` hands out, the decimal text of `1, 2, …, n` as
    `int64`s; distinct while `n ≤ 2^64` (`allocList_nodup`);
  * `Quiet s t`, `step_idShape` -- a step hands out no ID and sends nothing (`Quiet`), or is a
    successful `req`, or a successful `send`;
  * `IdInv` -- the counter is one past the IDs handed out, the IDs in the batches being built and
    on the wire were handed out and are distinct, the `*Response` at handle `h` carries the
    `h`-th ID sent, and `c.pending` maps each ID to a handle carrying it; it holds on every
    reachable state whose run handed out at most `2^64` IDs (`idInv_reach`);
  * **`request_ids`** -- with fewer than `2^63 - 1` IDs handed out, the `k`-th is the decimal text
    of `k`, never `0` and never repeated; every pending key was handed out; `send`'s duplicate
    test passes on every batch being built, and its registration loop keeps every entry and
    gives each ID of the batch its own new handle.
-/
import Jrpc2.Client.Frame

namespace Jrpc2

variable {fixID : String → String} {peer : Sys → List Reply → Prop}

/-! ## 1. The IDs `req` hands out -/

/-- The first `n` IDs `req` hands out: `formatInt` of the counter `1, 2, …` as an `int64`. -/
def allocList (n : Nat) : List String :=
  (List.range n).map fun (k : Nat) => formatInt (int64Wrap (k + 1))

theorem allocList_succ (n : Nat) :
    allocList (n + 1) = allocList n ++ [formatInt (int64Wrap (n + 1))] := by
  simp [allocList, List.range_succ]

/-- While the counter has not come round, the IDs handed out are distinct. -/
theorem allocList_nodup {n : Nat} (hn : n ≤ 2 ^ 64) : (allocList n).Nodup := by
  refine List.Nodup.map_on (fun a ha b hb e => ?_) (List.nodup_range n)
  rw [List.mem_range] at ha hb
  have := int64Wrap_inj (by omega) (by omega) (by omega) (by omega) (formatInt_injective e)
  omega

theorem next_not_mem_allocList {n : Nat} (hn : n + 1 ≤ 2 ^ 64) :
    formatInt (int64Wrap (n + 1)) ∉ allocList n := by
  have := allocList_nodup hn
  rw [allocList_succ, List.nodup_append] at this
  exact fun h => this.2.2 h (List.mem_singleton_self _)

/-! ## 2. What a step does to the IDs -/

/-- A step that hands out no ID and sends nothing: the counter, the IDs handed out and the wire
    are kept, IDs are at most dropped from the batches being built, the objects keep their IDs
    and no pending entry is added. -/
structure Quiet (s t : Sys) : Prop where
  nextID : t.c.nextID = s.c.nextID
  allocated : t.allocated = s.allocated
  wire : t.wire = s.wire
  drafts : (batchIDs t.drafts.flatten).Sublist (batchIDs s.drafts.flatten)
  ids : t.rsps.map Response.id = s.rsps.map Response.id
  pending : ∀ (id : String) (h : Nat), t.c.pending.lookup id = some h →
    s.c.pending.lookup id = some h

section Quiet

variable {s t u : Sys}

theorem Quiet.trans (h₁ : Quiet s t) (h₂ : Quiet t u) : Quiet s u :=
  ⟨h₂.nextID.trans h₁.nextID, h₂.allocated.trans h₁.allocated, h₂.wire.trans h₁.wire,
    h₂.drafts.trans h₁.drafts, h₂.ids.trans h₁.ids, fun id h hl => h₁.pending id h (h₂.pending id h hl)⟩

/-- A step that only changes the reader, the inbox or the peer's history. -/
theorem Quiet.of_eq (hc : t.c = s.c) (hr : t.rsps = s.rsps) (hd : t.drafts = s.drafts)
    (hw : t.wire = s.wire) (ha : t.allocated = s.allocated) : Quiet s t :=
  ⟨hc ▸ rfl, ha, hw, hd ▸ .refl _, hr ▸ rfl, fun _ _ h => hc ▸ h⟩

theorem Quiet.of_calm (hc : Calm s t) (hf : Frame s t) : Quiet s t :=
  ⟨hf.nextID, hf.allocated, hf.wire, hf.drafts ▸ .refl _, hc.ids, hc.pending⟩

theorem quiet_stop (e : Err) : Quiet s (s.stop e) :=
  ⟨(frame_stop e).nextID, (frame_stop e).allocated, (frame_stop e).wire,
    by rw [(frame_stop e).drafts], stop_ids e, fun _ _ h => stop_pending e ▸ h⟩

/-- A caller drops the batch it was building. -/
theorem quiet_drop (pre post : List (List JRequest)) (d : List JRequest)
    (hd : s.drafts = pre ++ d :: post) : Quiet s { s with drafts := pre ++ post } := by
  refine ⟨rfl, rfl, rfl, ?_, rfl, fun _ _ h => h⟩
  simp only [hd, List.flatten_append, List.flatten_cons, batchIDs_append]
  exact (List.sublist_append_right _ _).append_left _

/-- A request without an ID joins a batch. -/
theorem quiet_note (pre post : List (List JRequest)) (d : List JRequest) (m P : String)
    (hd : s.drafts = pre ++ d :: post) :
    Quiet s { s with drafts := pre ++ (d ++ [⟨Version, "", m, P⟩]) :: post } := by
  refine ⟨rfl, rfl, rfl, ?_, rfl, fun _ _ h => h⟩
  simp [hd, JRequest.pendingID]

end Quiet

/-- **What a step can do to the IDs**: nothing (`Quiet`); hand out the ID `formatInt nextID` to
    a batch being built (`req`); or transmit a batch with no pending ID and register it
    (`send`). -/
theorem step_idShape {s t : Sys} (h : Step fixID peer s t) :
    Quiet s t ∨
    (∃ pre d post m P, s.drafts = pre ++ d :: post ∧
      t = { s with c := { s.c with nextID := int64Wrap (s.c.nextID + 1) },
                   drafts := pre ++ (d ++ [⟨Version, formatInt s.c.nextID, m, P⟩]) :: post,
                   allocated := s.allocated ++ [formatInt s.c.nextID] }) ∨
    (∃ pre d post, s.drafts = pre ++ d :: post ∧ s.c.duplicate d = none ∧
      t = { s with drafts := pre ++ post, wire := s.wire ++ [d],
                   rsps := s.rsps ++ (batchIDs d).map Response.fresh,
                   c := { s.c with pending := insertAll s.c.pending s.rsps.length (batchIDs d) } }) := by
  cases h with
  | begin => exact .inl ⟨rfl, rfl, rfl, by simp [Sys.begin], rfl, fun _ _ h => h⟩
  | req pre post d m bits hd =>
    rcases reqStep_cases s pre post d m bits with e | ⟨P, e⟩ <;> rw [e]
    · exact .inl (quiet_drop pre post d hd)
    · exact .inr (.inl ⟨pre, d, post, m, P, hd, rfl⟩)
  | note pre post d m bits hd =>
    rcases noteStep_cases s pre post d m bits with e | ⟨P, e⟩ <;> rw [e]
    · exact .inl (quiet_drop pre post d hd)
    · exact .inl (quiet_note pre post d m P hd)
  | send _ pre post d _ _ _ hd ht =>
    obtain ⟨-, -, hdup, -, -, -, ht⟩ := send_ok ht
    rw [register_eq, Prod.mk.injEq] at ht
    obtain ⟨rfl, -⟩ := ht
    exact .inr (.inr ⟨pre, d, post, hd, hdup, rfl⟩)
  | sendFail pre post d _ _ _ hd => exact .inl (quiet_drop pre post d hd)
  | arrive => exact .inl (Quiet.of_eq rfl rfl rfl rfl rfl)
  | recv => exact .inl (Quiet.of_eq rfl rfl rfl rfl rfl)
  | accept _ _ _ ht =>
    exact .inl ((Quiet.of_calm (calm_deliverAll ht) (frame_deliverAll ht)).trans
      (Quiet.of_eq rfl rfl rfl rfl rfl))
  | recvFail e => exact .inl ((quiet_stop e).trans (Quiet.of_eq rfl rfl rfl rfl rfl))
  | waitComplete _ _ _ _ _ _ ht =>
    exact .inl (Quiet.of_calm (calm_waitComplete ht) (frame_waitComplete ht))
  | cleanup h _ bits =>
    have hc : Quiet s (s.setWatch h .done) :=
      Quiet.of_calm (calm_setWatch h .done) ⟨rfl, rfl, rfl, rfl, rfl, rfl, rfl⟩
    rcases cleanup_cases s h bits with e | ⟨P, e⟩ <;> rw [e]
    · exact .inl hc
    · exact .inl (hc.trans ⟨rfl, rfl, rfl, by simp [Sys.setWatch, JRequest.pendingID], rfl, fun _ _ h => h⟩)
  | close => exact .inl (quiet_stop _)
  | take h => exact .inl (Quiet.of_calm (calm_take h) ⟨rfl, rfl, rfl, rfl, rfl, rfl, rfl⟩)

/-- IDs are only ever handed out, never taken back. -/
theorem allocated_mono {s t : Sys} (h : Step fixID peer s t) : s.allocated.IsPrefix t.allocated := by
  rcases step_idShape h with hq | ⟨-, -, -, -, -, -, rfl⟩ | ⟨-, -, -, -, -, rfl⟩
  · exact hq.allocated ▸ List.prefix_refl _
  · exact List.prefix_append _ _
  · exact List.prefix_refl _

/-! ## 3. The invariant -/

/-- The ID invariant. -/
structure IdInv (s : Sys) : Prop where
  /-- `nextID` is one past the number of IDs handed out, as an `int64`. -/
  count : s.c.nextID = int64Wrap (s.allocated.length + 1)
  /-- The IDs handed out are the first ones of `allocList`. -/
  alloc : s.allocated = allocList s.allocated.length
  /-- The IDs in the batches being built and on the wire were handed out, -/
  used : ∀ id ∈ batchIDs (s.drafts.flatten ++ s.wire.flatten), id ∈ s.allocated
  /-- each of them once. -/
  fresh : (batchIDs (s.drafts.flatten ++ s.wire.flatten)).Nodup
  /-- The `*Response` at handle `h` carries the `h`-th ID sent. -/
  ids : s.rsps.map Response.id = batchIDs s.wire.flatten
  /-- `c.pending` maps an ID to a handle whose `*Response` carries it. -/
  keys : ∀ (id : String) (h : Nat), s.c.pending.lookup id = some h →
    (s.rsps.map Response.id)[h]? = some id

section IdInv

variable {s t : Sys}

theorem idInv_init (allow1 allowC : Bool) : IdInv (Sys.init allow1 allowC) :=
  ⟨by show (1 : Int) = int64Wrap ((0 : Nat) + 1); rw [int64Wrap_of_lt] <;> norm_num, rfl,
    fun _ h => by simp [Sys.init] at h, List.nodup_nil, rfl, fun _ _ h => by cases h⟩

theorem IdInv.quiet (hI : IdInv s) (hq : Quiet s t) : IdInv t :=
  have hsub : (batchIDs (t.drafts.flatten ++ t.wire.flatten)).Sublist
      (batchIDs (s.drafts.flatten ++ s.wire.flatten)) := by
    rw [batchIDs_append, batchIDs_append, hq.wire]; exact hq.drafts.append_right _
  { count := by rw [hq.nextID, hq.allocated, hI.count]
    alloc := hq.allocated ▸ hI.alloc
    used := fun id h => hq.allocated ▸ hI.used id (hsub.subset h)
    fresh := hI.fresh.sublist hsub
    ids := by rw [hq.ids, hI.ids, hq.wire]
    keys := fun id h hl => hq.ids ▸ hI.keys id h (hq.pending id h hl) }

/-- `req` hands out the next ID of `allocList`, which nothing in flight carries yet. -/
theorem IdInv.req (hI : IdInv s) {pre post : List (List JRequest)} {d : List JRequest}
    {m P : String} (hd : s.drafts = pre ++ d :: post) (hb : s.allocated.length + 1 ≤ 2 ^ 64) :
    IdInv { s with c := { s.c with nextID := int64Wrap (s.c.nextID + 1) },
                   drafts := pre ++ (d ++ [⟨Version, formatInt s.c.nextID, m, P⟩]) :: post,
                   allocated := s.allocated ++ [formatInt s.c.nextID] } := by
  have hx : formatInt s.c.nextID ∉ batchIDs (s.drafts.flatten ++ s.wire.flatten) := by
    have := next_not_mem_allocList hb
    rw [← hI.alloc] at this
    rw [hI.count]
    exact fun h => this (by exact_mod_cast hI.used _ h)
  have hperm : (batchIDs ((pre ++ (d ++ [⟨Version, formatInt s.c.nextID, m, P⟩]) :: post).flatten ++
      s.wire.flatten)).Perm (formatInt s.c.nextID :: batchIDs (s.drafts.flatten ++ s.wire.flatten)) := by
    simp only [hd, List.flatten_append, List.flatten_cons, batchIDs_append, batchIDs_cons,
      batchIDs_nil, JRequest.pendingID, formatInt_ne_empty, if_false, Option.toList_some,
      List.append_assoc, List.singleton_append, List.append_nil]
    exact (List.perm_middle.append_left _).trans List.perm_middle
  refine ⟨?_, ?_, fun id h => ?_, hperm.nodup_iff.mpr (List.nodup_cons.mpr ⟨hx, hI.fresh⟩),
    hI.ids, hI.keys⟩
  · rw [hI.count, List.length_append, List.length_singleton, int64Wrap_add_one]; push_cast; rfl
  · rw [List.length_append, List.length_singleton, allocList_succ, ← hI.alloc, hI.count]
  · rcases List.mem_cons.mp (hperm.subset h) with rfl | h
    · exact List.mem_append_right _ (List.mem_singleton_self _)
    · exact List.mem_append_left _ (hI.used id h)

/-- The IDs of a batch being built are distinct, -/
theorem IdInv.draft_nodup (hI : IdInv s) {pre post : List (List JRequest)} {d : List JRequest}
    (hd : s.drafts = pre ++ d :: post) : (batchIDs d).Nodup :=
  hI.fresh.sublist <| List.Sublist.filterMap _ <|
    List.IsInfix.sublist ⟨pre.flatten, post.flatten ++ s.wire.flatten, by simp [hd]⟩

/-- a pending key is an ID on the wire, hence was handed out, -/
theorem IdInv.pending_wire (hI : IdInv s) {id : String} {h : Nat}
    (hl : s.c.pending.lookup id = some h) : id ∈ batchIDs s.wire.flatten := by
  have := hI.keys id h hl
  rw [hI.ids] at this
  exact List.mem_iff_getElem?.mpr ⟨h, this⟩

theorem IdInv.pending_mem (hI : IdInv s) {id : String} {h : Nat}
    (hl : s.c.pending.lookup id = some h) : id ∈ s.allocated :=
  hI.used id (by rw [batchIDs_append]; exact List.mem_append_right _ (hI.pending_wire hl))

/-- and no ID of a batch being built is pending. -/
theorem IdInv.draft_not_pending (hI : IdInv s) {pre post : List (List JRequest)}
    {d : List JRequest} (hd : s.drafts = pre ++ d :: post) :
    ∀ id ∈ batchIDs d, s.c.pending.lookup id = none := by
  intro id hm
  cases hl : s.c.pending.lookup id with
  | none => rfl
  | some h =>
    have hw := hI.pending_wire hl
    have := hI.fresh
    simp only [hd, List.flatten_append, List.flatten_cons, batchIDs_append, List.append_assoc,
      List.nodup_append] at this
    exact (this.2.1.2.2 hm (List.mem_append_right _ hw)).elim

/-- `send` moves a batch to the wire and registers its IDs at new handles. -/
theorem IdInv.send (hI : IdInv s) {pre post : List (List JRequest)} {d : List JRequest}
    (hd : s.drafts = pre ++ d :: post) :
    IdInv { s with drafts := pre ++ post, wire := s.wire ++ [d],
                   rsps := s.rsps ++ (batchIDs d).map Response.fresh,
                   c := { s.c with pending := insertAll s.c.pending s.rsps.length (batchIDs d) } } := by
  have hperm : (batchIDs ((pre ++ post).flatten ++ (s.wire ++ [d]).flatten)).Perm
      (batchIDs (s.drafts.flatten ++ s.wire.flatten)) := by
    simp only [hd, List.flatten_append, List.flatten_cons, List.flatten_nil, batchIDs_append,
      List.append_nil, List.append_assoc]
    exact List.Perm.append_left _ (by rw [← List.append_assoc]; exact List.perm_append_comm)
  have hids : (s.rsps ++ (batchIDs d).map Response.fresh).map Response.id =
      batchIDs s.wire.flatten ++ batchIDs d := by
    simp [hI.ids, Function.comp_def, Response.fresh]
  have hlen : s.rsps.length = (batchIDs s.wire.flatten).length := by
    rw [← hI.ids, List.length_map]
  refine ⟨hI.count, hI.alloc, fun id h => hI.used id (hperm.subset h),
    hperm.nodup_iff.mpr hI.fresh, by rw [hids]; simp, fun id h hl => ?_⟩
  rw [hids]
  by_cases hm : id ∈ batchIDs d
  · obtain ⟨i, hi⟩ := List.mem_iff_getElem?.mp hm
    rw [lookup_insertAll_of_nodup (hI.draft_nodup hd) hi] at hl
    cases hl
    rw [List.getElem?_append_right (by omega), hlen, Nat.add_sub_cancel_left, hi]
  · rw [lookup_insertAll_of_not_mem hm] at hl
    have := hI.keys id h hl
    rw [hI.ids] at this
    rwa [List.getElem?_append_left (List.getElem?_eq_some_iff.mp this).1]

/-- One step keeps the invariant, as long as the counter has not come round. -/
theorem IdInv.step (hI : IdInv s) (h : Step fixID peer s t) (hb : t.allocated.length ≤ 2 ^ 64) :
    IdInv t := by
  rcases step_idShape h with hq | ⟨pre, d, post, m, P, hd, rfl⟩ | ⟨pre, d, post, hd, -, rfl⟩
  · exact hI.quiet hq
  · exact hI.req hd (by simpa using hb)
  · exact hI.send hd

end IdInv

/-- The ID invariant on every reachable state whose run handed out at most `2^64` IDs. -/
theorem idInv_reach {s : Sys} (hr : Reach fixID peer s) (hb : s.allocated.length ≤ 2 ^ 64) :
    IdInv s := by
  induction hr with
  | init => exact idInv_init _ _
  | step _ h ih => exact (ih ((allocated_mono h).length_le.trans hb)).step h hb

/-! ## 4. Request IDs -/

/-- Before the counter reaches `2^63`, the IDs are the decimal text of `1, 2, …, n`. -/
theorem allocList_of_lt {n : Nat} (hn : n < 2 ^ 63) :
    allocList n = (List.range n).map fun (k : Nat) => formatInt (k + 1) :=
  List.map_congr_left fun k hk => by
    rw [int64Wrap_of_lt (by omega) (by have := List.mem_range.mp hk; omega)]

/-- **Request IDs**, on every reachable state whose run handed out fewer than `2^63 - 1` IDs: the
    `k`-th ID is the decimal text of `k`, so no ID is `0` and none repeats; every key of
    `c.pending` was handed out; and for every batch being built, `send`'s duplicate test passes,
    and a successful `send` keeps every pending entry and maps the `i`-th ID of the batch to the
    `i`-th new handle. -/
theorem request_ids {s : Sys} (hr : Reach fixID peer s) (hb : s.allocated.length < 2 ^ 63 - 1) :
    s.allocated = (List.range s.allocated.length).map (fun (k : Nat) => formatInt (k + 1)) ∧
    "0" ∉ s.allocated ∧ s.allocated.Nodup ∧
    (∀ id h, s.c.pending.lookup id = some h → id ∈ s.allocated) ∧
    ∀ pre d post, s.drafts = pre ++ d :: post →
      s.c.duplicate d = none ∧
      ∀ me se t hs, ({ s with drafts := pre ++ post } : Sys).send d me se = .ok (t, hs) →
        (∀ id h, s.c.pending.lookup id = some h → t.c.pending.lookup id = some h) ∧
        ∀ i id, (batchIDs d)[i]? = some id → t.c.pending.lookup id = some (s.rsps.length + i) := by
  have hI := idInv_reach hr (by omega)
  have halloc : s.allocated = (List.range s.allocated.length).map fun (k : Nat) => formatInt (k + 1) :=
    hI.alloc.trans (allocList_of_lt (by omega))
  refine ⟨halloc, fun h0 => ?_, hI.alloc ▸ allocList_nodup (by omega),
    fun id h hl => hI.pending_mem hl, fun pre d post hd => ⟨duplicate_eq_none.mpr
      (hI.draft_not_pending hd), fun me se t hs ht => ?_⟩⟩
  · rw [halloc] at h0
    obtain ⟨k, -, hk⟩ := List.mem_map.mp h0
    have := formatInt_injective (hk.trans (formatInt_natCast 0).symm)
    omega
  · obtain ⟨-, -, -, -, -, -, ht⟩ := send_ok ht
    rw [register_eq, Prod.mk.injEq] at ht
    obtain ⟨rfl, -⟩ := ht
    refine ⟨fun id h hl => ?_, fun i id hi => lookup_insertAll_of_nodup (hI.draft_nodup hd) hi⟩
    rwa [lookup_insertAll_of_not_mem fun hm => by simp [hI.draft_not_pending hd id hm] at hl]

/-- A run of two `req`s into one batch and its `send`: the IDs handed out are `1` and `2`, none
    is `0`, they are distinct, and every pending ID is one of them. -/
theorem first_id_not_zero :
    ∃ s, Reach id (fun _ _ => True) s ∧ s.allocated.length < 2 ^ 63 - 1 ∧
      s.allocated = ["1", "2"] ∧ "0" ∉ s.allocated ∧ s.allocated.Nodup ∧
      ∀ id h, s.c.pending.lookup id = some h → id ∈ s.allocated := by
  have hr : Reach id (fun _ _ => True) _ :=
    ((((Reach.init false false).step (.begin _)).step (.req _ [] [] [] "a" (.ok "[]") rfl)).step
      (.req _ [] [] [⟨Version, formatInt 1, "a", "[]"⟩] "b" (.ok "[]") rfl)).step
      (.send _ _ [] [] [⟨Version, formatInt 1, "a", "[]"⟩, ⟨Version, formatInt 2, "b", "[]"⟩]
        none none [0, 1] rfl rfl)
  have h := request_ids hr (by decide)
  exact ⟨_, hr, by decide, rfl, h.2.1, h.2.2.1, h.2.2.2.1⟩

end Jrpc2
