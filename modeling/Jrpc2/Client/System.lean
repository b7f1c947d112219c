/-
  File:      Jrpc2/Client/System.lean
  Subject:   The client as a system of goroutines: every interleaving of callers, watchers, the
             reading goroutine, `Close` and a peer, as a step relation on `Sys`.

  * `Step fixID peer` -- one step of one party, each taking `c.mu` for as long as the code holds
    it: a caller's `req` / `note` / `send` on the batch it is building, the reader's `Recv` and
    its `accept` of a whole batch, a watcher's `waitComplete` and its deferred `rpc.cancel`,
    `Close`, a caller receiving from its channel, and the peer putting a frame on the channel
    (what it may send is the parameter `peer`);
  * `Reach fixID peer` -- the states reachable from `NewClient`;
  * per-method spec lemmas (`put_eq_some`, `deliver_cases`, `waitComplete_cases`, `send_cases`,
    `register_spec`, `getElem?_cancelAll`): each says once everything a method can do, so that
    the invariant files never unfold a method.
-/
import Jrpc2.Client.Basic

namespace Jrpc2

namespace Sys

/-! ## 1. The steps' effects -/

/-- A caller starts `Call`, `Batch` or `Notify`: a new, empty batch. -/
def begin (s : Sys) : Sys := { s with drafts := s.drafts ++ [[]] }

/-- `c.req` for the batch `d` a caller is building (`pre`, `post` are the other callers'); on an
    error the caller returns and drops its batch. -/
def reqStep (s : Sys) (pre : List (List JRequest)) (d : List JRequest)
    (post : List (List JRequest)) (method : String) (bits : Except Err String) : Sys :=
  match s.c.req method bits with
  | .ok (r, c) => { s with c, drafts := pre ++ (d ++ [r]) :: post, allocated := s.allocated ++ [r.ID] }
  | .error _ => { s with drafts := pre ++ post }

/-- `c.note` for the batch `d` a caller is building. -/
def noteStep (s : Sys) (pre : List (List JRequest)) (d : List JRequest)
    (post : List (List JRequest)) (method : String) (bits : Except Err String) : Sys :=
  match note method bits with
  | .ok r => { s with drafts := pre ++ (d ++ [r]) :: post }
  | .error _ => { s with drafts := pre ++ post }

/-- The peer puts frame `f` on the channel. -/
def arrive (s : Sys) (f : List Reply) : Sys :=
  { s with inbox := s.inbox ++ [f], answered := s.answered ++ f.filterMap (·.answers) }

end Sys

/-! ## 2. Steps and runs -/

/-- One step of one party of the client. `fixID` is the package's ID filter; `peer s f` says the
    peer may put frame `f` on the channel in state `s`. -/
inductive Step (fixID : String → String) (peer : Sys → List Reply → Prop) : Sys → Sys → Prop where
  | begin (s : Sys) : Step fixID peer s s.begin
  | req (s : Sys) (pre post : List (List JRequest)) (d : List JRequest) (method : String)
      (bits : Except Err String) (h : s.drafts = pre ++ d :: post) :
      Step fixID peer s (s.reqStep pre d post method bits)
  | note (s : Sys) (pre post : List (List JRequest)) (d : List JRequest) (method : String)
      (bits : Except Err String) (h : s.drafts = pre ++ d :: post) :
      Step fixID peer s (s.noteStep pre d post method bits)
  | send (s t : Sys) (pre post : List (List JRequest)) (d : List JRequest)
      (marshalErr : Option String) (sendErr : Option Err) (hs : List Nat)
      (h : s.drafts = pre ++ d :: post)
      (ht : ({ s with drafts := pre ++ post } : Sys).send d marshalErr sendErr = .ok (t, hs)) :
      Step fixID peer s t
  | sendFail (s : Sys) (pre post : List (List JRequest)) (d : List JRequest)
      (marshalErr : Option String) (sendErr : Option Err) (e : Err)
      (h : s.drafts = pre ++ d :: post)
      (he : ({ s with drafts := pre ++ post } : Sys).send d marshalErr sendErr = .error e) :
      Step fixID peer s { s with drafts := pre ++ post }
  | arrive (s : Sys) (f : List Reply) (h : peer s f) : Step fixID peer s (s.arrive f)
  | recv (s : Sys) (f : List Reply) (rest : List (List Reply)) (hr : s.reader = .idle)
      (hi : s.inbox = f :: rest) : Step fixID peer s { s with reader := .holding f, inbox := rest }
  | accept (s t : Sys) (f : List Reply) (hr : s.reader = .holding f)
      (ht : s.deliverAll fixID (f.map (·.rsp)) = some t) : Step fixID peer s { t with reader := .idle }
  | recvFail (s : Sys) (e : Err) (hr : s.reader = .idle) :
      Step fixID peer s { s.stop e with reader := .done }
  | waitComplete (s t : Sys) (h : Nat) (p : Response) (e : CtxErr) (hp : s.rsps[h]? = some p)
      (hw : p.watch = .waiting) (ht : s.waitComplete h e = some t) : Step fixID peer s t
  | cleanup (s : Sys) (h : Nat) (p : Response) (bits : Except Err String)
      (hp : s.rsps[h]? = some p) (hw : p.watch = .notifying) : Step fixID peer s (s.cleanup h bits)
  | close (s : Sys) : Step fixID peer s (s.stop .stopped)
  | take (s : Sys) (h : Nat) (p : Response) (v : JResponse) (hp : s.rsps[h]? = some p)
      (hb : p.buf = some v) : Step fixID peer s (s.take h)

/-- The states a client reaches from `NewClient`. -/
inductive Reach (fixID : String → String) (peer : Sys → List Reply → Prop) : Sys → Prop where
  | init (allow1 allowC : Bool) : Reach fixID peer (Sys.init allow1 allowC)
  | step {s t : Sys} (hs : Reach fixID peer s) (h : Step fixID peer s t) : Reach fixID peer t

/-! ## 3. What each method does -/

namespace Sys

/-- The channel of the `*Response` `p` at handle `h` receives `v`. -/
def fill (s : Sys) (h : Nat) (p : Response) (v : JResponse) : Sys :=
  { s with rsps := s.rsps.set h { p with buf := some v, sent := p.sent ++ [v] } }

@[simp] theorem fill_rsps (s : Sys) (h : Nat) (p : Response) (v : JResponse) :
    (s.fill h p v).rsps = s.rsps.set h { p with buf := some v, sent := p.sent ++ [v] } := rfl

@[simp] theorem fill_c (s : Sys) (h : Nat) (p : Response) (v : JResponse) :
    (s.fill h p v).c = s.c := rfl

@[simp] theorem erase_rsps (s : Sys) (id : String) : (s.erase id).rsps = s.rsps := rfl

@[simp] theorem erase_pending (s : Sys) (id : String) :
    (s.erase id).c.pending = s.c.pending.erase id := rfl

/-- The value `waitComplete` sends when the context of request `id` ended with `e`. -/
def ctxResponse (id : String) (e : CtxErr) : JResponse :=
  { V := "", ID := id, E := some (jerrorf e.code e.message) }

theorem put_eq_some {s t : Sys} {h : Nat} {v : JResponse} :
    s.put h v = some t ↔ ∃ p, s.rsps[h]? = some p ∧ p.buf = none ∧ t = s.fill h p v := by
  unfold put Response.put fill
  cases hp : s.rsps[h]? with
  | none => simp
  | some p =>
    cases hb : p.buf with
    | none => simpa [hb] using eq_comm
    | some _ => simp [hb]

/-- **`deliver`** leaves the state alone, or takes the entry of the reply's ID out of
    `c.pending` and sends the reply (or the version error) on that entry's channel, which is
    empty. -/
theorem deliver_cases {fixID : String → String} {s t : Sys} {rsp : JResponse}
    (hd : s.deliver fixID rsp = some t) :
    t = s ∨ ∃ h p, fixID rsp.ID ≠ "" ∧ s.c.pending.lookup (fixID rsp.ID) = some h ∧
      s.rsps[h]? = some p ∧ p.buf = none ∧
      t = (s.erase (fixID rsp.ID)).fill h p (if s.c.versionOK rsp.V then rsp else versionError rsp) := by
  simp only [deliver] at hd
  by_cases hne : fixID rsp.ID = ""
  · rw [if_pos hne] at hd; exact .inl (Option.some.inj hd).symm
  · rw [if_neg hne] at hd
    cases hl : s.c.pending.lookup (fixID rsp.ID) with
    | none => rw [hl] at hd; exact .inl (Option.some.inj hd).symm
    | some h =>
      rw [hl] at hd
      obtain ⟨p, hp, hb, rfl⟩ := put_eq_some.mp hd
      exact .inr ⟨h, p, hne, rfl, hp, hb, rfl⟩

theorem deliverAll_cons {fixID : String → String} (s : Sys) (r : JResponse) (rs : List JResponse) :
    s.deliverAll fixID (r :: rs) = (s.deliver fixID r).bind (·.deliverAll fixID rs) := rfl

/-- **`waitComplete`** finds no entry for its ID and only finishes, or takes that entry out and
    sends the context error on its own `*Response`, which is empty. -/
theorem waitComplete_cases {s t : Sys} {h : Nat} {e : CtxErr} (ht : s.waitComplete h e = some t) :
    ∃ p, s.rsps[h]? = some p ∧
      ((s.c.pending.lookup p.id = none ∧ t = s.setWatch h .done) ∨
       (∃ h', s.c.pending.lookup p.id = some h' ∧ p.buf = none ∧
          t = ((s.erase p.id).fill h p (ctxResponse p.id e)).setWatch h
                (if s.c.allowC then .notifying else .done))) := by
  unfold waitComplete at ht
  cases hp : s.rsps[h]? with
  | none => simp [hp] at ht
  | some p =>
    refine ⟨p, rfl, ?_⟩
    simp only [hp, Option.bind_eq_bind, Option.some_bind] at ht
    split at ht
    · exact .inl ⟨‹_›, (Option.some.inj ht).symm⟩
    · rename_i h' hl
      obtain ⟨u, hu, ht⟩ := Option.bind_eq_some.mp ht
      cases Option.some.inj ht
      obtain ⟨q, hq, hb, rfl⟩ := put_eq_some.mp hu
      simp only [erase, hp, Option.some.injEq] at hq
      subst hq
      exact .inr ⟨h', hl, hb, rfl⟩

end Sys

/-- `c.pending` after the registration loop: each ID in turn mapped to the next handle. -/
def insertAll (m : AList (fun _ : String => Nat)) : Nat → List String → AList (fun _ : String => Nat)
  | _, [] => m
  | n, id :: ids => insertAll (m.insert id n) (n + 1) ids

theorem lookup_insertAll_of_not_mem {m : AList (fun _ : String => Nat)} {id : String} :
    ∀ {n ids}, id ∉ ids → (insertAll m n ids).lookup id = m.lookup id := by
  intro n ids h
  induction ids generalizing m n with
  | nil => rfl
  | cons x ids ih =>
    simp only [List.mem_cons, not_or] at h
    rw [insertAll, ih h.2, AList.lookup_insert_ne h.1]

theorem lookup_insertAll_isSome {m : AList (fun _ : String => Nat)} {id : String} :
    ∀ {n ids}, ((insertAll m n ids).lookup id).isSome ↔ id ∈ ids ∨ (m.lookup id).isSome := by
  intro n ids
  induction ids generalizing m n with
  | nil => simp [insertAll]
  | cons x ids ih =>
    rw [insertAll, ih]
    by_cases hx : id = x
    · subst hx; simp
    · simp [AList.lookup_insert_ne hx, hx]

/-- With distinct IDs, the `i`-th ID is mapped to handle `n + i`. -/
theorem lookup_insertAll_of_nodup {m : AList (fun _ : String => Nat)} {id : String} :
    ∀ {n i ids}, ids.Nodup → ids[i]? = some id → (insertAll m n ids).lookup id = some (n + i) := by
  intro n i ids hn hi
  induction ids generalizing m n i with
  | nil => simp at hi
  | cons x ids ih =>
    rw [insertAll]
    cases i with
    | zero =>
      simp only [List.getElem?_cons_zero, Option.some.injEq] at hi
      subst hi
      rw [lookup_insertAll_of_not_mem (List.nodup_cons.mp hn).1, AList.lookup_insert]; rfl
    | succ i =>
      rw [List.getElem?_cons_succ] at hi
      rw [ih (List.nodup_cons.mp hn).2 hi]; simp only [Nat.add_assoc, Nat.add_comm 1 i]

/-- **The registration loop**: one fresh `*Response` per ID of the batch, at the next handles, in
    batch order, each ID recorded in `c.pending`. -/
theorem register_eq (s : Sys) (reqs : List JRequest) :
    s.register reqs =
      ({ s with rsps := s.rsps ++ (batchIDs reqs).map Response.fresh,
                c := { s.c with pending := insertAll s.c.pending s.rsps.length (batchIDs reqs) } },
       List.range' s.rsps.length (batchIDs reqs).length) := by
  induction reqs generalizing s with
  | nil => simp [Sys.register, insertAll]
  | cons r rs ih =>
    by_cases hr : r.ID = ""
    · simp [Sys.register, hr, ih, JRequest.pendingID]
    · simp [Sys.register, hr, ih, JRequest.pendingID, insertAll, List.range'_succ]

theorem duplicate_eq_none {c : Client} {reqs : List JRequest} :
    c.duplicate reqs = none ↔ ∀ id ∈ batchIDs reqs, c.pending.lookup id = none := by
  simp only [Client.duplicate, List.find?_eq_none, Bool.and_eq_true, bne_iff_ne, ne_eq,
    Option.isSome_iff_ne_none, not_and, not_not, batchIDs, JRequest.pendingID, List.mem_filterMap,
    ite_eq_right_iff, forall_exists_index, and_imp]
  refine ⟨fun h id x hx e => ?_, fun h x hx hne => h _ x hx (by rw [if_neg hne])⟩
  by_cases hx' : x.ID = ""
  · rw [if_pos hx'] at e; cases e
  · rw [if_neg hx'] at e; cases e; exact h x hx hx'

/-- **`send` succeeds** only on a non-empty batch of a running client with no pending ID, and
    then transmits the batch and registers it. -/
theorem send_ok {s t : Sys} {reqs : List JRequest} {me : Option String} {se : Option Err}
    {hs : List Nat} (h : s.send reqs me se = .ok (t, hs)) :
    reqs ≠ [] ∧ s.c.err = none ∧ s.c.duplicate reqs = none ∧ me = none ∧ s.c.ch = true ∧
      se = none ∧ (t, hs) = ({ s with wire := s.wire ++ [reqs] } : Sys).register reqs := by
  unfold Sys.send at h
  by_cases hne : reqs = []
  · simp [hne] at h
  cases he : s.c.err with
  | some e => simp [hne, he] at h
  | none =>
    cases hd : s.c.duplicate reqs with
    | some r => simp [hne, he, hd] at h
    | none =>
      cases me with
      | some e => simp [hne, he, hd] at h
      | none =>
        cases hch : s.c.ch with
        | false => simp [hne, he, hd, hch] at h
        | true =>
          cases se with
          | some e => simp [hne, he, hd, hch] at h
          | none =>
            simp only [hne, he, hd, hch, if_false, Bool.not_true] at h
            injection h with h
            exact ⟨hne, rfl, rfl, rfl, rfl, rfl, h.symm⟩

/-- `send` panics only on a running client whose channel is nil. -/
theorem send_panic {s : Sys} {reqs : List JRequest} {me : Option String} {se : Option Err}
    (h : s.send reqs me se = .panic) : s.c.err = none ∧ s.c.ch = false := by
  unfold Sys.send at h
  by_cases hne : reqs = []
  · simp [hne] at h
  cases he : s.c.err with
  | some e => simp [hne, he] at h
  | none =>
    refine ⟨rfl, ?_⟩
    cases hch : s.c.ch
    · rfl
    · cases hd : s.c.duplicate reqs <;> cases me <;> cases se <;> simp [hne, he, hd, hch] at h

/-- **`req`** either drops the caller's batch, or allocates the ID `formatInt nextID`, advances the
    `int64` counter, and appends the request to the batch. -/
theorem reqStep_cases (s : Sys) (pre post : List (List JRequest)) (d : List JRequest) (m : String)
    (bits : Except Err String) :
    s.reqStep pre d post m bits = { s with drafts := pre ++ post } ∨
    ∃ P, s.reqStep pre d post m bits =
      { s with c := { s.c with nextID := int64Wrap (s.c.nextID + 1) },
               drafts := pre ++ (d ++ [⟨Version, formatInt s.c.nextID, m, P⟩]) :: post,
               allocated := s.allocated ++ [formatInt s.c.nextID] } := by
  cases bits with
  | error e => exact .inl rfl
  | ok P => exact .inr ⟨P, rfl⟩

/-- **`note`** either drops the caller's batch or appends a request without an ID. -/
theorem noteStep_cases (s : Sys) (pre post : List (List JRequest)) (d : List JRequest) (m : String)
    (bits : Except Err String) :
    s.noteStep pre d post m bits = { s with drafts := pre ++ post } ∨
    ∃ P, s.noteStep pre d post m bits =
      { s with drafts := pre ++ (d ++ [⟨Version, "", m, P⟩]) :: post } := by
  cases bits with
  | error e => exact .inl rfl
  | ok P => exact .inr ⟨P, rfl⟩

/-- The deferred `rpc.cancel` finishes the watcher and adds at most a batch without IDs. -/
theorem cleanup_cases (s : Sys) (h : Nat) (bits : Except Err String) :
    s.cleanup h bits = s.setWatch h .done ∨
    ∃ P, s.cleanup h bits = { s.setWatch h .done with
      drafts := s.drafts ++ [[⟨Version, "", "rpc.cancel", P⟩]] } := by
  cases bits with
  | error e => exact .inl rfl
  | ok P => exact .inr ⟨P, rfl⟩

/-- The cancel loop of `stop` cancels exactly the handles it runs over. -/
theorem getElem?_cancelAll (es : List (Σ _ : String, Nat)) :
    ∀ (rsps : List Response) (h : Nat),
      (cancelAll rsps es)[h]? = rsps[h]?.map fun p => if h ∈ es.map (·.2) then p.cancel else p := by
  induction es with
  | nil => intro rsps h; simp [cancelAll]
  | cons e es ih =>
    intro rsps h
    rw [cancelAll, List.foldl_cons, ← cancelAll, ih, List.getElem?_modify]
    cases rsps[h]? with
    | none => rfl
    | some p =>
      by_cases he : e.2 = h
      · simp [he, Response.cancel]
      · have hm : h ∈ (e :: es).map (·.2) ↔ h ∈ es.map (·.2) := by
          rw [List.map_cons, List.mem_cons]; exact or_iff_right (Ne.symm he)
        simp only [hm]; simp [he]

end Jrpc2
