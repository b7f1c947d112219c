/-
  File:      Jrpc2/Client/Batch.lean
  Subject:   `send` and `Batch` from the caller's side: how each ends, what a failure leaves
             behind, and the params `marshalParams` lets through.

  * `paramsOK_render` -- the first-byte test of `marshalParams` accepts exactly the encodings of
    arrays, objects and `null` among everything `json.Marshal` emits;
  * `build_frame`, `build_ok`, `build_error` -- the request loop of `Batch` changes only the
    counter and the IDs handed out; it builds one request per spec, or stops at the first spec
    whose params fail;
  * **`send_outcome`** -- on every reachable state `send` fails (for one of its five reasons) or
    transmits the batch as one frame and registers exactly its IDs at new handles, in batch order;
    `Batch` fails with nothing registered, or returns one handle per call, in order, each
    carrying the ID handed out for that call;
  * **`batch_params`** -- under the default `EncodeContext`, a `Batch` whose params fail to encode,
    or encode to a scalar, fails before anything is sent, and every request it sends has params
    absent, `null`, an array or an object.
-/
import Jrpc2.Client.Stop

namespace Jrpc2

variable {fixID : String → String} {peer : Sys → List Reply → Prop}

/-! ## 1. The params test -/

theorem paramsOK_of_data {s : String} {c : Char} {cs : List Char} (h : s.data = c :: cs) :
    paramsOK s = (c = '[' || c = '\x7b' || s = "null") := by
  unfold paramsOK; rw [h]

theorem ne_null_of_data {s : String} {c : Char} {cs : List Char} (h : s.data = c :: cs)
    (hc : c ≠ 'n') : s ≠ "null" := by
  rintro rfl; exact hc (List.cons.inj h).1.symm

/-- **The first-byte test is exact**: among the encodings `json.Marshal` emits, `marshalParams`
    accepts those of arrays, objects and `null`, and no other. -/
theorem paramsOK_render (j : Json) : paramsOK j.render = j.isStructured := by
  cases j with
  | null => rfl
  | bool b => cases b <;> rfl
  | number n =>
    obtain ⟨c, cs, h, hc⟩ := n.head
    have hne : c ≠ '[' ∧ c ≠ '\x7b' ∧ c ≠ 'n' := by
      rcases hc with rfl | hc
      · decide
      · refine ⟨?_, ?_, ?_⟩ <;> rintro rfl <;> exact absurd hc (by decide)
    show paramsOK n.text = false
    simp [paramsOK_of_data h, hne.1, hne.2.1, ne_null_of_data h hne.2.2]
  | string s =>
    show paramsOK (quote s) = false
    simp [paramsOK_of_data (quote_data s), ne_null_of_data (quote_data s) (by decide)]
  | array xs => rw [paramsOK_of_data (render_array xs)]; rfl
  | object kvs => rw [paramsOK_of_data (render_object kvs)]; rfl

/-- `marshalParams` under the default `EncodeContext`. -/
theorem marshalParams_identity {α : Type} (marshal : α → Except Err Json) (m : String) (v : α) :
    marshalParams identityEncoder marshal m (some v) =
      (marshal v).bind fun j => if j.isStructured then .ok j.render
        else .error (.rpc .invalidRequest "invalid parameters: array or object required") := by
  simp only [marshalParams]
  cases marshal v with
  | error e => rfl
  | ok j => simp only [paramsOK_render]; rfl

/-! ## 2. The request loop of `Batch` -/

section Build

variable {α : Type} (enctx : String → String → Except Err String) (marshal : α → Except Err Json)

/-- The loop on a call: `req` hands out the next ID. -/
theorem build_call (s : Sys) (sp : Spec α) (rest : List (Spec α)) {P : String}
    (hb : marshalParams enctx marshal sp.method sp.params = .ok P) (hn : sp.notify = false) :
    s.build enctx marshal (sp :: rest) =
      let t : Sys := { s with c := { s.c with nextID := int64Wrap (s.c.nextID + 1) },
                              allocated := s.allocated ++ [formatInt s.c.nextID] }
      ((t.build enctx marshal rest).1,
        (t.build enctx marshal rest).2.map (⟨Version, formatInt s.c.nextID, sp.method, P⟩ :: ·)) := by
  simp [Sys.build, hb, hn, Client.req, Except.map]

/-- The loop on a notification: `note` builds a request without an ID. -/
theorem build_note (s : Sys) (sp : Spec α) (rest : List (Spec α)) {P : String}
    (hb : marshalParams enctx marshal sp.method sp.params = .ok P) (hn : sp.notify = true) :
    s.build enctx marshal (sp :: rest) =
      ((s.build enctx marshal rest).1,
        (s.build enctx marshal rest).2.map (⟨Version, "", sp.method, P⟩ :: ·)) := by
  simp [Sys.build, hb, hn, note, Except.map]

/-- The loop returns at a spec whose params fail. -/
theorem build_fail (s : Sys) (sp : Spec α) (rest : List (Spec α)) {e : Err}
    (hb : marshalParams enctx marshal sp.method sp.params = .error e) :
    s.build enctx marshal (sp :: rest) = (s, .error e) := by
  cases hn : sp.notify <;> simp [Sys.build, hb, hn, note, Client.req, Except.map]

/-- The loop changes only the counter and the IDs handed out. -/
theorem build_frame : ∀ (s : Sys) (specs : List (Spec α)), ∃ n A,
    (s.build enctx marshal specs).1 = { s with c := { s.c with nextID := n }, allocated := A }
  | s, [] => ⟨s.c.nextID, s.allocated, rfl⟩
  | s, sp :: rest => by
    cases hb : marshalParams enctx marshal sp.method sp.params with
    | error e => exact ⟨s.c.nextID, s.allocated, by rw [build_fail _ _ _ _ _ hb]⟩
    | ok P =>
      cases hn : sp.notify
      · rw [build_call _ _ _ _ _ hb hn]
        exact build_frame _ rest
      · rw [build_note _ _ _ _ _ hb hn]
        exact build_frame _ rest

/-- A request the loop built for a spec: its method, an ID exactly when it is a call, and the
    params `marshalParams` made. -/
def Built (sp : Spec α) (r : JRequest) : Prop :=
  r.M = sp.method ∧ (r.ID = "" ↔ sp.notify = true) ∧
    marshalParams enctx marshal sp.method sp.params = .ok r.P

theorem map_cons_eq_ok {r : JRequest} {x : Except Err (List JRequest)} {reqs : List JRequest}
    (h : x.map (r :: ·) = .ok reqs) : ∃ reqs', x = .ok reqs' ∧ reqs = r :: reqs' := by
  cases x with
  | error e => cases h
  | ok reqs' => cases h; exact ⟨reqs', rfl, rfl⟩

/-- A loop that ends well built one request per spec, in order, and the IDs it handed out are
    those of the calls. -/
theorem build_ok : ∀ (s : Sys) (specs : List (Spec α)) (reqs : List JRequest),
    (s.build enctx marshal specs).2 = .ok reqs →
    List.Forall₂ (Built enctx marshal) specs reqs ∧
      (s.build enctx marshal specs).1.allocated = s.allocated ++ batchIDs reqs
  | s, [], reqs, h => by cases h; simp [Sys.build]
  | s, sp :: rest, reqs, h => by
    cases hb : marshalParams enctx marshal sp.method sp.params with
    | error e => rw [build_fail _ _ _ _ _ hb] at h; cases h
    | ok P =>
      cases hn : sp.notify
      · rw [build_call _ _ _ _ _ hb hn] at h ⊢
        obtain ⟨reqs', hr, rfl⟩ := map_cons_eq_ok h
        obtain ⟨hf, ha⟩ := build_ok _ rest reqs' hr
        refine ⟨.cons ⟨rfl, by simp [formatInt_ne_empty, hn], hb⟩ hf, ?_⟩
        simp [ha, JRequest.pendingID, formatInt_ne_empty]
      · rw [build_note _ _ _ _ _ hb hn] at h ⊢
        obtain ⟨reqs', hr, rfl⟩ := map_cons_eq_ok h
        obtain ⟨hf, ha⟩ := build_ok _ rest reqs' hr
        exact ⟨.cons ⟨rfl, by simp [hn], hb⟩ hf, by simp [ha, JRequest.pendingID]⟩

/-- The loop stops at the first spec whose params fail, with that error. -/
theorem build_error {e : Err} {sp : Spec α} (post : List (Spec α))
    (hsp : marshalParams enctx marshal sp.method sp.params = .error e) (pre : List (Spec α))
    (hpre : ∀ q ∈ pre, ∃ P, marshalParams enctx marshal q.method q.params = .ok P) (s : Sys) :
    (s.build enctx marshal (pre ++ sp :: post)).2 = .error e := by
  induction pre generalizing s with
  | nil => rw [List.nil_append, build_fail _ _ _ _ _ hsp]
  | cons q pre ih =>
    obtain ⟨P, hq⟩ := hpre q (.head _)
    have ih' := ih fun q' h => hpre q' (.tail _ h)
    cases hn : q.notify
    · rw [List.cons_append, build_call _ _ _ _ _ hq hn]
      simp only [ih']
      rfl
    · rw [List.cons_append, build_note _ _ _ _ _ hq hn]
      simp only [ih']
      rfl

end Build

/-- What the default `EncodeContext` lets through: no params, or an array, an object or `null`. -/
theorem identity_ok {α : Type} {marshal : α → Except Err Json} {m P : String} {p : Option α}
    (h : marshalParams identityEncoder marshal m p = .ok P) :
    P = "" ∨ ∃ j : Json, j.isStructured ∧ P = j.render := by
  cases p with
  | none => cases h; exact .inl rfl
  | some v =>
    rw [marshalParams_identity] at h
    cases hv : marshal v with
    | error e => rw [hv] at h; cases h
    | ok j =>
      rw [hv] at h
      by_cases hj : j.isStructured
      · simp only [Except.bind, hj, if_true] at h
        cases h
        exact .inr ⟨j, hj, rfl⟩
      · simp only [Except.bind, hj] at h
        cases h

/-! ## 3. How `send` and `Batch` end -/

/-- **Why `send` fails**, tested in this order: an empty batch, a stopped client, an ID already
    pending, a marshaling error, a failed `Send`. -/
theorem send_error {s : Sys} {reqs : List JRequest} {me : Option String} {se : Option Err} {e : Err}
    (h : s.send reqs me se = .error e) :
    (reqs = [] ∧ e = .msg "empty request batch") ∨ (reqs ≠ [] ∧ s.c.err = some e) ∨
    (reqs ≠ [] ∧ s.c.err = none ∧ ∃ r ∈ reqs, r.ID ≠ "" ∧ (s.c.pending.lookup r.ID).isSome ∧
      e = .msg ("duplicate request ID " ++ goQuote r.ID)) ∨
    (reqs ≠ [] ∧ s.c.err = none ∧ s.c.duplicate reqs = none ∧ ∃ m, me = some m ∧
      e = .msg ("marshaling request failed: " ++ m)) ∨
    (reqs ≠ [] ∧ s.c.err = none ∧ s.c.duplicate reqs = none ∧ me = none ∧ se = some e) := by
  unfold Sys.send at h
  by_cases hne : reqs = []
  · simp only [hne, if_true] at h
    cases h
    exact .inl ⟨hne, rfl⟩
  simp only [hne, if_false] at h
  cases he : s.c.err with
  | some e' => rw [he] at h; cases h; exact .inr (.inl ⟨hne, rfl⟩)
  | none =>
    rw [he] at h
    cases hd : s.c.duplicate reqs with
    | some r =>
      rw [hd] at h
      cases h
      have hp := List.find?_some hd
      simp only [bne_iff_ne, ne_eq, Bool.and_eq_true, decide_eq_true_eq] at hp
      exact .inr (.inr (.inl ⟨hne, rfl, r, List.mem_of_find?_eq_some hd, hp.1, hp.2, rfl⟩))
    | none =>
      rw [hd] at h
      cases me with
      | some m => cases h; exact .inr (.inr (.inr (.inl ⟨hne, rfl, rfl, m, rfl, rfl⟩)))
      | none =>
        cases hch : s.c.ch <;> cases se <;> simp [hch] at h
        subst h
        exact .inr (.inr (.inr (.inr ⟨hne, rfl, rfl, rfl, rfl⟩)))

/-- `Batch` is its request loop, then `send` on the state after the loop. -/
theorem batch_cases {α : Type} {enctx : String → String → Except Err String}
    {marshal : α → Except Err Json} {s u : Sys} {specs : List (Spec α)} {me : Option String}
    {se : Option Err} {ret : Ret (List Nat)} (h : s.batch enctx marshal specs me se = (u, ret)) :
    (∃ e, (s.build enctx marshal specs).2 = .error e ∧ u = (s.build enctx marshal specs).1 ∧
      ret = .error e) ∨
    ∃ reqs, (s.build enctx marshal specs).2 = .ok reqs ∧
      ((∃ hs, (s.build enctx marshal specs).1.send reqs me se = .ok (u, hs) ∧ ret = .ok hs) ∨
       (∃ e, (s.build enctx marshal specs).1.send reqs me se = .error e ∧
          u = (s.build enctx marshal specs).1 ∧ ret = .error e) ∨
       ((s.build enctx marshal specs).1.send reqs me se = .panic ∧
          u = (s.build enctx marshal specs).1 ∧ ret = .panic)) := by
  unfold Sys.batch at h
  generalize s.build enctx marshal specs = b at h ⊢
  obtain ⟨t, _ | reqs⟩ := b
  · cases h; exact .inl ⟨_, rfl, rfl, rfl⟩
  · refine .inr ⟨reqs, rfl, ?_⟩
    simp only at h
    generalize t.send reqs me se = r at h ⊢
    cases r with
    | ok p => obtain ⟨u', hs⟩ := p; cases h; exact .inl ⟨hs, rfl, rfl⟩
    | error e => cases h; exact .inr (.inl ⟨e, rfl, rfl, rfl⟩)
    | panic => cases h; exact .inr (.inr ⟨rfl, rfl, rfl⟩)

/-- The handles `send` returns carry the batch's IDs, in order. -/
theorem handle_ids : ∀ (l : List Response) (B : List String),
    (List.range' l.length B.length).map (fun h => (l ++ B.map Response.fresh)[h]?.map Response.id) =
      B.map some
  | l, [] => rfl
  | l, b :: B => by
    have := handle_ids (l ++ [Response.fresh b]) B
    simp only [List.length_append, List.length_singleton, List.append_assoc,
      List.singleton_append] at this
    simp only [List.length_cons, List.range'_succ, List.map_cons, List.map_cons, this,
      List.getElem?_append_right (le_refl _), Nat.sub_self]
    simp [Response.fresh]

/-- **How `send` and `Batch` end**, on every reachable state. `send` fails, for one of its five
    reasons and with the state unchanged, or it transmits the whole batch as one frame, extends
    `c.pending` by exactly the batch's IDs, keeps every entry it had, and returns new
    `*Response`s for those IDs, in batch order. `Batch` fails with nothing registered and nothing
    sent, or returns one handle per call, each carrying the ID handed out for that call, the
    calls and notifications sent in spec order as one frame. -/
theorem send_outcome {s : Sys} (hr : Reach fixID peer s) :
    (∀ reqs me se,
      (∃ e, s.send reqs me se = .error e ∧
        ((reqs = [] ∧ e = .msg "empty request batch") ∨ (reqs ≠ [] ∧ s.c.err = some e) ∨
         (reqs ≠ [] ∧ s.c.err = none ∧ ∃ r ∈ reqs, r.ID ≠ "" ∧ (s.c.pending.lookup r.ID).isSome ∧
            e = .msg ("duplicate request ID " ++ goQuote r.ID)) ∨
         (reqs ≠ [] ∧ s.c.err = none ∧ s.c.duplicate reqs = none ∧ ∃ m, me = some m ∧
            e = .msg ("marshaling request failed: " ++ m)) ∨
         (reqs ≠ [] ∧ s.c.err = none ∧ s.c.duplicate reqs = none ∧ me = none ∧ se = some e))) ∨
      (∃ t hs, s.send reqs me se = .ok (t, hs) ∧ t.wire = s.wire ++ [reqs] ∧
        (∀ id, (t.c.pending.lookup id).isSome ↔
          (s.c.pending.lookup id).isSome ∨ id ∈ batchIDs reqs) ∧
        (∀ id h, s.c.pending.lookup id = some h → t.c.pending.lookup id = some h) ∧
        t.rsps = s.rsps ++ (batchIDs reqs).map Response.fresh ∧
        hs = List.range' s.rsps.length (batchIDs reqs).length)) ∧
    (∀ {α : Type} (enctx : String → String → Except Err String) (marshal : α → Except Err Json)
      (specs : List (Spec α)) me se u ret, s.batch enctx marshal specs me se = (u, ret) →
      ((∃ e, ret = .error e) ∧ u.c.pending = s.c.pending ∧ u.rsps = s.rsps ∧ u.wire = s.wire) ∨
      (∃ hs reqs, ret = .ok hs ∧
        List.Forall₂ (fun sp r => r.M = sp.method ∧ (r.ID = "" ↔ sp.notify = true)) specs reqs ∧
        u.wire = s.wire ++ [reqs] ∧ u.allocated = s.allocated ++ batchIDs reqs ∧
        hs.map (fun h => u.rsps[h]?.map Response.id) = (batchIDs reqs).map some)) := by
  have hI := stopInv_reach hr
  refine ⟨fun reqs me se => ?_, fun enctx marshal specs me se u ret h => ?_⟩
  · generalize hsend : s.send reqs me se = r
    cases r with
    | error e => exact .inl ⟨e, rfl, send_error hsend⟩
    | panic =>
      obtain ⟨he, hch⟩ := send_panic hsend
      rw [hI.ch, he] at hch
      cases hch
    | ok p =>
      obtain ⟨t, hs⟩ := p
      obtain ⟨-, -, hd, -, -, -, ht⟩ := send_ok hsend
      rw [register_eq, Prod.mk.injEq] at ht
      obtain ⟨rfl, rfl⟩ := ht
      refine .inr ⟨_, _, rfl, rfl, fun id => lookup_insertAll_isSome.trans or_comm, fun id h hl => ?_,
        rfl, rfl⟩
      exact (lookup_insertAll_of_not_mem fun hm => by
        simp [duplicate_eq_none.mp hd id hm] at hl).trans hl
  · obtain ⟨n, A, hb⟩ := build_frame enctx marshal s specs
    rcases batch_cases h with ⟨e, -, rfl, rfl⟩ | ⟨reqs, hreqs, ⟨hs, hsend, rfl⟩ | ⟨e, -, rfl, rfl⟩ | ⟨hp, -, -⟩⟩
    · exact .inl ⟨⟨e, rfl⟩, by rw [hb], by rw [hb], by rw [hb]⟩
    · obtain ⟨hf, ha⟩ := build_ok enctx marshal s specs reqs hreqs
      obtain ⟨-, -, -, -, -, -, ht⟩ := send_ok hsend
      rw [register_eq, Prod.mk.injEq] at ht
      obtain ⟨rfl, rfl⟩ := ht
      refine .inr ⟨_, reqs, rfl, hf.imp fun _ _ h => ⟨h.1, h.2.1⟩, by rw [hb], ha, ?_⟩
      have hr : (s.build enctx marshal specs).1.rsps = s.rsps := by rw [hb]
      simp only [hr]
      exact handle_ids _ _
    · exact .inl ⟨⟨e, rfl⟩, by rw [hb], by rw [hb], by rw [hb]⟩
    · obtain ⟨he, hch⟩ := send_panic hp
      rw [hb] at he hch
      rw [hI.ch, he] at hch
      cases hch

/-- A run with a pending request -- `begin`, a `req` and its `send` -- and then a `Batch` of one
    call: it sends the call, and its handle is the object of the call's ID. -/
theorem send_outcome_init :
    ∃ s hs reqs, Reach id (fun _ _ => True) s ∧ (s.c.pending.lookup (formatInt 1)).isSome ∧
      (s.batch identityEncoder (fun _ : Unit => .ok .null) [⟨"n", none, false⟩] none none).2 =
        .ok hs ∧
      List.Forall₂ (fun (sp : Spec Unit) r => r.M = sp.method ∧ (r.ID = "" ↔ sp.notify = true))
        [⟨"n", none, false⟩] reqs ∧
      (s.batch identityEncoder (fun _ : Unit => .ok .null) [⟨"n", none, false⟩] none none).1.wire =
        s.wire ++ [reqs] ∧
      hs.map (fun h => (s.batch identityEncoder (fun _ : Unit => .ok .null) [⟨"n", none, false⟩]
        none none).1.rsps[h]?.map Response.id) = (batchIDs reqs).map some := by
  have hr : Reach id (fun _ _ => True) _ :=
    (((Reach.init false true).step (.begin _)).step (.req _ [] [] [] "m" (.ok "[]") rfl)).step
      (.send _ _ [] [] [⟨Version, formatInt 1, "m", "[]"⟩] none none [0] rfl rfl)
  rcases (send_outcome hr).2 identityEncoder (fun _ : Unit => .ok .null) [⟨"n", none, false⟩]
    none none _ _ rfl with ⟨⟨e, he⟩, -⟩ | ⟨hs, reqs, hret, hf, hw, -, hids⟩
  · cases he
  · exact ⟨_, hs, reqs, hr, rfl, hret, hf, hw, hids⟩

/-! ## 4. The params `Batch` sends -/

/-- **The params `Batch` sends**, under the default `EncodeContext`. The first-byte test of
    `marshalParams` accepts exactly the encodings of arrays, objects and `null`. If a spec's
    params fail to encode, or encode to anything else, and every spec before it is fine, `Batch`
    returns that error (`InvalidRequest` for a scalar) with nothing sent and nothing registered.
    And every request `Batch` sends has params absent, `null`, an array or an object. -/
theorem batch_params {α : Type} (marshal : α → Except Err Json) (s : Sys) (specs : List (Spec α))
    (me : Option String) (se : Option Err) :
    (∀ j : Json, paramsOK j.render = j.isStructured) ∧
    (∀ pre sp post v e, specs = pre ++ sp :: post →
      (∀ q ∈ pre, ∀ w, q.params = some w → ∃ j, marshal w = .ok j ∧ j.isStructured = true) →
      sp.params = some v →
      (marshal v = .error e ∨ ∃ j, marshal v = .ok j ∧ j.isStructured = false ∧
        e = .rpc .invalidRequest "invalid parameters: array or object required") →
      (s.batch identityEncoder marshal specs me se).2 = .error e ∧
      (s.batch identityEncoder marshal specs me se).1.wire = s.wire ∧
      (s.batch identityEncoder marshal specs me se).1.c.pending = s.c.pending) ∧
    ((s.batch identityEncoder marshal specs me se).1.wire = s.wire ∨
      ∃ reqs, (s.batch identityEncoder marshal specs me se).1.wire = s.wire ++ [reqs] ∧
        ∀ r ∈ reqs, r.P = "" ∨ ∃ j : Json, j.isStructured ∧ r.P = j.render) := by
  obtain ⟨n, A, hb⟩ := build_frame identityEncoder marshal s specs
  refine ⟨paramsOK_render, fun pre sp post v e hs hpre hv hfail => ?_, ?_⟩
  · have hsp : marshalParams identityEncoder marshal sp.method sp.params = .error e := by
      rw [hv, marshalParams_identity]
      rcases hfail with hm | ⟨j, hm, hj, rfl⟩
      · simp [hm, Except.bind]
      · simp [hm, Except.bind, hj]
    have hpre' : ∀ q ∈ pre, ∃ P, marshalParams identityEncoder marshal q.method q.params = .ok P := by
      intro q hq
      cases hqp : q.params with
      | none => exact ⟨"", rfl⟩
      | some w =>
        obtain ⟨j, hm, hj⟩ := hpre q hq w hqp
        exact ⟨j.render, by simp [marshalParams_identity, hm, Except.bind, hj]⟩
    have he := build_error identityEncoder marshal post hsp pre hpre' s
    rw [← hs] at he
    unfold Sys.batch
    generalize s.build identityEncoder marshal specs = b at he hb
    obtain ⟨t, r⟩ := b
    cases he
    exact ⟨rfl, by rw [hb], by rw [hb]⟩
  · generalize hbat : s.batch identityEncoder marshal specs me se = p
    obtain ⟨u, ret⟩ := p
    rcases batch_cases hbat with ⟨e, -, rfl, -⟩ | ⟨reqs, hreqs, ⟨hs, hsend, -⟩ | ⟨e, -, rfl, -⟩ | ⟨-, rfl, -⟩⟩
    · exact .inl (by rw [hb])
    · obtain ⟨-, -, -, -, -, -, ht⟩ := send_ok hsend
      rw [register_eq, Prod.mk.injEq] at ht
      obtain ⟨rfl, -⟩ := ht
      refine .inr ⟨reqs, by rw [hb], ?_⟩
      have hf := (build_ok identityEncoder marshal s specs reqs hreqs).1
      clear hb hbat hsend hreqs
      induction hf with
      | nil => exact fun r hr => by cases hr
      | cons hbuilt _ ih =>
        intro r hr
        rcases List.mem_cons.mp hr with rfl | hr
        · exact identity_ok hbuilt.2.2
        · exact ih r hr
    · exact .inl (by rw [hb])
    · exact .inl (by rw [hb])

end Jrpc2
