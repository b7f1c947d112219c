/-
  File:      Jrpc2/Client/Answers.lean
  Subject:   Against a server that answers each request it received at most once, with the
             request's ID and a valid version marker, `deliver` discards an answer as an unknown
             ID only when its request's `*Response` already received a value.

  * `Tagged s x` -- reply `x` answers the `k`-th request with an ID on the wire and carries that
    request's ID; `ServerAnswers` -- the peer sends only such replies, with the version marker,
    answering each request at most once;
  * `AnsInv` -- every reply in the inbox or held by the reader is tagged; it holds on every state
    reachable against the server (`ansInv_reach`);
  * **`answer_delivered`** -- when `accept` reaches an answer, the answered request has its
    `*Response` (registered by `send` under `c.mu` before the request went out), and the answer's
    ID is pending at that handle unless that `*Response` already received a value;
  * `answer_lost_after_wrap` -- the bound is needed: once the counter has come round, a stale
    watcher takes the entry of a later request with the same ID, whose answer is then discarded
    though its `*Response` received nothing.
-/
import Jrpc2.Client.Once

namespace Jrpc2

variable {fixID : String → String}

/-! ## 1. The server -/

/-- Reply `x` answers the `k`-th request with an ID on the wire, and carries that request's ID. -/
def Tagged (s : Sys) (x : Reply) : Prop :=
  ∃ k, x.answers = some k ∧ (batchIDs s.wire.flatten)[k]? = some x.rsp.ID

/-- The peer is a server: each reply answers a request it received, with the request's ID and a
    valid version marker, and no request is answered twice. -/
def ServerAnswers (s : Sys) (f : List Reply) : Prop :=
  (∀ x ∈ f, x.rsp.V = Version ∧ Tagged s x) ∧ (s.answered ++ f.filterMap (·.answers)).Nodup

theorem Tagged.mono {s t : Sys} {x : Reply} (hw : s.wire.IsPrefix t.wire) (hx : Tagged s x) :
    Tagged t x := by
  obtain ⟨k, hk, hi⟩ := hx
  obtain ⟨l, hl⟩ := hw
  refine ⟨k, hk, ?_⟩
  rw [← hl, List.flatten_append, batchIDs_append,
    List.getElem?_append_left (List.getElem?_eq_some_iff.mp hi).1]
  exact hi

/-- The server's answer to the first request, whose ID is `1`. -/
theorem serverAnswers_first (s : Sys) (hw : s.wire = [[⟨Version, formatInt 1, "m", "[]"⟩]])
    (ha : s.answered = []) :
    ServerAnswers s [⟨{ V := Version, ID := formatInt 1, R := "true" }, some 0⟩] := by
  refine ⟨fun x hx => ?_, by rw [ha]; decide⟩
  rw [List.mem_singleton] at hx
  subst hx
  exact ⟨rfl, 0, rfl, by rw [hw]; rfl⟩

/-! ## 2. Every reply in flight is tagged -/

/-- Every reply in the inbox or held by the reader is tagged. -/
structure AnsInv (s : Sys) : Prop where
  inbox : ∀ f ∈ s.inbox, ∀ x ∈ f, Tagged s x
  holding : ∀ f, s.reader = .holding f → ∀ x ∈ f, Tagged s x

section AnsInv

variable {s t : Sys}

theorem AnsInv.mono (hA : AnsInv s) (hw : s.wire.IsPrefix t.wire) (hi : t.inbox = s.inbox)
    (hr : t.reader = s.reader) : AnsInv t :=
  ⟨fun f hf x hx => (hA.inbox f (hi ▸ hf) x hx).mono hw,
    fun f hf x hx => (hA.holding f (hr ▸ hf) x hx).mono hw⟩

/-- The reader stops holding a frame; the inbox and the wire stay. -/
theorem AnsInv.release (hA : AnsInv s) (hw : t.wire = s.wire) (hi : t.inbox = s.inbox)
    (hr : ∀ f, t.reader ≠ .holding f) : AnsInv t :=
  ⟨fun f hf x hx => (hA.inbox f (hi ▸ hf) x hx).mono (hw ▸ List.prefix_refl _),
    fun f hf => absurd hf (hr f)⟩

theorem AnsInv.step (hA : AnsInv s) (h : Step fixID ServerAnswers s t) : AnsInv t := by
  cases h with
  | begin => exact hA.mono (List.prefix_refl _) rfl rfl
  | req pre post d m bits =>
    rcases reqStep_cases s pre post d m bits with e | ⟨P, e⟩ <;> rw [e] <;>
      exact hA.mono (List.prefix_refl _) rfl rfl
  | note pre post d m bits =>
    rcases noteStep_cases s pre post d m bits with e | ⟨P, e⟩ <;> rw [e] <;>
      exact hA.mono (List.prefix_refl _) rfl rfl
  | send _ pre post d _ _ _ hd ht =>
    obtain ⟨-, -, -, -, -, -, ht⟩ := send_ok ht
    rw [register_eq, Prod.mk.injEq] at ht
    obtain ⟨rfl, -⟩ := ht
    exact hA.mono (List.prefix_append _ _) rfl rfl
  | sendFail => exact hA.mono (List.prefix_refl _) rfl rfl
  | arrive f hp =>
    refine ⟨fun g hg x hx => ?_, hA.holding⟩
    rcases List.mem_append.mp hg with hg | hg
    · exact hA.inbox g hg x hx
    · rw [List.mem_singleton] at hg
      subst hg
      exact (hp.1 x hx).2
  | recv f rest _ hi =>
    refine ⟨fun g hg x hx => hA.inbox g (hi ▸ List.mem_cons_of_mem f hg) x hx, fun g hg x hx => ?_⟩
    cases hg
    exact hA.inbox f (hi ▸ List.mem_cons_self f rest) x hx
  | accept u f _ ht =>
    exact hA.release (frame_deliverAll ht).wire (frame_deliverAll ht).inbox fun _ h => by cases h
  | recvFail e => exact hA.release (frame_stop e).wire (frame_stop e).inbox fun _ h => by cases h
  | waitComplete _ _ _ _ _ _ ht =>
    exact hA.mono ((frame_waitComplete ht).wire ▸ List.prefix_refl _) (frame_waitComplete ht).inbox
      (frame_waitComplete ht).reader
  | cleanup h _ bits =>
    rcases cleanup_cases s h bits with e | ⟨P, e⟩ <;> rw [e] <;>
      exact hA.mono (List.prefix_refl _) rfl rfl
  | close =>
    exact hA.mono ((frame_stop _).wire ▸ List.prefix_refl _) (frame_stop _).inbox
      (frame_stop _).reader
  | take => exact hA.mono (List.prefix_refl _) rfl rfl

end AnsInv

theorem ansInv_reach {s : Sys} (hr : Reach fixID ServerAnswers s) : AnsInv s := by
  induction hr with
  | init => exact ⟨fun _ h => (by cases h), fun _ h => (by cases h)⟩
  | step _ h ih => exact ih.step h

/-! ## 3. No answer is lost -/

/-- **No answer is lost**, on every state reachable against the server whose run handed out at
    most `2^64` IDs, when `fixID` keeps the IDs the client makes: when the reader's `accept`,
    having delivered the replies before it, reaches an answer to the `k`-th request, that request's
    `*Response` exists and carries the answer's ID, and the ID is pending at handle `k` unless
    that `*Response` already received a value (an earlier reply for the ID, or its context's end);
    so `deliver` discards it as an unknown ID only then. -/
theorem answer_delivered {s t : Sys} (hr : Reach fixID ServerAnswers s)
    (hb : s.allocated.length ≤ 2 ^ 64) (hfix : ∀ n : Int, fixID (formatInt n) = formatInt n)
    {f₁ f₂ : List Reply} {x : Reply} (hh : s.reader = .holding (f₁ ++ x :: f₂))
    (ht : s.deliverAll fixID (f₁.map (·.rsp)) = some t) :
    ∃ k p, x.answers = some k ∧ t.rsps[k]? = some p ∧ p.id = x.rsp.ID ∧
      t.c.pending.lookup (fixID x.rsp.ID) = if p.sent = [] then some k else none := by
  have hI := idInv_reach hr hb
  obtain ⟨k, hk, hid⟩ := (ansInv_reach hr).holding _ hh x (List.mem_append_right _ (.head _))
  have hf := frame_deliverAll ht
  have hIt : IdInv t := hI.quiet (Quiet.of_calm (calm_deliverAll ht) hf)
  have hkt : (t.rsps.map Response.id)[k]? = some x.rsp.ID := by rw [hIt.ids, hf.wire]; exact hid
  rw [List.getElem?_map] at hkt
  obtain ⟨p, hp, hpid⟩ := Option.map_eq_some'.mp hkt
  have hmem : x.rsp.ID ∈ allocList s.allocated.length := by
    rw [← hI.alloc]
    refine hI.used _ ?_
    rw [batchIDs_append]
    exact List.mem_append_right _ (List.mem_iff_getElem?.mpr ⟨k, hid⟩)
  obtain ⟨j, -, hj⟩ := List.mem_map.mp hmem
  refine ⟨k, p, hk, hp, hpid, ?_⟩
  rw [← hj, hfix, hj, ← hpid]
  exact (chanInv_reach hr hb).deliverAll hI ht |>.lookup_eq hIt hp

/-- The first request's answer, held by the reader, finds the request pending at handle `0`. -/
theorem first_answer_delivered :
    ∃ s x, Reach id ServerAnswers s ∧ s.reader = .holding [x] ∧ x.answers = some 0 ∧
      s.c.pending.lookup x.rsp.ID = some 0 := by
  have hr : Reach id ServerAnswers _ :=
    (((((Reach.init false false).step (.begin _)).step (.req _ [] [] [] "m" (.ok "[]") rfl)).step
      (.send _ _ [] [] [⟨Version, formatInt 1, "m", "[]"⟩] none none [0] rfl rfl)).step
      (.arrive _ _ (serverAnswers_first _ rfl rfl))).step (.recv _ _ [] rfl rfl)
  obtain ⟨k, p, hk, hp, -, hl⟩ :=
    @answer_delivered id _ _ hr (by decide) (fun _ => rfl) [] [] _ rfl rfl
  cases hk
  cases hp
  exact ⟨_, _, hr, rfl, rfl, hl⟩

/-- Past `2^64` IDs an answer is lost: in the run of `wrap_run` the server answers the second
    request with its ID `1`, which the stale watcher has taken out of `c.pending`, while that
    request's `*Response` has received nothing. -/
theorem answer_lost_after_wrap :
    ∃ s t x, Reach id ServerAnswers s ∧ s.allocated.length = 2 ^ 64 + 1 ∧
      s.reader = .holding [x] ∧ s.deliverAll id [] = some t ∧ x.answers = some 1 ∧
      t.c.pending.lookup x.rsp.ID = none ∧ t.rsps[1]? = some (Response.fresh x.rsp.ID) := by
  obtain ⟨s, hr, hlen, hw, ha, hrd, hi, hl, -, h1⟩ := wrap_run serverAnswers_first
  let x : Reply := ⟨{ V := Version, ID := formatInt 1, R := "true" }, some 1⟩
  have hs : ServerAnswers s [x] := by
    refine ⟨fun y hy => ?_, by rw [ha]; decide⟩
    rw [List.mem_singleton] at hy
    subst hy
    exact ⟨rfl, 1, rfl, by rw [hw]; rfl⟩
  have hr' := (hr.step (.arrive _ _ hs)).step (.recv _ [x] [] hrd (by simp [Sys.arrive, hi]))
  exact ⟨_, _, _, hr', hlen, rfl, rfl, rfl, hl, h1⟩

end Jrpc2
