/-
  File:      Jrpc2/Client/Wrap.lean
  Subject:   A run in which the `int64` counter comes round: `2^64 + 1` IDs handed out, and the
             ID `1` in flight a second time while the watcher of its first holder still waits.

  * `reach_burn`, `reach_burnMany` -- a caller whose `send` fails after its `req` uses up one ID
    and changes nothing else; `n` such callers move the counter `n` on;
  * `wrap_run` -- request `1` is sent, answered and received; `2^64 - 1` IDs are burnt; a second
    request gets the ID `1` again and is registered; then the first request's context ends and its
    watcher, finding `1` pending, takes the second request's entry and sends a second value on
    the first channel.

  The peer sends one frame in this run, the answer to the first request; `wrap_run` is stated for
  every peer that may send it.
-/
import Jrpc2.Client.System

namespace Jrpc2

variable {fixID : String → String} {peer : Sys → List Reply → Prop}

/-- A `send` told that marshaling failed returns an error, whatever the state. -/
theorem send_marshalErr (s : Sys) (r : JRequest) (rs : List JRequest) (m : String)
    (se : Option Err) : ∃ e, s.send (r :: rs) (some m) se = .error e := by
  cases he : s.c.err with
  | some e => exact ⟨e, by simp [Sys.send, he]⟩
  | none =>
    cases hd : s.c.duplicate (r :: rs) with
    | some x => exact ⟨.msg ("duplicate request ID " ++ goQuote x.ID), by simp [Sys.send, he, hd]⟩
    | none => exact ⟨.msg ("marshaling request failed: " ++ m), by simp [Sys.send, he, hd]⟩

/-- A caller whose `send` fails after its `req`: one ID is used up, nothing else changes. -/
theorem reach_burn {s : Sys} (hr : Reach fixID peer s) (hd : s.drafts = []) :
    Reach fixID peer { s with c := { s.c with nextID := int64Wrap (s.c.nextID + 1) }, drafts := [],
                              allocated := s.allocated ++ [formatInt s.c.nextID] } := by
  have h2 := (hr.step (.begin s)).step (.req _ [] [] [] "burn" (.ok "[]") (by simp [Sys.begin, hd]))
  obtain ⟨e, he⟩ := send_marshalErr { s.begin.reqStep [] [] [] "burn" (.ok "[]") with drafts := [] }
    ⟨Version, formatInt s.c.nextID, "burn", "[]"⟩ [] "" none
  exact h2.step (.sendFail _ [] [] _ (some "") none e rfl he)

/-- `n` callers whose `send` fails after their `req`: `n` IDs are used up. -/
theorem reach_burnMany {s : Sys} (hr : Reach fixID peer s) (hd : s.drafts = [])
    (hn : int64Wrap s.c.nextID = s.c.nextID) (n : Nat) :
    ∃ A : List String, A.length = n + s.allocated.length ∧
      Reach fixID peer { s with c := { s.c with nextID := int64Wrap (s.c.nextID + n) }, drafts := [],
                                allocated := A } := by
  induction n with
  | zero =>
    refine ⟨s.allocated, (Nat.zero_add _).symm, ?_⟩
    have : { s with c := { s.c with nextID := int64Wrap (s.c.nextID + ((0 : Nat) : Int)) },
                    drafts := [], allocated := s.allocated } = s := by
      cases s; simp_all
    rw [this]; exact hr
  | succ n ih =>
    obtain ⟨A, hA, h⟩ := ih
    refine ⟨A ++ [formatInt (int64Wrap (s.c.nextID + n))], by simp [hA]; omega, ?_⟩
    rw [Nat.cast_succ, ← add_assoc, ← int64Wrap_add_one]
    exact reach_burn h rfl

/-- **The counter comes round.** Request `1` is answered (the only frame the peer sends) and its
    value received; `2^64 - 1` IDs are burnt, so the next request gets the ID `1` again and is
    registered at handle `1`; then the context of request `1` ends: its watcher finds `1` pending,
    takes that entry (the second request's) out and sends a second value on the first channel. -/
theorem wrap_run (h₀ : ∀ s : Sys, s.wire = [[⟨Version, formatInt 1, "m", "[]"⟩]] → s.answered = [] →
      peer s [⟨{ V := Version, ID := formatInt 1, R := "true" }, some 0⟩]) :
    ∃ s, Reach id peer s ∧ s.allocated.length = 2 ^ 64 + 1 ∧
      s.wire = [[⟨Version, formatInt 1, "m", "[]"⟩], [⟨Version, formatInt 1, "m", "[]"⟩]] ∧
      s.answered = [0] ∧ s.reader = .idle ∧ s.inbox = [] ∧ s.c.pending.lookup (formatInt 1) = none ∧
      s.rsps[0]?.map (·.sent.length) = some 2 ∧ s.rsps[1]? = some (Response.fresh (formatInt 1)) := by
  have h3 : Reach id peer _ :=
    (((Reach.init false false).step (.begin _)).step (.req _ [] [] [] "m" (.ok "[]") rfl)).step
      (.send _ _ [] [] [⟨Version, formatInt 1, "m", "[]"⟩] none none [0] rfl rfl)
  have h7 := (((h3.step (.arrive _ _ (h₀ _ rfl rfl))).step (.recv _ _ [] rfl rfl)).step
    (.accept _ _ _ rfl rfl)).step (.take _ 0 _ _ rfl rfl)
  obtain ⟨A, hA, h8⟩ := reach_burnMany h7 rfl (by decide) (2 ^ 64 - 1)
  have hA' : A.length = (2 ^ 64 - 1) + 1 := hA
  have h12 := (((h8.step (.begin _)).step (.req _ [] [] [] "m" (.ok "[]") rfl)).step
    (.send _ _ [] [] _ none none [1] rfl rfl)).step (.waitComplete _ _ 0 _ .canceled rfl rfl rfl)
  refine ⟨_, h12, ?_, rfl, rfl, rfl, rfl, rfl, rfl, rfl⟩
  show List.length (A ++ [_]) = _
  simp only [List.length_append, hA', List.length_singleton]
  norm_num

end Jrpc2
