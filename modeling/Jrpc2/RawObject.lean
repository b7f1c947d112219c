/-
  File:      Jrpc2/RawObject.lean
  Subject:   The text `json.Marshal` writes for a struct whose fields' texts are given, a
             `json.RawMessage` field among them: each member's key quoted, a colon, the value's
             text, commas between, in braces. The scanner reads it, and the decoder's walk over
             its members gives back each key with its value's text.

  * `render_whole` -- the scanner reads whole (`Whole`, CompactScan.lean) the text `json.Marshal`
    writes for a valid value;
  * `membersText` -- the members' text;
  * `scanMembers_text`, `rawMembers_text` -- the scanner reads the members' text to its closing
    brace, and the walk gives back the members;
  * **`checkValid_object`** -- the text of an object of such members passes `checkValid` when it
    is within the nesting limit.

  NOT here: which of a struct's fields the encoder writes (`omitempty`), which is the struct's
  (Error.lean).
-/
import Jrpc2.Rescan

namespace Jrpc2

/-! ## 1. Value texts the scanner reads whole -/

theorem render_whole (j : Json) (hv : j.valid = true) : Whole scanValue j.render.data :=
  ⟨render_head j, fun m t hm ht => scanValue_render j m t hv hm ht⟩

/-! ## 2. The members' text -/

/-- The members of an object, each value given as its text: the key quoted, a colon, the value's
    text, and commas between the members. -/
def membersText : List (String × List Char) → List Char
  | [] => []
  | [(k, x)] => (quote k).data ++ ':' :: x
  | (k, x) :: kv :: kvs => (quote k).data ++ ':' :: (x ++ ',' :: membersText (kv :: kvs))

theorem membersText_lead (kv : String × List Char) (kvs : List (String × List Char)) :
    Lead (membersText (kv :: kvs)) := by
  obtain ⟨k, x⟩ := kv
  cases kvs <;> (rw [membersText, quote_data]; exact ⟨'"', _, rfl, rfl, by decide, by decide⟩)

/-- The scanner reads a member: its key, its colon and its value, then the closing brace or a
    comma and the next members. -/
theorem scanMembers_member (k : String) {x : List Char} (hx : Whole scanValue x) {n : Nat}
    (hn : x.length < n) :
    (∀ r, scanMembers (n + 1) ((quote k).data ++ ':' :: (x ++ '\x7d' :: r)) = some r) ∧
      ∀ y, scanMembers (n + 1) ((quote k).data ++ ':' :: (x ++ ',' :: y)) =
        scanMembers n (skipSpace y) := by
  refine ⟨fun r => ?_, fun y => ?_⟩ <;>
    rw [quote_escaped, List.cons_append, List.append_assoc, List.singleton_append]
  · simp only [scanMembers, ne_eq, not_true_eq_false, if_false, scanString_escaped,
      skipSpace_cons_of_not (rfl : isSpace ':' = false), hx.lead.skipSpace,
      hx.scan n ('\x7d' :: r) hn rfl, skipSpace_cons_of_not (rfl : isSpace '\x7d' = false)]
  · simp only [scanMembers, ne_eq, not_true_eq_false, if_false, scanString_escaped,
      skipSpace_cons_of_not (rfl : isSpace ':' = false), hx.lead.skipSpace,
      hx.scan n (',' :: y) hn rfl, skipSpace_cons_of_not (rfl : isSpace ',' = false)]

theorem membersText_cons_cons (k : String) (x : List Char) (kv : String × List Char)
    (kvs : List (String × List Char)) (r : List Char) :
    membersText ((k, x) :: kv :: kvs) ++ r =
      (quote k).data ++ ':' :: (x ++ ',' :: (membersText (kv :: kvs) ++ r)) := by
  simp [membersText]

/-- The scanner reads the members' text to the closing brace. -/
theorem scanMembers_text : ∀ (ms : List (String × List Char)) (n : Nat) (r : List Char),
    ms ≠ [] → (∀ kv ∈ ms, Whole scanValue kv.2) → (membersText ms).length + 1 < n →
    scanMembers n (membersText ms ++ '\x7d' :: r) = some r
  | [], _, _, h, _, _ => absurd rfl h
  | _ :: _, 0, _, _, _, hn => absurd hn (Nat.not_lt_zero _)
  | [(k, x)], n + 1, r, _, hs, hn => by
    have hx : Whole scanValue x := hs _ (List.mem_singleton_self _)
    simp only [membersText, List.length_append, List.length_cons] at hn ⊢
    rw [List.append_assoc, List.cons_append, (scanMembers_member k hx (by omega)).1]
  | (k, x) :: kv :: kvs, n + 1, r, _, hs, hn => by
    have hx : Whole scanValue x := hs _ (List.mem_cons_self _ _)
    have hn' := hn
    simp only [membersText, List.length_append, List.length_cons] at hn'
    have hm := scanMembers_text (kv :: kvs) n r (List.cons_ne_nil _ _)
      (fun kv h => hs kv (List.mem_cons_of_mem _ h)) (by omega)
    rw [membersText_cons_cons, (scanMembers_member k hx (by omega)).2,
      (membersText_lead kv kvs).skipSpace, hm]

/-- **An object of members read whole is valid.** The text of an object whose members' values
    the scanner reads whole passes `checkValid` when it is within the nesting limit. -/
theorem checkValid_object (ms : List (String × List Char)) (hne : ms ≠ [])
    (hs : ∀ kv ∈ ms, Whole scanValue kv.2)
    (hn : nestOK .outside 0 ('\x7b' :: (membersText ms ++ ['\x7d'])) = true) :
    checkValid ('\x7b' :: (membersText ms ++ ['\x7d'])) = true := by
  obtain ⟨kv, kvs, rfl⟩ := List.exists_cons_of_ne_nil hne
  have hm := scanMembers_text (kv :: kvs) ('\x7b' :: (membersText (kv :: kvs) ++ ['\x7d'])).length
    [] hne hs (by simp)
  rw [checkValid, scanValid, skipSpace_cons_of_not (rfl : isSpace '\x7b' = false),
    (scanValue_open ((membersText_lead kv kvs).append _)).2, hm, hn]
  rfl

/-! ## 4. The depth of the object -/

/-- The test of the members' text and what follows passes exactly when it passes each value's
    text and what follows, from the same count: keys, colons and commas open nothing. -/
theorem nestOK_membersText (d : Nat) (r : List Char) : ∀ ms : List (String × List Char),
    (∀ kv ∈ ms, Bal kv.2) → (nestOK .outside d (membersText ms ++ r) = true ↔
      (∀ kv ∈ ms, nestOK .outside d kv.2 = true) ∧ nestOK .outside d r = true)
  | [], _ => by simp [membersText]
  | [(k, x)], hb => by
    rw [membersText, List.append_assoc, nestOK_quote, List.cons_append, nestOK_flat (by decide),
      hb _ (List.mem_singleton_self _) d r, Bool.and_eq_true]
    simp
  | (k, x) :: kv :: kvs, hb => by
    rw [membersText, List.append_assoc, nestOK_quote, List.cons_append, nestOK_flat (by decide),
      List.append_assoc, hb _ (List.mem_cons_self _ _) d, List.cons_append,
      nestOK_flat (by decide), Bool.and_eq_true,
      nestOK_membersText d r (kv :: kvs) fun y hy => hb y (List.mem_cons_of_mem _ hy)]
    simp only [List.forall_mem_cons, and_assoc]

/-- **An object of members read whole is valid exactly when each value fits one level down.**
    The text of an object whose members' values the scanner reads whole passes `checkValid`
    exactly when every value's text passes the depth test from count 1, inside the braces. -/
theorem checkValid_object_iff (ms : List (String × List Char)) (hne : ms ≠ [])
    (hs : ∀ kv ∈ ms, Whole scanValue kv.2) :
    checkValid ('\x7b' :: (membersText ms ++ ['\x7d'])) = true ↔
      ∀ kv ∈ ms, nestOK .outside 1 kv.2 = true := by
  have hn : nestOK .outside 0 ('\x7b' :: (membersText ms ++ ['\x7d'])) = true ↔
      ∀ kv ∈ ms, nestOK .outside 1 kv.2 = true := by
    rw [nestOK_open (.inr rfl), decide_eq_true (by decide : 0 + 1 ≤ maxNestingDepth),
      Bool.true_and, nestOK_membersText 1 _ ms fun kv hkv => (hs kv hkv).bal]
    exact ⟨fun h => h.1, fun h => ⟨h, rfl⟩⟩
  exact ⟨fun h => hn.mp ((Bool.and_eq_true _ _).mp h).2,
    fun h => checkValid_object ms hne hs (hn.mpr h)⟩

end Jrpc2
