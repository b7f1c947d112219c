/-
  File:      Jrpc2/Decimal.lean
  Subject:   The client's request IDs: the `int64` counter `nextID` and its decimal text
             `strconv.FormatInt(nextID, 10)`.

  * `int64Wrap` -- two's complement wrap-around of an `int64`; `c.nextID++` is
    `int64Wrap (nextID + 1)`;
  * `formatInt` -- `strconv.FormatInt(x, 10)`, which is Lean's `toString` on `Int`;
  * `formatInt_injective` -- distinct numbers have distinct IDs (a left inverse reads the digits
    back, `digitsValue_repr`);
  * `int64Wrap_inj` -- the counter does not repeat within `2^64` consecutive values.
-/
import Mathlib.Data.Nat.Digits

namespace Jrpc2

/-! ## 1. The `int64` counter -/

/-- The `int64` value of an integer: two's complement wrap-around into `[-2^63, 2^63)`. -/
def int64Wrap (x : Int) : Int := (x + 2 ^ 63) % 2 ^ 64 - 2 ^ 63

theorem int64Wrap_of_lt {x : Int} (h1 : -2 ^ 63 ≤ x) (h2 : x < 2 ^ 63) : int64Wrap x = x := by
  unfold int64Wrap; omega

theorem int64Wrap_add_one (x : Int) : int64Wrap (int64Wrap x + 1) = int64Wrap (x + 1) := by
  unfold int64Wrap; omega

/-- Wrapping a partial sum before adding more changes nothing: `int64` addition is addition
    modulo `2^64`. -/
theorem int64Wrap_add_left (x y : Int) : int64Wrap (int64Wrap x + y) = int64Wrap (x + y) := by
  unfold int64Wrap; omega

/-- Within `2^64` consecutive values the counter takes distinct values. -/
theorem int64Wrap_inj {j k : Int} (hj : 0 < j) (hj' : j ≤ 2 ^ 64) (hk : 0 < k) (hk' : k ≤ 2 ^ 64)
    (h : int64Wrap j = int64Wrap k) : j = k := by
  unfold int64Wrap at h; omega

/-! ## 2. Decimal text -/

/-- `strconv.FormatInt(x, 10)`: the decimal text of `x`, with a leading `-` when negative. -/
def formatInt (x : Int) : String := toString x

/-- The number a list of decimal digit characters denotes. -/
def digitsValue (cs : List Char) : Nat := cs.foldl (fun n c => 10 * n + (c.toNat - 48)) 0

theorem foldl_digit (a : Nat) (cs : List Char) :
    cs.foldl (fun n c => 10 * n + (c.toNat - 48)) a = a * 10 ^ cs.length + digitsValue cs := by
  induction cs generalizing a with
  | nil => simp [digitsValue]
  | cons c cs ih =>
    simp only [List.foldl_cons, digitsValue, List.length_cons] at ih ⊢
    rw [ih, ih (10 * 0 + _)]
    ring

theorem digitChar_value : ∀ d < 10, (Nat.digitChar d).toNat - 48 = d := by decide

theorem digitChar_ne_minus : ∀ d < 10, Nat.digitChar d ≠ '-' := by decide

theorem digitsValue_cons (c : Char) (cs : List Char) :
    digitsValue (c :: cs) = (c.toNat - 48) * 10 ^ cs.length + digitsValue cs := by
  rw [digitsValue, List.foldl_cons, foldl_digit]; simp

/-- `toDigitsCore` prepends the digits of `n` to `ds`, given enough fuel. -/
theorem digitsValue_toDigitsCore (fuel : Nat) :
    ∀ n ds, n < fuel →
      digitsValue (Nat.toDigitsCore 10 fuel n ds) = n * 10 ^ ds.length + digitsValue ds := by
  induction fuel with
  | zero => intro n ds h; omega
  | succ fuel ih =>
    intro n ds h
    have hd := digitChar_value (n % 10) (Nat.mod_lt _ (by omega))
    unfold Nat.toDigitsCore
    dsimp only
    split
    · rw [digitsValue_cons, hd, Nat.mod_eq_of_lt (by omega)]
    · rw [ih _ _ (by omega), digitsValue_cons, hd, List.length_cons, pow_succ]
      calc n / 10 * (10 ^ ds.length * 10) + (n % 10 * 10 ^ ds.length + digitsValue ds)
          = (10 * (n / 10) + n % 10) * 10 ^ ds.length + digitsValue ds := by ring
        _ = n * 10 ^ ds.length + digitsValue ds := by rw [Nat.div_add_mod]

theorem digitsValue_repr (n : Nat) : digitsValue (toString n).data = n := by
  show digitsValue (Nat.toDigitsCore 10 (n + 1) n []) = n
  rw [digitsValue_toDigitsCore _ _ _ (by omega)]; simp [digitsValue]

/-- Every character `toDigitsCore` adds is a digit. -/
theorem mem_toDigitsCore (fuel : Nat) :
    ∀ n ds c, c ∈ Nat.toDigitsCore 10 fuel n ds → c ∈ ds ∨ ∃ d < 10, c = Nat.digitChar d := by
  induction fuel with
  | zero => intro n ds c h; exact .inl h
  | succ fuel ih =>
    intro n ds c h
    have hd : n % 10 < 10 := Nat.mod_lt _ (by omega)
    unfold Nat.toDigitsCore at h
    dsimp only at h
    split at h
    · rcases List.mem_cons.mp h with rfl | h
      · exact .inr ⟨_, hd, rfl⟩
      · exact .inl h
    · rcases ih _ _ _ h with h | h
      · rcases List.mem_cons.mp h with rfl | h
        · exact .inr ⟨_, hd, rfl⟩
        · exact .inl h
      · exact .inr h

theorem minus_not_mem_repr (n : Nat) : '-' ∉ (toString n).data := by
  intro h
  rcases mem_toDigitsCore _ _ _ _ h with h | ⟨d, hd, e⟩
  · simp at h
  · exact digitChar_ne_minus d hd e.symm

theorem natToString_injective : Function.Injective (toString : Nat → String) := fun a b h => by
  rw [← digitsValue_repr a, ← digitsValue_repr b, h]

/-- **Distinct numbers have distinct decimal IDs.** -/
theorem formatInt_injective : Function.Injective formatInt := by
  have neg : ∀ (a b : Nat), toString a ≠ "-" ++ toString b := fun a b h => by
    have := minus_not_mem_repr a
    rw [h] at this
    simp [String.data_append] at this
  intro x y h
  cases x with
  | ofNat a =>
    cases y with
    | ofNat b => exact congrArg _ (natToString_injective h)
    | negSucc b => exact absurd h (neg a (b + 1))
  | negSucc a =>
    cases y with
    | ofNat b => exact absurd h.symm (neg b (a + 1))
    | negSucc b =>
      have : toString (a + 1) = toString (b + 1) := by
        have h' : ("-" ++ toString (a + 1)).data = ("-" ++ toString (b + 1)).data :=
          congrArg String.data h
        exact String.ext (by simpa [String.data_append] using h')
      have := natToString_injective this
      simp only [Nat.add_right_cancel_iff] at this
      rw [this]

theorem formatInt_natCast (n : Nat) : formatInt n = toString n := rfl

/-- An ID is never empty, so a request `req` builds is never taken for a notification. -/
theorem formatInt_ne_empty (x : Int) : formatInt x ≠ "" := by
  intro h
  cases x with
  | ofNat n =>
    have hn : n = 0 := by
      rw [← digitsValue_repr n]; exact congrArg (digitsValue ·.data) h
    subst hn; exact absurd h (by decide)
  | negSucc n =>
    have h' : ("-" ++ toString (n + 1)).data = [] := congrArg String.data h
    simp [String.data_append] at h'

end Jrpc2
