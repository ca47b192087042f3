import Mathlib.Tactic

/-!
JavaScript numbers with an integral value: the 32-bit operators and the rounding of
results.

* `toUint32`, `toInt32`: the conversions of the operands. The results of `|`, `&` and
  `<<` are signed, that of `>>>` is not.
* `toUint32_toInt32`, `toUint32_bitOr`, `toUint32_bitAnd`: on unsigned words the operators
  are those of the natural numbers.
* `bitAnd_eq`: the result of `&` is the word itself when it is below `2^31`, and `2^32`
  less otherwise.
* `round`: the double nearest to an integer, ties to even. Up to `2^53` it is the integer
  itself (`round_eq`).
-/

namespace JsNumber

/-- The unsigned 32-bit word of an integer. -/
def toUint32 (x : ℤ) : ℕ := (x % 2 ^ 32).toNat

/-- The signed 32-bit word of an integer. -/
def toInt32 (x : ℤ) : ℤ := x.bmod (2 ^ 32)

/-- `x | y`. -/
def bitOr (x y : ℤ) : ℤ := toInt32 ((toUint32 x ||| toUint32 y : ℕ))

/-- `x & y`. -/
def bitAnd (x y : ℤ) : ℤ := toInt32 ((toUint32 x &&& toUint32 y : ℕ))

/-- `x << k`, for `k` below `32`. -/
def shiftLeft (x : ℤ) (k : ℕ) : ℤ := toInt32 ((toUint32 x <<< k : ℕ))

/-- `x >>> k`, for `k` below `32`. -/
def unsignedShiftRight (x : ℤ) (k : ℕ) : ℤ := (toUint32 x >>> k : ℕ)

lemma toUint32_lt (x : ℤ) : toUint32 x < 2 ^ 32 := by
  have hnonneg := Int.emod_nonneg x (show (2 ^ 32 : ℤ) ≠ 0 by decide)
  have hlt := Int.emod_lt_of_pos x (show (0 : ℤ) < 2 ^ 32 by decide)
  rw [toUint32]
  omega

/-- The word of a natural number. -/
lemma toUint32_natCast (n : ℕ) : toUint32 n = n % 2 ^ 32 := by
  rw [toUint32]
  omega

/-- A word is its own word. -/
lemma toUint32_of_lt {n : ℕ} (h : n < 2 ^ 32) : toUint32 n = n := by
  rw [toUint32_natCast, Nat.mod_eq_of_lt h]

/-- The sign of a word is lost in the next conversion. -/
@[simp] lemma toUint32_toInt32 (x : ℤ) : toUint32 (toInt32 x) = toUint32 x := by
  rw [toUint32, toUint32, toInt32, show (2 : ℤ) ^ 32 = ((2 ^ 32 : ℕ) : ℤ) by norm_num, Int.bmod_emod]

@[simp] lemma toUint32_bitOr (x y : ℤ) : toUint32 (bitOr x y) = toUint32 x ||| toUint32 y := by
  rw [bitOr, toUint32_toInt32,
    toUint32_of_lt (Nat.or_lt_two_pow (toUint32_lt x) (toUint32_lt y))]

@[simp] lemma toUint32_bitAnd (x y : ℤ) : toUint32 (bitAnd x y) = toUint32 x &&& toUint32 y := by
  rw [bitAnd, toUint32_toInt32,
    toUint32_of_lt (Nat.and_lt_two_pow (toUint32 x) (toUint32_lt y))]

@[simp] lemma toUint32_shiftLeft (x : ℤ) (k : ℕ) :
    toUint32 (shiftLeft x k) = (toUint32 x <<< k) % 2 ^ 32 := by
  rw [shiftLeft, toUint32_toInt32, toUint32_natCast]

@[simp] lemma toUint32_unsignedShiftRight (x : ℤ) (k : ℕ) :
    toUint32 (unsignedShiftRight x k) = toUint32 x >>> k := by
  have hle : toUint32 x >>> k ≤ toUint32 x := Nat.shiftRight_le (toUint32 x) k
  rw [unsignedShiftRight, toUint32_of_lt (hle.trans_lt (toUint32_lt x))]

/-- `x >>> 0` is the unsigned word. -/
lemma unsignedShiftRight_zero (x : ℤ) : unsignedShiftRight x 0 = toUint32 x := by
  rw [unsignedShiftRight, Nat.shiftRight_zero]

/-- **The sign of `&`**: words from `2^31` on come out `2^32` too small. -/
lemma bitAnd_eq {m n : ℕ} (hm : m < 2 ^ 32) (hn : n < 2 ^ 32) :
    bitAnd m n = if m &&& n < 2 ^ 31 then ((m &&& n : ℕ) : ℤ) else (m &&& n : ℕ) - 2 ^ 32 := by
  have hlt : m &&& n < 2 ^ 32 := Nat.and_lt_two_pow m hn
  rw [bitAnd, toUint32_of_lt hm, toUint32_of_lt hn, toInt32, Int.bmod_def]
  split_ifs <;> omega

/-! ### Rounding -/

/-- The double nearest to an integer, ties to even. -/
def round (x : ℤ) : ℤ :=
  let unit := 2 ^ (Nat.log2 x.natAbs - 52)
  let q := x.natAbs / unit
  let r := x.natAbs % unit
  let q' := if 2 * r < unit ∨ (2 * r = unit ∧ q % 2 = 0) then q else q + 1
  x.sign * (q' * unit : ℕ)

/-- Up to `2^53` every integer is a double. -/
lemma round_eq {x : ℤ} (h : |x| ≤ 2 ^ 53) : round x = x := by
  have habs : x.natAbs ≤ 2 ^ 53 := by
    rw [Int.abs_eq_natAbs] at h
    exact_mod_cast h
  -- the unit is `1`, or `2` at the very end
  have hdvd : 2 ^ (Nat.log2 x.natAbs - 52) ∣ x.natAbs := by
    rcases Nat.lt_or_ge x.natAbs (2 ^ 53) with hlt | hge
    · by_cases h0 : x.natAbs = 0
      · rw [h0]
        exact dvd_zero _
      · have hlog : Nat.log2 x.natAbs < 53 := (Nat.log2_lt h0).mpr hlt
        rw [show Nat.log2 x.natAbs - 52 = 0 by omega, pow_zero]
        exact one_dvd _
    · rw [le_antisymm habs hge, Nat.log2_two_pow]
      exact pow_dvd_pow 2 (by decide)
  obtain ⟨q, hq⟩ := hdvd
  have hpos : 0 < 2 ^ (Nat.log2 x.natAbs - 52) := by positivity
  have hr : x.natAbs % 2 ^ (Nat.log2 x.natAbs - 52) = 0 := Nat.mod_eq_zero_of_dvd ⟨q, hq⟩
  simp only [round, hr, Nat.mul_zero, hpos, true_or, if_true]
  rw [Nat.div_mul_cancel ⟨q, hq⟩, Int.sign_mul_natAbs]

end JsNumber
