import Mathlib.Data.Nat.Size
import Mathlib.Tactic

/-!
Masks of ones, and the words that a mask sends to a given value.

* `Smears`: a number has a one wherever a given number has one at that place or up to
  `w - 1` places above. A shift and an `or` double the width (`Smears.step`).
* `Smears.eq_mask`: **once the width covers the number, the result is a mask of ones**,
  the least one that is no smaller (`size_mask_le`, `mask_least`).
* `card_masked`: **a mask of `k` ones sends `2^(b-k)` of the words of `b` bits to each
  value below `2^k`.**
-/

namespace BitMask

/-- The ones of `x` are at the places of the ones of `m` and up to `w - 1` places
below. -/
def Smears (m w x : ℕ) : Prop := ∀ i, x.testBit i = true ↔ ∃ j < w, m.testBit (i + j) = true

lemma Smears.self (m : ℕ) : Smears m 1 m := fun i => by
  constructor
  · intro h
    exact ⟨0, Nat.one_pos, h⟩
  · rintro ⟨j, hj, h⟩
    obtain rfl : j = 0 := by omega
    exact h

/-- A shift by the width and an `or` double the width. -/
lemma Smears.step {m w x : ℕ} (h : Smears m w x) : Smears m (2 * w) (x ||| x >>> w) := fun i => by
  rw [Nat.testBit_or, Nat.testBit_shiftRight, Bool.or_eq_true, h i, h (w + i)]
  constructor
  · rintro (⟨j, hj, hbit⟩ | ⟨j, hj, hbit⟩)
    · exact ⟨j, by omega, hbit⟩
    · refine ⟨w + j, by omega, ?_⟩
      rwa [show i + (w + j) = w + i + j by omega]
  · rintro ⟨j, hj, hbit⟩
    rcases Nat.lt_or_ge j w with hlt | hge
    · exact .inl ⟨j, hlt, hbit⟩
    · refine .inr ⟨j - w, by omega, ?_⟩
      rwa [show w + i + (j - w) = i + j by omega]

/-- **A number that is smeared over its whole length is a mask of ones.** -/
theorem Smears.eq_mask {m w x : ℕ} (h : Smears m w x) (hm : m < 2 ^ w) : x = 2 ^ m.size - 1 := by
  refine Nat.eq_of_testBit_eq fun i => ?_
  rw [Nat.testBit_two_pow_sub_one, Bool.eq_iff_iff, h i, decide_eq_true_iff, Nat.lt_size]
  constructor
  · rintro ⟨j, -, hbit⟩
    calc 2 ^ i ≤ 2 ^ (i + j) := Nat.pow_le_pow_right (by decide) (Nat.le_add_right i j)
      _ ≤ m := Nat.ge_two_pow_of_testBit hbit
  · intro hle
    obtain ⟨k, hk, hbit⟩ := Nat.exists_ge_and_testBit_of_ge_two_pow hle
    have hkw : 2 ^ k < 2 ^ w := (Nat.ge_two_pow_of_testBit hbit).trans_lt hm
    have hlt : k < w := (Nat.pow_lt_pow_iff_right (by decide)).mp hkw
    exact ⟨k - i, by omega, by rwa [Nat.add_sub_cancel' hk]⟩

/-- The mask is no smaller than the number. -/
lemma size_mask_le (m : ℕ) : m ≤ 2 ^ m.size - 1 := Nat.le_sub_one_of_lt (Nat.lt_size_self m)

/-- It is the least such mask. -/
lemma mask_least {m k : ℕ} (h : m ≤ 2 ^ k - 1) : 2 ^ m.size - 1 ≤ 2 ^ k - 1 := by
  have hpos : 0 < 2 ^ k := by positivity
  have hsize : m.size ≤ k := Nat.size_le.mpr (by omega)
  exact Nat.sub_le_sub_right (Nat.pow_le_pow_right (by decide) hsize) 1

/-- **Every value below a mask is hit by equally many words.** -/
theorem card_masked {k b v : ℕ} (hk : k ≤ b) (hv : v < 2 ^ k) :
    (Finset.univ.filter fun w : Fin (2 ^ b) => (w : ℕ) &&& (2 ^ k - 1) = v).card = 2 ^ (b - k) := by
  have hpow : 2 ^ b = 2 ^ k * 2 ^ (b - k) := by rw [← pow_add, Nat.add_sub_cancel' hk]
  have hlt : ∀ t : Fin (2 ^ (b - k)), v + 2 ^ k * t < 2 ^ b := fun t =>
    calc v + 2 ^ k * t < 2 ^ k * (t + 1) := by rw [Nat.mul_succ]; omega
      _ ≤ 2 ^ k * 2 ^ (b - k) := Nat.mul_le_mul_left _ t.isLt
      _ = 2 ^ b := hpow.symm
  -- the words with the value `v` are `v + 2^k·t`
  have himage : (Finset.univ.filter fun w : Fin (2 ^ b) => (w : ℕ) &&& (2 ^ k - 1) = v) =
      Finset.univ.image fun t : Fin (2 ^ (b - k)) => (⟨v + 2 ^ k * t, hlt t⟩ : Fin (2 ^ b)) := by
    ext w
    simp only [Finset.mem_filter, Finset.mem_univ, true_and, Finset.mem_image,
      Nat.and_two_pow_sub_one_eq_mod]
    constructor
    · rintro rfl
      exact ⟨⟨w / 2 ^ k, Nat.div_lt_of_lt_mul (hpow ▸ w.isLt)⟩, Fin.ext (Nat.mod_add_div w (2 ^ k))⟩
    · rintro ⟨t, rfl⟩
      rw [Nat.add_mul_mod_self_left, Nat.mod_eq_of_lt hv]
  rw [himage, Finset.card_image_of_injective, Finset.card_univ, Fintype.card_fin]
  intro t t' h
  have hpos : 0 < 2 ^ k := by positivity
  have hval : v + 2 ^ k * t = v + 2 ^ k * t' := congrArg Fin.val h
  exact Fin.ext (Nat.eq_of_mul_eq_mul_left hpos (Nat.add_left_cancel hval))

end BitMask
