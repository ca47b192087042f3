import CcVrf.Demo.Dice
import CcVrf.Ecvrf.CountBytes
import Mathlib.Data.Int.CardIntervalMod

/-!
The value of a roll.

* `rollValue_eq`: the sixteen hexadecimal digits are the first eight bytes, as one number.
* `roll_value_counts`: **how many outputs give each value**: sixteen of the hundred values
  have one more of the eight-byte prefixes than the others.
-/

namespace CcVrf

/-! ### Digits and bytes -/

/-- Digits are read one after the other. -/
lemma foldl_digits (n : ℕ) (bytes : Bytes) :
    (bytes.flatMap byteDigits).foldl (fun n u => 16 * n + hexDigitValue u) n =
      bytes.foldl (fun n b => 256 * n + b.toNat) n := by
  induction bytes generalizing n with
  | nil => rfl
  | cons b bytes ih =>
      have hb := b.toNat_lt
      have hvalue : 16 * (16 * n + hexDigitValue (digitUnit (b.toNat / 16))) +
          hexDigitValue (digitUnit (b.toNat % 16)) = 256 * n + b.toNat := by
        rw [(digitUnit_spec (show b.toNat / 16 < 16 by omega)).2,
          (digitUnit_spec (show b.toNat % 16 < 16 by omega)).2]
        omega
      rw [List.flatMap_cons, List.foldl_append, byteDigits, List.foldl_cons, List.foldl_cons,
        List.foldl_nil, hvalue, ih, List.foldl_cons]

/-- The digits of the first bytes are the first digits. -/
lemma take_digits (bytes : Bytes) (k : ℕ) :
    (bytes.flatMap byteDigits).take (2 * k) = (bytes.take k).flatMap byteDigits := by
  induction k generalizing bytes with
  | zero => rfl
  | succ k ih =>
      cases bytes with
      | nil => simp
      | cons b bytes =>
          have hlen : 2 * (k + 1) = (byteDigits b).length + 2 * k := by
            rw [byteDigits, List.length_cons, List.length_singleton]
            omega
          rw [List.take_succ_cons, List.flatMap_cons, List.flatMap_cons, hlen,
            List.take_length_add_append, ih]

/-- **The value of a roll** is that of its first eight bytes. -/
theorem rollValue_eq (beta : Bytes) : rollValue beta = bytesToBigIntBE (beta.take 8) % 100 + 1 := by
  rw [rollValue, hexString, jsString_bytesToHex, take_digits beta 8, parseHex, foldl_digits,
    bytesToBigIntBE_eq_bigEndian]
  rfl

/-- **How many outputs give each value.** A roll has a value from 1 to 100. Of all 64-byte
outputs, each value is that of 184467440737095516 eight-byte prefixes, and each of the first
sixteen values is that of one more. -/
theorem roll_value_counts :
    (∀ beta, 1 ≤ rollValue beta ∧ rollValue beta ≤ 100) ∧
      ∀ v : Fin 100, {b : ByteVec 64 | rollValue b.1 = v + 1}.ncard =
        (184467440737095516 + if (v : ℕ) < 16 then 1 else 0) * 256 ^ 56 := by
  refine ⟨fun beta => ?_, fun v => ?_⟩
  · rw [rollValue]
    omega
  · have hset : {b : ByteVec 64 | rollValue b.1 = v + 1} =
        {b : ByteVec (8 + 56) | bytesToBigIntBE (b.1.take 8) ≡ v [MOD 100]} := by
      ext b
      have hv := v.2
      simp only [Set.mem_ofPred_eq, rollValue_eq, Nat.ModEq]
      omega
    rw [hset, ncard_of_prefix 8 56 fun m => m ≡ v [MOD 100], Nat.count_modEq_card _ (by decide),
      Nat.mod_eq_of_lt v.2]
    rfl

end CcVrf
