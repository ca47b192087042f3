import Mathlib.Algebra.Field.ZMod
import CcVrf.Ecvrf.Encoding
import CcVrf.Ecvrf.Suite
import CcVrf.Library.PrimeOrder

/-!
The third-party primitives of the ECVRF package: the Ed25519 points of
`@noble/ed25519` and the hash functions of `@noble/hashes`.

* `Noble`: the operations the source calls, with the documented facts about them
  that its correctness rests on. The points form a commutative group; SHA-512 and
  SHA-256 are arbitrary functions to strings of their length.
* `Noble.PrimeSubgroup`: a point together with the two facts that the gates of
  the source establish, that it is not the identity and is killed by the prime
  order.
* `Noble.residues`: the interface is inhabited, by the residues modulo `8q`, the
  cyclic group of the order of the curve group; `Noble.sample` has a small hash
  that runs in the kernel.
-/

namespace CcVrf

/-- The primitives over the point type `Point`, with what is documented of them. -/
structure Noble (Point : Type) [AddCommGroup Point] where
  /-- `sha512`. -/
  sha512 : Bytes → ByteVec 64
  /-- `sha256`. -/
  sha256 : Bytes → ByteVec 32
  /-- `Point.fromBytes`, which throws on a string that encodes no point. -/
  fromBytes : Bytes → Throws Point
  /-- `toBytes`, the canonical encoding. -/
  toBytes : Point → Bytes
  /-- `Point.BASE`. -/
  base : Point
  /-- `multiply`, which throws on a scalar outside `[1, q-1]`. -/
  multiply : Point → ℕ → Throws Point
  /-- `equals`. -/
  equals : Point → Point → Bool
  /-- `isSmallOrder`. -/
  isSmallOrder : Point → Bool
  /-- `isTorsionFree`. -/
  isTorsionFree : Point → Bool
  /-- Encodings have 32 bytes. -/
  toBytes_length : ∀ P, (toBytes P).length = ptLen
  /-- Decoding inverts encoding. -/
  fromBytes_toBytes : ∀ P, fromBytes (toBytes P) = .ok P
  /-- Only the canonical encoding of a point decodes to it. -/
  toBytes_of_fromBytes : ∀ b P, fromBytes b = .ok P → toBytes P = b
  /-- Multiplication by a scalar in `[1, q-1]`. -/
  multiply_eq : ∀ (P : Point) (n : ℕ), 1 ≤ n → n < curveOrder → multiply P n = .ok (n • P)
  /-- Multiplication by any other scalar throws. -/
  multiply_throws : ∀ P n, ¬(1 ≤ n ∧ n < curveOrder) → ∃ e, multiply P n = .error e
  /-- `equals` decides equality. -/
  equals_iff : ∀ P Q, equals P Q = true ↔ P = Q
  /-- Small-order points are those the cofactor kills. -/
  isSmallOrder_iff : ∀ P : Point, isSmallOrder P = true ↔ cofactor • P = 0
  /-- Torsion-free points are those the prime order kills. -/
  isTorsionFree_iff : ∀ P : Point, isTorsionFree P = true ↔ curveOrder • P = 0
  /-- The base point is not the identity. -/
  base_ne_zero : base ≠ 0
  /-- The base point lies in the prime-order subgroup. -/
  base_torsion : curveOrder • base = 0
  /-- The base point generates the prime-order subgroup. -/
  base_generates : ∀ P : Point, curveOrder • P = 0 → ∃ x : ℕ, P = x • base
  /-- The group is the prime-order subgroup times a torsion part of exponent
  dividing the cofactor. -/
  group_exponent : ∀ P : Point, (curveOrder * cofactor) • P = 0

/-- A value returned by a sequence of throwing calls comes from the values that
the calls returned. -/
lemma bind_eq_ok_iff {ε α β : Type} {x : Except ε α} {f : α → Except ε β} {b : β} :
    (x >>= f) = .ok b ↔ ∃ a, x = .ok a ∧ f a = .ok b := by
  cases x with
  | error e => exact ⟨fun h => (nomatch h), fun ⟨_, h, _⟩ => (nomatch h)⟩
  | ok a => exact ⟨fun h => ⟨a, rfl, h⟩, fun ⟨_, h, hf⟩ => by cases h; exact hf⟩

@[simp] lemma ok_bind {ε α β : Type} (a : α) (f : α → Except ε β) :
    ((.ok a : Except ε α) >>= f) = f a := rfl

/-- A call that did not throw returned. -/
lemma ok_of_isOk {ε α : Type} {x : Except ε α} (h : x.isOk = true) : ∃ v, x = .ok v := by
  cases x with
  | error e => cases h
  | ok v => exact ⟨v, rfl⟩

namespace Noble

variable {Point : Type} [AddCommGroup Point] (N : Noble Point)

lemma cofactor_coprime : Nat.Coprime cofactor curveOrder :=
  (Nat.coprime_primes Nat.prime_two curveOrder_prime).mpr (by decide +kernel) |>.pow_left 3

lemma toBytes_injective : Function.Injective N.toBytes := fun P Q h => by
  have hP := N.fromBytes_toBytes P
  rw [h, N.fromBytes_toBytes Q] at hP
  exact (Except.ok.inj hP).symm

/-- A decoded string has the length of a point. -/
lemma length_of_fromBytes {b : Bytes} {P : Point} (h : N.fromBytes b = .ok P) :
    b.length = ptLen := by
  rw [← N.toBytes_of_fromBytes b P h, N.toBytes_length]

/-- Multiplication returns exactly for the scalars in `[1, q-1]`. -/
lemma multiply_eq_ok_iff (P : Point) (n : ℕ) (Q : Point) :
    N.multiply P n = .ok Q ↔ 1 ≤ n ∧ n < curveOrder ∧ Q = n • P := by
  by_cases h : 1 ≤ n ∧ n < curveOrder
  · rw [N.multiply_eq P n h.1 h.2]
    constructor
    · intro hQ
      exact ⟨h.1, h.2, (Except.ok.inj hQ).symm⟩
    · rintro ⟨-, -, rfl⟩
      rfl
  · obtain ⟨e, he⟩ := N.multiply_throws P n h
    rw [he]
    constructor
    · intro hQ
      cases hQ
    · rintro ⟨h1, h2, -⟩
      exact absurd ⟨h1, h2⟩ h

/-- Multiplication by the cofactor never throws. -/
lemma multiply_cofactor (P : Point) : N.multiply P cofactor = .ok (cofactor • P) :=
  N.multiply_eq P cofactor (by decide) (by decide +kernel)

/-! ### The prime-order subgroup -/

/-- A nonidentity point of the prime-order subgroup. -/
structure PrimeSubgroup (P : Point) : Prop where
  torsion : curveOrder • P = 0
  ne_zero : P ≠ 0

/-- The gate of the source, `P.isSmallOrder() || !P.isTorsionFree()`. -/
def failsGate (P : Point) : Bool := N.isSmallOrder P || !N.isTorsionFree P

/-- **The gates of the source**: a point that is not of small order and is
torsion-free is a nonidentity point of the prime-order subgroup, and conversely. -/
lemma gates_iff (P : Point) : N.failsGate P = false ↔ PrimeSubgroup P := by
  rw [failsGate, Bool.or_eq_false_iff, Bool.not_eq_false', N.isTorsionFree_iff, ← Bool.not_eq_true,
    N.isSmallOrder_iff]
  constructor
  · rintro ⟨h8, hq⟩
    exact ⟨hq, fun h0 => h8 (by rw [h0, smul_zero])⟩
  · rintro ⟨hq, h0⟩
    exact ⟨fun h8 => h0 (PrimeOrder.eq_zero_of_coprime cofactor_coprime h8 hq), hq⟩

lemma base_primeSubgroup : PrimeSubgroup N.base := ⟨N.base_torsion, N.base_ne_zero⟩

/-- Multiples by `[1, q-1]` stay in the subgroup and avoid the identity. -/
lemma PrimeSubgroup.nsmul {P : Point} (hP : PrimeSubgroup P) {n : ℕ} (h1 : 1 ≤ n)
    (hn : n < curveOrder) : PrimeSubgroup (n • P) :=
  ⟨PrimeOrder.nsmul_torsion hP.torsion n, PrimeOrder.nsmul_ne_zero hP.torsion hP.ne_zero h1 hn⟩

/-- A cleared point that is not the identity lies in the subgroup. -/
lemma primeSubgroup_of_cleared {P Q : Point} (h : N.multiply P cofactor = .ok Q) (h0 : Q ≠ 0) :
    PrimeSubgroup Q := by
  rw [N.multiply_cofactor] at h
  cases h
  exact ⟨(mul_smul curveOrder cofactor P).symm.trans (N.group_exponent P), h0⟩

/-- Every point of the subgroup is a multiple of the base by a scalar in
`[1, q-1]`. -/
lemma PrimeSubgroup.exists_scalar {P : Point} (hP : PrimeSubgroup P) :
    ∃ x : ℕ, 1 ≤ x ∧ x < curveOrder ∧ P = x • N.base := by
  obtain ⟨x, rfl⟩ := N.base_generates P hP.torsion
  have hx : (x % curveOrder) • N.base = x • N.base := PrimeOrder.nsmul_mod N.base_torsion x
  refine ⟨x % curveOrder, ?_, Nat.mod_lt x curveOrder_prime.pos, hx.symm⟩
  rcases Nat.eq_zero_or_pos (x % curveOrder) with h | h
  · rw [h, zero_smul] at hx
    exact absurd hx.symm hP.ne_zero
  · exact h

end Noble

/-! ### The interface is inhabited -/

/-- The cyclic group of the order of the curve group. -/
abbrev Residue := ZMod (cofactor * curveOrder)

namespace Residue

instance : NeZero (cofactor * curveOrder) := ⟨by decide +kernel⟩

/-- The encoding of a residue: its value in 32 little-endian bytes. -/
def toBytes (P : Residue) : Bytes := (bigIntToBytesLE.loop ptLen P.val).1

/-- Decoding accepts 32 bytes with a value below the modulus. -/
def fromBytes (b : Bytes) : Throws Residue :=
  if b.length = ptLen ∧ bytesToBigIntLE b < cofactor * curveOrder then .ok (bytesToBigIntLE b)
  else .error "bad point"

/-- Multiplication with the range check of the library. -/
def multiply (P : Residue) (n : ℕ) : Throws Residue :=
  if 1 ≤ n ∧ n < curveOrder then .ok (n * P) else .error "invalid scalar: out of range"

lemma modulus_lt : cofactor * curveOrder < 256 ^ ptLen := by decide +kernel

lemma toBytes_spec (P : Residue) :
    (toBytes P).length = ptLen ∧ bytesToBigIntLE (toBytes P) = P.val :=
  ⟨bigIntToBytesLE.length_loop _ _,
    bigIntToBytesLE.loop_value ((ZMod.val_lt P).trans modulus_lt)⟩

lemma natCast_eq_zero_iff (n : ℕ) : (n : Residue) = 0 ↔ cofactor * curveOrder ∣ n :=
  ZMod.natCast_eq_zero_iff n _

lemma nsmul_eq_zero_iff (n : ℕ) (P : Residue) : n • P = 0 ↔ cofactor * curveOrder ∣ n * P.val := by
  rw [← natCast_eq_zero_iff, Nat.cast_mul, ZMod.natCast_val, ZMod.cast_id, nsmul_eq_mul]

end Residue

/-- The residues with given hash functions. The base is the cofactor, a residue
of order `q`. -/
def Noble.residues (sha512 : Bytes → ByteVec 64) (sha256 : Bytes → ByteVec 32) :
    Noble Residue where
  sha512 := sha512
  sha256 := sha256
  fromBytes := Residue.fromBytes
  toBytes := Residue.toBytes
  base := (cofactor : ℕ)
  multiply := Residue.multiply
  equals P Q := P == Q
  isSmallOrder P := (cofactor : ℕ) * P == 0
  isTorsionFree P := (curveOrder : ℕ) * P == 0
  toBytes_length P := (Residue.toBytes_spec P).1
  fromBytes_toBytes P := by
    obtain ⟨hlen, hval⟩ := Residue.toBytes_spec P
    rw [Residue.fromBytes, if_pos ⟨hlen, by rw [hval]; exact ZMod.val_lt P⟩, hval,
      ZMod.natCast_val, ZMod.cast_id]
  toBytes_of_fromBytes b P h := by
    rw [Residue.fromBytes] at h
    split at h
    next hb =>
      obtain ⟨hlen, hval⟩ := Residue.toBytes_spec P
      cases h
      rw [ZMod.val_natCast, Nat.mod_eq_of_lt hb.2] at hval
      exact bytesToBigIntLE_inj (hlen.trans hb.1.symm) hval
    next => cases h
  multiply_eq P n h1 hn := by
    rw [Residue.multiply, if_pos ⟨h1, hn⟩, nsmul_eq_mul]
  multiply_throws P n h := ⟨_, if_neg h⟩
  equals_iff P Q := beq_iff_eq
  isSmallOrder_iff P := by rw [beq_iff_eq, nsmul_eq_mul]
  isTorsionFree_iff P := by rw [beq_iff_eq, nsmul_eq_mul]
  base_ne_zero h := by
    rw [Residue.natCast_eq_zero_iff] at h
    exact absurd (Nat.le_of_dvd (by decide) h) (by decide +kernel)
  base_torsion := by
    rw [nsmul_eq_mul, ← Nat.cast_mul, Residue.natCast_eq_zero_iff, Nat.mul_comm]
  base_generates P h := by
    -- `q·P` is divisible by `8q`, so the value of `P` is a multiple of `8`
    have hdvd : curveOrder * cofactor ∣ curveOrder * P.val := by
      rw [Nat.mul_comm curveOrder cofactor]
      exact (Residue.nsmul_eq_zero_iff curveOrder P).mp h
    obtain ⟨m, hm⟩ := Nat.dvd_of_mul_dvd_mul_left curveOrder_prime.pos hdvd
    refine ⟨m, ?_⟩
    rw [nsmul_eq_mul, ← Nat.cast_mul, Nat.mul_comm m, ← hm, ZMod.natCast_val, ZMod.cast_id]
  group_exponent P :=
    (Residue.nsmul_eq_zero_iff (curveOrder * cofactor) P).mpr
      ⟨P.val, by rw [Nat.mul_comm curveOrder]⟩

/-- A small hash for concrete runs: a polynomial in the input bytes, started
differently for each output byte. -/
def polyHash (n : ℕ) (b : Bytes) : ByteVec n :=
  ⟨(List.range n).map fun i => b.foldl (fun a c => 31 * a + c) (UInt8.ofNat i), by simp⟩

/-- The residues with the small hash: a concrete instance of the interface. -/
def Noble.sample : Noble Residue := Noble.residues (polyHash 64) (polyHash 32)

end CcVrf
