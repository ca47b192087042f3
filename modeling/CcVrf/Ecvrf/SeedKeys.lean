import CcVrf.Ecvrf.HashToCurve

/-!
Every seed gives a usable key, and what can make the prover fail with it
(`packages/ecvrf/src/keypair.ts`, `nonce.ts`, `prove.ts`).

* `clamp_eq`: clamping changes the first byte and the last one; `clampedScalar_spec`: the
  value is a multiple of 8 in `[2^254, 2^255)`.
* `not_dvd_of_clamped`: no such number is a multiple of the order, since the eighth part of
  it is below `2^252`.
* `UsableKey`: what the scalar, the point and the public key of a seed are good for.
* `ProverRuns`: the parts of the prover that never fail, and when the whole fails.
* `seed_usable`: **every seed of 32 bytes has a usable key, and with it the prover fails
  only for want of a curve point or by the nonce `0`.**
-/

namespace CcVrf

namespace Noble

variable {Point : Type} [AddCommGroup Point] (N : Noble Point)

/-- The clamped scalar of a seed, before its reduction. -/
def clampedScalar (sk : Bytes) : ℕ := bytesToBigIntLE (clamp (N.sha512 sk).val)

/-- The secret scalar of a seed. -/
def secretScalar (sk : Bytes) : ℕ := N.clampedScalar sk % curveOrder

/-- The public point of a seed. -/
def publicPoint (sk : Bytes) : Point := N.secretScalar sk • N.base

/-! ### Clamping -/

lemma modify_last (middle : Bytes) (y : UInt8) (f : UInt8 → UInt8) :
    (middle ++ [y]).modify middle.length f = middle ++ [f y] := by
  induction middle with
  | nil => rfl
  | cons x middle ih =>
      rw [List.cons_append, List.length_cons, List.modify_succ_cons, ih, List.cons_append]

/-- The first half of a hash has a first byte, 30 bytes and a last one. -/
lemma exists_first_middle_last {h : Bytes} (hlen : 32 ≤ h.length) :
    ∃ x middle y, slice h 0 32 = x :: (middle ++ [y]) ∧ middle.length = 30 := by
  have hslice := slice_length 0 hlen
  generalize slice h 0 32 = b at hslice
  cases b with
  | nil => simp at hslice
  | cons x rest =>
      have hne : rest ≠ [] := by
        rintro rfl
        simp at hslice
      refine ⟨x, rest.dropLast, rest.getLast hne, by rw [List.dropLast_append_getLast hne], ?_⟩
      rw [List.length_cons] at hslice
      rw [List.length_dropLast]
      omega

/-- Clamping changes the first byte and the last one. -/
lemma clamp_eq {h : Bytes} {x y : UInt8} {middle : Bytes}
    (hslice : slice h 0 32 = x :: (middle ++ [y])) (hmiddle : middle.length = 30) :
    clamp h = (x &&& 248) :: (middle ++ [(y &&& 127) ||| 64]) := by
  rw [clamp, hslice, List.modify_zero_cons, show (31 : ℕ) = middle.length + 1 by rw [hmiddle],
    List.modify_succ_cons, modify_last, List.modify_succ_cons, modify_last]

/-- The first byte loses its low bits. -/
lemma low_bits_cleared (x : UInt8) : 8 ∣ (x &&& 248).toNat := by
  have hall : ∀ n < 256, 8 ∣ n &&& 248 := by decide +kernel
  rw [UInt8.toNat_and]
  exact hall x.toNat x.toNat_lt

/-- The last byte has its high bit cleared and the one below it set. -/
lemma high_bits_set (y : UInt8) :
    64 ≤ ((y &&& 127) ||| 64).toNat ∧ ((y &&& 127) ||| 64).toNat < 128 := by
  have hall : ∀ n < 256, 64 ≤ (n &&& 127) ||| 64 ∧ (n &&& 127) ||| 64 < 128 := by
    decide +kernel
  rw [UInt8.toNat_or, UInt8.toNat_and]
  exact hall y.toNat y.toNat_lt

/-- **The clamped scalar** is a multiple of 8 from `2^254` to below `2^255`, whatever the
hash of the seed. -/
lemma clampedScalar_spec (sk : Bytes) :
    2 ^ 254 ≤ N.clampedScalar sk ∧ N.clampedScalar sk < 2 ^ 255 ∧ 8 ∣ N.clampedScalar sk := by
  have hlen : 32 ≤ (N.sha512 sk).val.length := by
    rw [(N.sha512 sk).property]
    norm_num
  obtain ⟨x, middle, y, hslice, hmiddle⟩ := exists_first_middle_last hlen
  have hmid := bytesToBigIntLE_lt middle
  have hvalue : N.clampedScalar sk = 256 * (bytesToBigIntLE middle +
      256 ^ 30 * ((y &&& 127) ||| 64).toNat) + (x &&& 248).toNat :=
    calc N.clampedScalar sk
        = bytesToBigIntLE ((x &&& 248) :: (middle ++ [(y &&& 127) ||| 64])) := by
          rw [clampedScalar, clamp_eq hslice hmiddle]
      _ = 256 * (bytesToBigIntLE middle + 256 ^ 30 * bytesToBigIntLE [(y &&& 127) ||| 64]) +
            (x &&& 248).toNat := by
          rw [bytesToBigIntLE_cons, bytesToBigIntLE_append, hmiddle]
      _ = 256 * (bytesToBigIntLE middle + 256 ^ 30 * ((y &&& 127) ||| 64).toNat) +
            (x &&& 248).toNat := by simp
  obtain ⟨hlow, hhigh⟩ := high_bits_set y
  have hfirst := (x &&& 248).toNat_lt
  rw [hmiddle] at hmid
  rw [hvalue]
  refine ⟨by omega, by omega, ?_⟩
  exact Nat.dvd_add (Dvd.dvd.mul_right (by norm_num) _) (low_bits_cleared x)

/-! ### The secret scalar -/

/-- **No clamped scalar is a multiple of the order**: the order is prime to 8, so it would
divide a number between `0` and `2^252`. -/
lemma not_dvd_of_clamped {n : ℕ} (hpos : 2 ^ 254 ≤ n) (hlt : n < 2 ^ 255) (h8 : 8 ∣ n) :
    ¬curveOrder ∣ n := by
  obtain ⟨m, rfl⟩ := h8
  intro hdvd
  have hm : curveOrder ∣ m := cofactor_coprime.symm.dvd_of_dvd_mul_left hdvd
  have hle := Nat.le_of_dvd (by omega) hm
  simp only [curveOrder] at hle
  omega

lemma secretScalar_spec (sk : Bytes) :
    1 ≤ N.secretScalar sk ∧ N.secretScalar sk < curveOrder := by
  obtain ⟨hge, hlt, h8⟩ := N.clampedScalar_spec sk
  refine ⟨Nat.one_le_iff_ne_zero.mpr fun h0 => ?_, Nat.mod_lt _ curveOrder_prime.pos⟩
  exact not_dvd_of_clamped hge hlt h8 (Nat.dvd_of_mod_eq_zero h0)

lemma primeSubgroup_publicPoint (sk : Bytes) : PrimeSubgroup (N.publicPoint sk) :=
  N.base_primeSubgroup.nsmul (N.secretScalar_spec sk).1 (N.secretScalar_spec sk).2

/-- The scalar and the point of a seed are what `deriveScalar` returns. -/
lemma deriveScalar_eq {sk : Bytes} (hsk : sk.length = 32) :
    N.deriveScalar sk = .ok ⟨N.secretScalar sk, N.publicPoint sk⟩ := by
  obtain ⟨hpos, hlt⟩ := N.secretScalar_spec sk
  have hY : N.multiply N.base (N.secretScalar sk) = .ok (N.publicPoint sk) :=
    N.multiply_eq N.base _ hpos hlt
  rw [deriveScalar, if_neg (not_not.mpr hsk)]
  change (N.multiply N.base (N.secretScalar sk) >>= fun Y => _) = _
  rw [hY, ok_bind]
  rfl

/-- What the key of a seed is good for: the clamped scalar has the shape of RFC 8032, its
reduction is a scalar that the library accepts, `deriveScalar` and `publicKeyFromSeed`
return it and its point, the point is the one of the unreduced scalar, and its encoding
passes what the verifier checks of a key: the length, the decoding and the gate. -/
structure UsableKey (sk : Bytes) : Prop where
  clamped_ge : 2 ^ 254 ≤ N.clampedScalar sk
  clamped_lt : N.clampedScalar sk < 2 ^ 255
  clamped_dvd : 8 ∣ N.clampedScalar sk
  scalar_ge : 1 ≤ N.clampedScalar sk % curveOrder
  scalar_le : N.clampedScalar sk % curveOrder ≤ curveOrder - 1
  derives : N.deriveScalar sk = .ok ⟨N.clampedScalar sk % curveOrder, N.publicPoint sk⟩
  point : N.publicPoint sk = (N.clampedScalar sk % curveOrder) • N.base
  point_clamped : N.publicPoint sk = N.clampedScalar sk • N.base
  ne_zero : N.publicPoint sk ≠ 0
  torsion : curveOrder • N.publicPoint sk = 0
  publicKey : N.publicKeyFromSeed sk = .ok (N.toBytes (N.publicPoint sk))
  length : (N.toBytes (N.publicPoint sk)).length = ptLen
  decodes : N.fromBytes (N.toBytes (N.publicPoint sk)) = .ok (N.publicPoint sk)
  gate : N.failsGate (N.publicPoint sk) = false

lemma usableKey {sk : Bytes} (hsk : sk.length = 32) : N.UsableKey sk where
  clamped_ge := (N.clampedScalar_spec sk).1
  clamped_lt := (N.clampedScalar_spec sk).2.1
  clamped_dvd := (N.clampedScalar_spec sk).2.2
  scalar_ge := (N.secretScalar_spec sk).1
  scalar_le := Nat.le_sub_one_of_lt (N.secretScalar_spec sk).2
  derives := N.deriveScalar_eq hsk
  point := rfl
  point_clamped := PrimeOrder.nsmul_mod N.base_torsion _
  ne_zero := (N.primeSubgroup_publicPoint sk).ne_zero
  torsion := (N.primeSubgroup_publicPoint sk).torsion
  publicKey := by
    rw [publicKeyFromSeed, N.deriveScalar_eq hsk]
    rfl
  length := N.toBytes_length _
  decodes := N.fromBytes_toBytes _
  gate := (N.gates_iff _).mpr (N.primeSubgroup_publicPoint sk)

/-! ### The prover -/

/-- What the prover does with the key of a seed on an input: `Γ = x·H` is computed and
passes the gate of the verifier, both integers of the proof fit, and it fails exactly when
no counter qualifies or the nonce of the point found is `0`. -/
structure ProverRuns (sk alpha : Bytes) : Prop where
  gamma : ∀ H, N.encodeToCurveTAI (N.toBytes (N.publicPoint sk)) alpha = .ok H →
    N.multiply H (N.secretScalar sk) = .ok (N.secretScalar sk • H) ∧
      N.failsGate (N.secretScalar sk • H) = false
  challenge_fits : ∀ Y H Gamma U V, ∃ b,
    bigIntToBytesLE (N.challengeGeneration Y H Gamma U V) cLen = .ok b
  response_fits : ∀ k c : ℕ, ∃ b,
    bigIntToBytesLE ((k + c * N.secretScalar sk) % curveOrder : ℕ) qLen = .ok b
  fails_iff : (∃ e, N.proveVRF sk alpha = .error e) ↔
    (∀ ctr ≤ 255, ∀ P, ¬N.Qualifies (N.toBytes (N.publicPoint sk)) alpha ctr P) ∨
      ∃ H, N.encodeToCurveTAI (N.toBytes (N.publicPoint sk)) alpha = .ok H ∧
        N.generateNonce sk (N.toBytes H) = .ok 0

lemma challenge_returns (Y H Gamma U V : Point) :
    ∃ b, bigIntToBytesLE (N.challengeGeneration Y H Gamma U V) cLen = .ok b :=
  (bigIntToBytesLE_returns_iff _ _).mpr (N.challengeGeneration_lt Y H Gamma U V)

lemma response_returns (n : ℕ) : ∃ b, bigIntToBytesLE (n % curveOrder : ℕ) qLen = .ok b :=
  (bigIntToBytesLE_returns_iff _ _).mpr
    ((Nat.mod_lt n curveOrder_prime.pos).trans curveOrder_lt_pow_qLen)

/-- The nonce of a seed is a residue. -/
lemma exists_nonce {sk : Bytes} (hsk : sk.length = 32) (hString : Bytes) :
    ∃ k < curveOrder, N.generateNonce sk hString = .ok k :=
  ⟨_, Nat.mod_lt _ curveOrder_prime.pos, if_neg (not_not.mpr hsk)⟩

/-- With a point and a nonce in `[1, q-1]` every step of the prover returns. -/
lemma proveVRF_returns {sk alpha : Bytes} {H : Point} {k : ℕ} (hsk : sk.length = 32)
    (hH : N.encodeToCurveTAI (N.toBytes (N.publicPoint sk)) alpha = .ok H)
    (hk : N.generateNonce sk (N.toBytes H) = .ok k) (h1 : 1 ≤ k) (hlt : k < curveOrder) :
    ∃ r, N.proveVRF sk alpha = .ok r := by
  obtain ⟨hpos, hq⟩ := N.secretScalar_spec sk
  obtain ⟨cBytes, hc⟩ := N.challenge_returns (N.publicPoint sk) H (N.secretScalar sk • H)
    (k • N.base) (k • H)
  obtain ⟨sBytes, hs⟩ := response_returns (k + N.challengeGeneration (N.publicPoint sk) H
    (N.secretScalar sk • H) (k • N.base) (k • H) * N.secretScalar sk)
  simp only [proveVRF, N.deriveScalar_eq hsk, ok_bind, hH, N.multiply_eq H _ hpos hq, hk,
    N.multiply_eq N.base k h1 hlt, N.multiply_eq H k h1 hlt, hc, hs]
  exact ⟨_, rfl⟩

/-- The nonce `0` is where the library throws. -/
lemma proveVRF_throws_of_nonce_zero {sk alpha : Bytes} {H : Point} (hsk : sk.length = 32)
    (hH : N.encodeToCurveTAI (N.toBytes (N.publicPoint sk)) alpha = .ok H)
    (hk : N.generateNonce sk (N.toBytes H) = .ok 0) : ∃ e, N.proveVRF sk alpha = .error e := by
  obtain ⟨hpos, hq⟩ := N.secretScalar_spec sk
  obtain ⟨e, he⟩ := N.multiply_throws N.base 0 (by simp)
  simp only [proveVRF, N.deriveScalar_eq hsk, ok_bind, hH, N.multiply_eq H _ hpos hq, hk, he]
  exact ⟨e, rfl⟩

lemma proverRuns {sk : Bytes} (hsk : sk.length = 32) (alpha : Bytes) : N.ProverRuns sk alpha where
  gamma H hH := by
    obtain ⟨hpos, hq⟩ := N.secretScalar_spec sk
    have hGamma := (N.primeSubgroup_of_encodeToCurveTAI hH).nsmul hpos hq
    exact ⟨N.multiply_eq H _ hpos hq, (N.gates_iff _).mpr hGamma⟩
  challenge_fits := N.challenge_returns
  response_fits k c := response_returns _
  fails_iff := by
    rw [← encodeToCurveTAI_throws_iff]
    cases hH : N.encodeToCurveTAI (N.toBytes (N.publicPoint sk)) alpha with
    | error e =>
        refine iff_of_true ⟨e, ?_⟩ (.inl ⟨e, rfl⟩)
        simp only [proveVRF, N.deriveScalar_eq hsk, ok_bind, hH]
        rfl
    | ok H =>
        obtain ⟨k, hlt, hk⟩ := N.exists_nonce hsk (N.toBytes H)
        rcases Nat.eq_zero_or_pos k with rfl | hpos
        · exact iff_of_true (N.proveVRF_throws_of_nonce_zero hsk hH hk) (.inr ⟨H, rfl, hk⟩)
        · obtain ⟨r, hr⟩ := N.proveVRF_returns hsk hH hk hpos hlt
          refine iff_of_false ?_ ?_
          · rintro ⟨e, he⟩
            rw [hr] at he
            cases he
          · rintro (⟨e, he⟩ | ⟨H', hH', hzero⟩)
            · cases he
            · cases hH'
              rw [hk] at hzero
              cases hzero
              exact absurd hpos (lt_irrefl 0)

/-- **Every seed gives a usable key**, whatever SHA-512 makes of it; and with that key the
prover fails on an input only when no counter qualifies for a curve point or when the
nonce is `0`. -/
theorem seed_usable (N : Noble Point) (sk : ByteVec 32) :
    N.UsableKey sk.val ∧ ∀ alpha, N.ProverRuns sk.val alpha :=
  ⟨N.usableKey sk.property, N.proverRuns sk.property⟩

end Noble

end CcVrf
