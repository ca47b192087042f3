import CcVrf.Library.Lucas

/-!
The constants of the suite ECVRF-EDWARDS25519-SHA512-TAI (`suite.ts`), and the
primality of the group order.

`curveOrder` is the order `n` that the curve library reports for Ed25519. Its
primality is certified by a chain of Lucas tests (`Lucas.prime_of_certified`), one
for each large prime factor that turns up on the way down.
-/

namespace CcVrf

/-- `SUITE_STRING`. -/
def suiteString : UInt8 := 0x03

/-- `PT_LEN`, the bytes of a point. -/
def ptLen : ℕ := 32

/-- `Q_LEN`, the bytes of a scalar. -/
def qLen : ℕ := 32

/-- `C_LEN`, the bytes of a challenge. -/
def cLen : ℕ := 16

/-- `PROOF_LEN`. -/
def proofLen : ℕ := ptLen + cLen + qLen

/-- `HASH_LEN`, the bytes of a SHA-512 output. -/
def hashLen : ℕ := 64

/-- `COFACTOR`. -/
def cofactor : ℕ := 8

/-- `CURVE_ORDER`, the order `q` of the base point. -/
def curveOrder : ℕ := 2 ^ 252 + 27742317777372353535851937790883648493

/-- `ENCODE_TO_CURVE_DST_FRONT`. -/
def encodeToCurveDstFront : UInt8 := 0x01

/-- `ENCODE_TO_CURVE_DST_BACK`. -/
def encodeToCurveDstBack : UInt8 := 0x00

/-- `CHALLENGE_DST_FRONT`. -/
def challengeDstFront : UInt8 := 0x02

/-- `CHALLENGE_DST_BACK`. -/
def challengeDstBack : UInt8 := 0x00

/-- `PROOF_TO_HASH_DST_FRONT`. -/
def proofToHashDstFront : UInt8 := 0x03

/-- `PROOF_TO_HASH_DST_BACK`. -/
def proofToHashDstBack : UInt8 := 0x00

/-! ### The group order is prime -/

/-- The small prime factors that turn up. -/
def smallPrimes : List ℕ :=
  [2, 3, 5, 7, 11, 23, 41, 43, 73, 269, 307, 1361, 2851, 5879, 30703, 82163, 132667, 137849, 531581,
    1224481, 14741173]

/-- The large ones, with the order itself at the end. -/
def curveOrderCertificates : List Lucas.Certificate :=
  [⟨292386187, 30, 2, [2, 3, 3, 3, 3, 307, 5879]⟩,
    ⟨213441916511, 40, 13, [2, 5, 73, 292386187]⟩,
    ⟨1257559732178653, 60, 2, [2, 2, 3, 7, 23, 531581, 1224481]⟩,
    ⟨4434155615661930479, 64, 17, [2, 41, 43, 1257559732178653]⟩,
    ⟨172054593956031949258510691, 90, 2, [2, 5, 1361, 2851, 4434155615661930479]⟩,
    ⟨19757330305831588566944191468367130476339, 140, 2,
      [2, 269, 213441916511, 172054593956031949258510691]⟩,
    ⟨276602624281642239937218680557139826668747, 140, 2,
      [2, 7, 19757330305831588566944191468367130476339]⟩,
    ⟨58964693, 30, 2, [2, 2, 14741173]⟩,
    ⟨3044861653679985063343, 80, 5, [2, 3, 11, 30703, 82163, 132667, 137849]⟩,
    ⟨198211423230930754013084525763697, 110, 5,
      [2, 2, 2, 2, 3, 23, 58964693, 3044861653679985063343]⟩,
    ⟨curveOrder, 256, 2,
      [2, 2, 3, 11, 198211423230930754013084525763697, 276602624281642239937218680557139826668747]⟩]

/-- **The order of the base point is prime.** -/
theorem curveOrder_prime : Nat.Prime curveOrder := by
  have hsmall : ∀ p ∈ smallPrimes, p.Prime := by
    simp only [smallPrimes, List.forall_mem_cons]
    norm_num
  have hchain : Lucas.certified smallPrimes curveOrderCertificates = true := by decide +kernel
  exact Lucas.prime_of_certified hsmall hchain _ (List.getLast_mem (by decide))

instance : Fact curveOrder.Prime := ⟨curveOrder_prime⟩

lemma pow_cLen : 256 ^ cLen = 2 ^ 128 := by
  rw [cLen]
  norm_num

/-- A challenge of `cLen` bytes is below the group order. -/
lemma pow_cLen_lt_curveOrder : 256 ^ cLen < curveOrder := by
  simp only [cLen, curveOrder]
  norm_num

/-- A reduced scalar fits in `qLen` bytes. -/
lemma curveOrder_lt_pow_qLen : curveOrder < 256 ^ qLen := by
  simp only [qLen, curveOrder]
  norm_num

end CcVrf
