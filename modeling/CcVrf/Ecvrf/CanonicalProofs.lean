import CcVrf.Ecvrf.AcceptedProofs
import CcVrf.Ecvrf.HashInputs

/-!
Accepted proofs are canonical, and their outputs are told apart by `Γ`
(`packages/ecvrf/src/verify.ts`, `proofToHash.ts`).

* `DecodesTo`: what the slices of a byte string decode to, whatever its length;
  `CanonicalProof`: it decodes to values in range and is their encoding.
* `Hashes`: the string that `vrfProofToHash` hashes, found by exchanging the hash function;
  a proof has at most one (`hashes_unique`).
* `verifyVRF_of_other_bytes`: a second string that decodes to the `Γ`, the challenge and,
  modulo the order, the response of a canonical proof is rejected.
* `accepted_canonical`: **an accepted proof is canonical, it alone is accepted for what it
  decodes to, and its output is there and hashes a string of its own for each `Γ`.**
-/

namespace CcVrf

namespace Noble

variable {Point : Type} [AddCommGroup Point] (N : Noble Point)

/-- The three slices of the string decode to `Γ`, `c` and `s`. -/
structure DecodesTo (proof : Bytes) (Gamma : Point) (c s : ℕ) : Prop where
  gamma : N.fromBytes (slice proof 0 ptLen) = .ok Gamma
  challenge : bytesToBigIntLE (slice proof ptLen (ptLen + cLen)) = c
  response : bytesToBigIntLE (slice proof (ptLen + cLen) proofLen) = s

/-- The string decodes to a point of the prime-order subgroup, a challenge below `2^128`
and a response below `q`, and it is `Γ.toBytes() || LE16(c) || LE32(s)`. -/
structure CanonicalProof (proof : Bytes) (Gamma : Point) (c s : ℕ) : Prop where
  decodes : N.DecodesTo proof Gamma c s
  gamma : PrimeSubgroup Gamma
  challenge : c < 2 ^ 128
  response : s < curveOrder
  encoded : ∃ cBytes sBytes, bigIntToBytesLE c 16 = .ok cBytes ∧
    bigIntToBytesLE s 32 = .ok sBytes ∧ proof = N.toBytes Gamma ++ cBytes ++ sBytes

/-- `vrfProofToHash` hashes the string `input`: with any function in place of SHA-512 it
returns the hash of `input`. -/
def Hashes (proof input : Bytes) : Prop :=
  ∀ sha512 : Bytes → ByteVec 64,
    { N with sha512 := sha512 }.vrfProofToHash proof = .ok (sha512 input).val

variable {N} {proof proof' input input' : Bytes} {Gamma Gamma' : Point} {c c' s s' : ℕ}

/-! ### One string for each decoded triple -/

lemma DecodesTo.unique (h : N.DecodesTo proof Gamma c s) (h' : N.DecodesTo proof Gamma' c' s') :
    Gamma = Gamma' ∧ c = c' ∧ s = s' :=
  ⟨Except.ok.inj (h.gamma.symm.trans h'.gamma), h.challenge.symm.trans h'.challenge,
    h.response.symm.trans h'.response⟩

/-- A string of the proof length that decodes is the encoding of what it decodes to. -/
lemma DecodesTo.eq_encodeProof (h : N.DecodesTo proof Gamma c s)
    (hlen : proof.length = proofLen) : proof = N.encodeProof Gamma c s := by
  obtain ⟨hGamma, rfl, rfl⟩ := h
  exact N.eq_encodeProof_of_decoded hlen hGamma

/-- An encoded proof with values in range is canonical. -/
lemma canonicalProof_encodeProof (hGamma : PrimeSubgroup Gamma) (hc : c < 256 ^ cLen)
    (hs : s < curveOrder) : N.CanonicalProof (N.encodeProof Gamma c s) Gamma c s := by
  have hsfit := hs.trans curveOrder_lt_pow_qLen
  obtain ⟨h1, h2, h3⟩ := N.encodeProof_slices Gamma hc hsfit
  have hdecodes : N.DecodesTo (N.encodeProof Gamma c s) Gamma c s :=
    ⟨by rw [h1, N.fromBytes_toBytes], h2, h3⟩
  exact ⟨hdecodes, hGamma, hc.trans_eq pow_cLen, hs, _, _, bigIntToBytesLE_of_lt hc,
    bigIntToBytesLE_of_lt hsfit, rfl⟩

/-- An accepted proof is canonical for some values. -/
lemma Accepts.canonical {pk alpha : Bytes} (h : N.Accepts pk alpha proof) :
    ∃ Gamma c s, N.CanonicalProof proof Gamma c s := by
  obtain ⟨Y, H, Gamma, c, s, -, -, hGamma, hc, hs, rfl, -⟩ := h
  exact ⟨Gamma, c, s, canonicalProof_encodeProof hGamma hc hs⟩

lemma CanonicalProof.length (h : N.CanonicalProof proof Gamma c s) : proof.length = proofLen := by
  obtain ⟨cBytes, sBytes, hcBytes, hsBytes, rfl⟩ := h.encoded
  obtain ⟨hclen, -⟩ := (bigIntToBytesLE_eq_ok_iff _ _ _).mp hcBytes
  obtain ⟨hslen, -⟩ := (bigIntToBytesLE_eq_ok_iff _ _ _).mp hsBytes
  rw [List.length_append, List.length_append, N.toBytes_length, hclen, hslen]
  rfl

lemma CanonicalProof.eq_encodeProof (h : N.CanonicalProof proof Gamma c s) :
    proof = N.encodeProof Gamma c s :=
  h.decodes.eq_encodeProof h.length

/-- **No second string**: another length is rejected by the first check, another response
with the same residue by the range check, and what is left is the string itself. -/
lemma verifyVRF_of_other_bytes (h : N.CanonicalProof proof Gamma c s)
    (h' : N.DecodesTo proof' Gamma c s') (hs' : s' ≡ s [MOD curveOrder]) (hne : proof' ≠ proof)
    (pk alpha : Bytes) : N.verifyVRF pk alpha proof' = .ok false := by
  by_contra hnot
  obtain ⟨-, Gamma₁, c₁, s₁, -, hGamma₁, hc₁, hs₁, rfl⟩ := N.verifyVRF_gates hnot
  obtain ⟨rfl, rfl, rfl⟩ := (canonicalProof_encodeProof hGamma₁ hc₁ hs₁).decodes.unique h'
  obtain rfl : s₁ = s := Nat.ModEq.eq_of_lt_of_lt hs' hs₁ h.response
  exact hne h.eq_encodeProof.symm

/-- The gates are behind the length check. -/
lemma verifyVRF_of_length_ne (hlen : proof.length ≠ 80) (pk alpha : Bytes) :
    N.verifyVRF pk alpha proof = .ok false :=
  if_pos hlen

/-! ### The hashed string -/

/-- The string that the output of a canonical proof hashes. -/
lemma CanonicalProof.hashes (h : N.CanonicalProof proof Gamma c s) :
    N.Hashes proof (N.proofToHashInput (cofactor • Gamma)) := by
  intro sha512
  rw [h.eq_encodeProof]
  exact vrfProofToHash_encodeProof { N with sha512 := sha512 } h.gamma
    (h.challenge.trans_eq pow_cLen.symm) h.response

/-- Two hash functions tell two strings apart. -/
lemma hashes_unique (h : N.Hashes proof input) (h' : N.Hashes proof input') : input = input' := by
  by_contra hne
  obtain ⟨sha512, hsha512⟩ : ∃ f : Bytes → ByteVec 64, (f input).val ≠ (f input').val :=
    ⟨fun b => ⟨List.replicate 64 (if b = input then 0 else 1), by simp⟩, by simp [Ne.symm hne]⟩
  exact hsha512 (Except.ok.inj ((h sha512).symm.trans (h' sha512)))

/-- The strings of two canonical proofs agree exactly when the points do: the cofactor is
invertible modulo the order. -/
lemma CanonicalProof.hashes_eq_iff (h : N.CanonicalProof proof Gamma c s)
    (h' : N.CanonicalProof proof' Gamma' c' s') (hinput : N.Hashes proof input)
    (hinput' : N.Hashes proof' input') : input = input' ↔ Gamma = Gamma' := by
  rw [hashes_unique hinput h.hashes, hashes_unique hinput' h'.hashes]
  constructor
  · intro heq
    exact PrimeOrder.nsmul_inj_of_coprime cofactor_coprime h.gamma.torsion h'.gamma.torsion
      (N.proofToHashInput_inj heq)
  · rintro rfl
    rfl

/-! ### Accepted proofs -/

/-- **Accepted proofs are canonical** and have a well-defined output. `vrfProofToHash`
returns on an accepted proof, and the proof is the encoding of what it decodes to, with `Γ`
in the prime-order subgroup and both scalars in range. Under no key and input is a second
string accepted that decodes to the same point, challenge and residue of the response, nor
is one of another length. Of any two accepted proofs, the strings hashed for the output
are equal exactly when their `Γ` are. -/
theorem accepted_canonical {pk alpha proof : Bytes} (h : N.verifyVRF pk alpha proof = .ok true) :
    (∃ beta, N.vrfProofToHash proof = .ok beta) ∧
    ∃ Gamma c s, N.CanonicalProof proof Gamma c s ∧
      (∀ pk' alpha' proof' s', N.DecodesTo proof' Gamma c s' → s' ≡ s [MOD curveOrder] →
        proof' ≠ proof → N.verifyVRF pk' alpha' proof' = .ok false) ∧
      (∀ pk' alpha' proof', proof'.length ≠ 80 → N.verifyVRF pk' alpha' proof' = .ok false) ∧
      (∃ input, N.Hashes proof input) ∧
      ∀ pk' alpha' proof' Gamma' c' s', N.verifyVRF pk' alpha' proof' = .ok true →
        N.DecodesTo proof' Gamma' c' s' → ∀ input input', N.Hashes proof input →
          N.Hashes proof' input' → (input = input' ↔ Gamma = Gamma') := by
  have hacc := (N.verifyVRF_eq_true_iff _ _ _).mp h
  obtain ⟨Gamma, c, s, hcanon⟩ := hacc.canonical
  refine ⟨hacc.vrfProofToHash, Gamma, c, s, hcanon, ?_, ?_, ⟨_, hcanon.hashes⟩, ?_⟩
  · intro pk' alpha' proof' s' hdecodes hmod hne
    exact verifyVRF_of_other_bytes hcanon hdecodes hmod hne pk' alpha'
  · intro pk' alpha' proof' hlen
    exact verifyVRF_of_length_ne hlen pk' alpha'
  · intro pk' alpha' proof' Gamma' c' s' h' hdecodes' input input' hinput hinput'
    obtain ⟨Gamma₁, c₁, s₁, hcanon'⟩ := ((N.verifyVRF_eq_true_iff _ _ _).mp h').canonical
    obtain ⟨rfl, -, -⟩ := hcanon'.decodes.unique hdecodes'
    exact hcanon.hashes_eq_iff hcanon' hinput hinput'

/-- The proof with the nonce `1` of the key with scalar `5` is accepted, canonical and
hashes a string. -/
theorem accepted_canonical_sample :
    ∃ Gamma c s, sample.CanonicalProof (sample.proofWithNonce 5 1 samplePoint) Gamma c s ∧
      ∃ input, sample.Hashes (sample.proofWithNonce 5 1 samplePoint) input := by
  obtain ⟨-, Gamma, c, s, hcanon, -, -, hinput, -⟩ :=
    accepted_canonical (verifyVRF_samplePoint 1)
  exact ⟨Gamma, c, s, hcanon, hinput⟩

end Noble

end CcVrf
