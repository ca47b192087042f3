import CcVrf.Ecvrf.Vrf

/-!
The proofs that the verifier accepts for one key and one input.

* `accepts_proofWithNonce`: with the secret scalar, every nonce gives an accepted
  proof, the nonce `0` included, which the honest prover refuses.
* `accepts_honestGamma_iff`: the accepted proofs with `Γ = x·H` are exactly
  these, one for each nonce below `q` (`proofWithNonce_injOn`).
* `proveVRF_complete`: the honest prover's proofs are accepted and have an
  output.
* `uniqueProof_iff`: a key and an input have at most one accepted proof exactly
  when the verifier accepts none for them, because the key fails a gate or the
  search for a curve point fails.
-/

namespace CcVrf

namespace Noble

variable {Point : Type} [AddCommGroup Point] (N : Noble Point)

/-! ### One accepted proof for each nonce -/

/-- The challenge of the proof with nonce `k`. -/
def nonceChallenge (x k : ℕ) (H : Point) : ℕ :=
  N.challengeGeneration (x • N.base) H (x • H) (k • N.base) (k • H)

/-- The proof with nonce `k` satisfies the verification equation. -/
lemma verifies_nonce (x k : ℕ) {H : Point} (hH : PrimeSubgroup H) :
    N.Verifies (x • N.base) H (x • H) (N.nonceChallenge x k H)
      (PrimeOrder.response curveOrder x k (N.nonceChallenge x k H)) := by
  rw [Verifies, PrimeOrder.commitment_response N.base_torsion,
    PrimeOrder.commitment_response hH.torsion, nonceChallenge]

/-- **Every nonce gives an accepted proof**, whoever picks it. -/
theorem accepts_proofWithNonce {pk alpha : Bytes} {x : ℕ} {H : Point} (hx1 : 1 ≤ x)
    (hx : x < curveOrder) (hpk : N.ValidKey pk (x • N.base))
    (hH : N.encodeToCurveTAI pk alpha = .ok H) (k : ℕ) :
    N.Accepts pk alpha (N.proofWithNonce x k H) :=
  have hHsub := N.primeSubgroup_of_encodeToCurveTAI hH
  ⟨x • N.base, H, x • H, _, _, hpk, hH, hHsub.nsmul hx1 hx, N.challengeGeneration_lt _ _ _ _ _,
    PrimeOrder.response_lt curveOrder_prime.pos _ _ _, rfl, N.verifies_nonce x k hHsub⟩

/-- An encoded proof determines what it encodes. -/
lemma encodeProof_inj {Γ Γ' : Point} {c c' s s' : ℕ} (hc : c < 256 ^ cLen)
    (hc' : c' < 256 ^ cLen) (hs : s < curveOrder) (hs' : s' < curveOrder)
    (h : N.encodeProof Γ c s = N.encodeProof Γ' c' s') : Γ = Γ' ∧ c = c' ∧ s = s' := by
  obtain ⟨h1, h2, h3⟩ := N.encodeProof_slices Γ hc (hs.trans curveOrder_lt_pow_qLen)
  obtain ⟨h1', h2', h3'⟩ := N.encodeProof_slices Γ' hc' (hs'.trans curveOrder_lt_pow_qLen)
  rw [h] at h1 h2 h3
  exact ⟨N.toBytes_injective (h1.symm.trans h1'), h2.symm.trans h2', h3.symm.trans h3'⟩

/-- Different nonces below `q` give different proofs. -/
lemma proofWithNonce_injOn {x k k' : ℕ} {H : Point} (hk : k < curveOrder) (hk' : k' < curveOrder)
    (h : N.proofWithNonce x k H = N.proofWithNonce x k' H) : k = k' := by
  have hq := curveOrder_prime.pos
  obtain ⟨-, hc, hs⟩ := N.encodeProof_inj (N.challengeGeneration_lt _ _ _ _ _)
    (N.challengeGeneration_lt _ _ _ _ _) (PrimeOrder.response_lt hq _ _ _)
    (PrimeOrder.response_lt hq _ _ _) h
  rw [hc] at hs
  exact PrimeOrder.response_inj hk hk' hs

/-- **The accepted proofs with the honest `Γ`** are the proofs with a nonce below
`q`. -/
theorem accepts_honestGamma_iff {pk alpha : Bytes} {x : ℕ} {H : Point} (hx1 : 1 ≤ x)
    (hx : x < curveOrder) (hpk : N.ValidKey pk (x • N.base))
    (hH : N.encodeToCurveTAI pk alpha = .ok H) (proof : Bytes) :
    (N.Accepts pk alpha proof ∧ slice proof 0 ptLen = N.toBytes (x • H)) ↔
      ∃ k < curveOrder, proof = N.proofWithNonce x k H := by
  have hq := curveOrder_prime.pos
  have hHsub := N.primeSubgroup_of_encodeToCurveTAI hH
  constructor
  · rintro ⟨⟨Y, H', Γ, c, s, hY, hH', -, hc, hs, rfl, heq⟩, hslice⟩
    rw [(N.encodeProof_slices Γ hc (hs.trans curveOrder_lt_pow_qLen)).1] at hslice
    obtain rfl : Γ = x • H := N.toBytes_injective hslice
    obtain rfl : H = H' := Except.ok.inj (hH.symm.trans hH')
    obtain rfl : x • N.base = Y := Except.ok.inj (hpk.1.symm.trans hY.1)
    obtain ⟨k, hk, hks⟩ := PrimeOrder.exists_nonce hq x c hs
    refine ⟨k, hk, ?_⟩
    rw [Verifies, ← hks, PrimeOrder.commitment_response N.base_torsion,
      PrimeOrder.commitment_response hHsub.torsion] at heq
    simp only [proofWithNonce, ← heq, hks]
  · rintro ⟨k, -, rfl⟩
    refine ⟨N.accepts_proofWithNonce hx1 hx hpk hH k, ?_⟩
    exact (N.encodeProof_slices (x • H) (N.challengeGeneration_lt _ _ _ _ _)
      ((PrimeOrder.response_lt hq _ _ _).trans curveOrder_lt_pow_qLen)).1

/-! ### Completeness of the honest prover -/

/-- **Completeness**: whenever the prover returns, its proof has 80 bytes, the
verifier accepts it under the public key of the seed, and it has an output. -/
theorem proveVRF_complete {sk alpha : Bytes} {r : ProveResult}
    (h : N.proveVRF sk alpha = .ok r) :
    r.proof.length = 80 ∧
      (∃ pk, N.publicKeyFromSeed sk = .ok pk ∧ N.verifyVRF pk alpha r.proof = .ok true) ∧
      ∃ beta, N.vrfProofToHash r.proof = .ok beta := by
  obtain ⟨x, k, H, hderive, hx1, hx, -, -, hH, rfl⟩ := N.proveVRF_eq_ok h
  have hkey : N.ValidKey (N.toBytes (x • N.base)) (x • N.base) :=
    ⟨N.fromBytes_toBytes _, N.base_primeSubgroup.nsmul hx1 hx⟩
  have hacc := N.accepts_proofWithNonce hx1 hx hkey hH k
  refine ⟨N.encodeProof_length _ _ _, ⟨N.toBytes (x • N.base), ?_, ?_⟩, hacc.vrfProofToHash⟩
  · rw [publicKeyFromSeed, hderive]
    rfl
  · exact (N.verifyVRF_eq_true_iff _ _ _).mpr hacc

/-- The prover returns on a seed of ones, and completeness applies to its proof. -/
theorem proveVRF_complete_sample :
    ∃ r, sample.proveVRF (List.replicate 32 1) [1, 2, 3] = .ok r ∧ r.proof.length = 80 ∧
      (∃ pk, sample.publicKeyFromSeed (List.replicate 32 1) = .ok pk ∧
        sample.verifyVRF pk [1, 2, 3] r.proof = .ok true) ∧
      ∃ beta, sample.vrfProofToHash r.proof = .ok beta := by
  have hok : (sample.proveVRF (List.replicate 32 1) [1, 2, 3]).isOk = true := by decide +kernel
  obtain ⟨r, hr⟩ := ok_of_isOk hok
  exact ⟨r, hr, sample.proveVRF_complete hr⟩

/-! ### The number of accepted proofs -/

/-- At most one string of 80 bytes is accepted for the key and the input. -/
def UniqueProof (pk alpha : Bytes) : Prop :=
  ∀ proof₁ proof₂ : Bytes, proof₁.length = 80 → proof₂.length = 80 →
    N.verifyVRF pk alpha proof₁ = .ok true → N.verifyVRF pk alpha proof₂ = .ok true →
      proof₁ = proof₂

/-- **Uniqueness fails for every usable key**: there is at most one accepted proof
exactly when the key fails a gate or the input hashes to no point, so that there
is none. -/
theorem uniqueProof_iff (pk alpha : Bytes) :
    N.UniqueProof pk alpha ↔
      ¬((∃ Y, N.ValidKey pk Y) ∧ ∃ H, N.encodeToCurveTAI pk alpha = .ok H) := by
  constructor
  · rintro huniq ⟨⟨Y, hY⟩, ⟨H, hH⟩⟩
    obtain ⟨x, hx1, hx, rfl⟩ := hY.2.exists_scalar N
    have haccept : ∀ k, N.verifyVRF pk alpha (N.proofWithNonce x k H) = .ok true := fun k =>
      (N.verifyVRF_eq_true_iff _ _ _).mpr (N.accepts_proofWithNonce hx1 hx hY hH k)
    have h01 := huniq _ _ (N.encodeProof_length _ _ _) (N.encodeProof_length _ _ _)
      (haccept 0) (haccept 1)
    exact absurd (N.proofWithNonce_injOn curveOrder_prime.pos curveOrder_prime.one_lt h01)
      zero_ne_one
  · intro hnone proof₁ proof₂ _ _ h₁ _
    obtain ⟨Y, H, Γ, c, s, hY, hH, -⟩ := (N.verifyVRF_eq_true_iff _ _ _).mp h₁
    exact absurd ⟨⟨Y, hY⟩, ⟨H, hH⟩⟩ hnone

/-- The point that the input `[7]` hashes to under the key with scalar `5`. -/
def samplePoint : Residue :=
  (52239494432874754643424658269059129987358210393095981360241236831537716749928 : ℕ)

/-- The search finds the point on the input `[7]` under the key with scalar `5`. -/
lemma encodeToCurveTAI_samplePoint :
    sample.encodeToCurveTAI (sample.toBytes (5 • sample.base)) [7] = .ok samplePoint := by
  decide +kernel

/-- So the holder of the key has an accepted proof for each nonce. -/
lemma verifyVRF_samplePoint (k : ℕ) : sample.verifyVRF (sample.toBytes (5 • sample.base)) [7]
    (sample.proofWithNonce 5 k samplePoint) = .ok true := by
  have hlt : 5 < curveOrder := by decide +kernel
  have hkey : sample.ValidKey (sample.toBytes (5 • sample.base)) (5 • sample.base) :=
    ⟨sample.fromBytes_toBytes _, sample.base_primeSubgroup.nsmul (by decide) hlt⟩
  exact (sample.verifyVRF_eq_true_iff _ _ _).mpr
    (sample.accepts_proofWithNonce (by decide) hlt hkey encodeToCurveTAI_samplePoint k)

/-- A key holder with the secret scalar `5` has two accepted proofs for one input,
made with the nonces `1` and `2`. -/
theorem not_uniqueProof_sample :
    ¬∀ pk alpha : Bytes, pk.length = 32 → sample.UniqueProof pk alpha := by
  intro h
  have heq : sample.proofWithNonce 5 1 samplePoint = sample.proofWithNonce 5 2 samplePoint :=
    h (sample.toBytes (5 • sample.base)) [7] (sample.toBytes_length _) _ _
      (sample.encodeProof_length _ _ _) (sample.encodeProof_length _ _ _)
      (verifyVRF_samplePoint 1) (verifyVRF_samplePoint 2)
  exact absurd (sample.proofWithNonce_injOn curveOrder_prime.one_lt (by decide +kernel) heq)
    (by decide)

end Noble

end CcVrf
