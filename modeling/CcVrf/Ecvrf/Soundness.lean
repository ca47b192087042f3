import CcVrf.Ecvrf.AcceptedProofs

/-!
Special soundness of the verification equations: how many challenges fit one pair of
recomputed points.

The pair is `recomputed`, the part of the verifier with its four guarded multiplications:
`verifyVRF_eq_recomputed` is the verifier in terms of it.

* `special_soundness`: **for a `Γ` other than `x·H` at most one challenge fits a pair of
  points**, so two transcripts with one pair and different challenges have the honest
  prover's `Γ` and output.
-/

namespace CcVrf

namespace Noble

variable {Point : Type} [AddCommGroup Point] (N : Noble Point)

/-- The discrete logarithm of a key is determined modulo the order, so its multiples of
a point of the subgroup are too. -/
lemma nsmul_eq_of_base {x x' : ℕ} (h : x • N.base = x' • N.base) {H : Point}
    (hH : PrimeSubgroup H) : x • H = x' • H := by
  rw [nsmul_eq_nsmul_iff_modEq, addOrderOf_eq_prime N.base_torsion N.base_ne_zero] at h
  exact PrimeOrder.nsmul_congr hH.torsion h

/-- The output of the honest prover's proof is the output of every encoded proof with
`Γ = x·H`. -/
lemma vrfProofToHash_honest {pk alpha sk : Bytes} {x : ℕ} {H : Point} {r : ProveResult}
    (hY : N.fromBytes pk = .ok (x • N.base)) (hH : N.encodeToCurveTAI pk alpha = .ok H)
    (hpk : N.publicKeyFromSeed sk = .ok pk) (hr : N.proveVRF sk alpha = .ok r)
    (hGamma : PrimeSubgroup (x • H)) {c s : ℕ} (hc : c < 256 ^ cLen) (hs : s < curveOrder) :
    N.vrfProofToHash (N.encodeProof (x • H) c s) = N.vrfProofToHash r.proof := by
  obtain ⟨x', k, H', hderive, -, -, -, -, hH', rfl⟩ := N.proveVRF_eq_ok hr
  -- the seed's key is the given one, so both searches and both logarithms agree
  have hkey : N.toBytes (x' • N.base) = pk := by
    rw [publicKeyFromSeed, hderive] at hpk
    exact Except.ok.inj hpk
  have hbase : x • N.base = x' • N.base := by
    rw [← hkey, N.fromBytes_toBytes] at hY
    exact (Except.ok.inj hY).symm
  obtain rfl : H = H' := by
    rw [hkey, hH] at hH'
    exact Except.ok.inj hH'
  rw [N.nsmul_eq_of_base hbase (N.primeSubgroup_of_encodeToCurveTAI hH)] at hGamma ⊢
  rw [N.vrfProofToHash_encodeProof hGamma hc hs, proofWithNonce,
    N.vrfProofToHash_encodeProof hGamma (N.challengeGeneration_lt _ _ _ _ _)
      (PrimeOrder.response_lt curveOrder_prime.pos _ _ _)]

/-- **Special soundness of the verifier's equations.** Let `pk` decode to `x·B`, let the
input hash to `H`, and let `Γ` pass the gates. Unless `Γ = x·H`, each pair of points is
recomputed for at most one challenge, whatever the answers. Two transcripts with one pair
and different challenges therefore have `Γ = x·H` and the output of the honest prover.
The verifier compares the challenge with that of the recomputed points
(`verifyVRF_eq_recomputed`). A single hash function gives one pair one challenge, so the
transcripts are not asked to be accepted: the equations alone force it. -/
theorem special_soundness {pk alpha : Bytes} {x : ℕ} {H Gamma : Point}
    (hY : N.fromBytes pk = .ok (x • N.base)) (hH : N.encodeToCurveTAI pk alpha = .ok H)
    (hGamma : (N.isSmallOrder Gamma || !N.isTorsionFree Gamma) = false) :
    (Gamma ≠ x • H → ∀ U V : Point, Set.Subsingleton {c : ℕ | c < 2 ^ 128 ∧
      ∃ s < curveOrder, N.recomputed (x • N.base) H Gamma c s = .ok (U, V)}) ∧
    ∀ (c c' s s' : ℕ) (UV : Point × Point), c < 2 ^ 128 → c' < 2 ^ 128 → s < curveOrder →
      s' < curveOrder → c ≠ c' → N.recomputed (x • N.base) H Gamma c s = .ok UV →
      N.recomputed (x • N.base) H Gamma c' s' = .ok UV →
      Gamma = x • H ∧ ∀ sk r, N.publicKeyFromSeed sk = .ok pk → N.proveVRF sk alpha = .ok r →
        N.vrfProofToHash (N.encodeProof Gamma c s) = N.vrfProofToHash r.proof ∧
        N.vrfProofToHash (N.encodeProof Gamma c' s') = N.vrfProofToHash r.proof := by
  have hsub := (N.gates_iff Gamma).mp hGamma
  have hHsub := N.primeSubgroup_of_encodeToCurveTAI hH
  have hshort : ∀ {c : ℕ}, c < 2 ^ 128 → c < curveOrder := fun hc =>
    hc.trans_le (by decide +kernel)
  have hhonest : ∀ {c c' s s' : ℕ} {UV : Point × Point}, c < 2 ^ 128 → c' < 2 ^ 128 →
      s < curveOrder → s' < curveOrder → c ≠ c' →
      N.recomputed (x • N.base) H Gamma c s = .ok UV →
      N.recomputed (x • N.base) H Gamma c' s' = .ok UV → Gamma = x • H := by
    intro c c' s s' UV hc hc' hs hs' hne h h'
    rw [N.recomputed_eq _ _ _ (hshort hc) hs] at h
    rw [N.recomputed_eq _ _ _ (hshort hc') hs'] at h'
    obtain ⟨hU, hV⟩ := Prod.ext_iff.mp (Except.ok.inj (h.trans h'.symm))
    exact PrimeOrder.eq_nsmul_of_commitment_eq N.base_torsion N.base_ne_zero hHsub.torsion
      hsub.torsion (hshort hc) (hshort hc') hne hU hV
  constructor
  · rintro hne U V c ⟨hc, s, hs, h⟩ c' ⟨hc', s', hs', h'⟩
    by_contra hcc
    exact hne (hhonest hc hc' hs hs' hcc h h')
  · intro c c' s s' UV hc hc' hs hs' hne h h'
    obtain rfl := hhonest hc hc' hs hs' hne h h'
    refine ⟨rfl, fun sk r hpk hr => ⟨?_, ?_⟩⟩
    · exact N.vrfProofToHash_honest hY hH hpk hr hsub hc hs
    · exact N.vrfProofToHash_honest hY hH hpk hr hsub hc' hs'

/-- For the key with scalar `5` and a forged `Γ`, a pair of points leaves one challenge
at most; for the honest `Γ`, the nonce `1` fits the challenges `0` and `1`. -/
theorem special_soundness_sample :
    (∀ U V, Set.Subsingleton {c : ℕ | c < 2 ^ 128 ∧ ∃ s < curveOrder,
      sample.recomputed (5 • sample.base) samplePoint sample.base c s = .ok (U, V)}) ∧
    ∀ sk r, sample.publicKeyFromSeed sk = .ok (sample.toBytes (5 • sample.base)) →
      sample.proveVRF sk [7] = .ok r →
        sample.vrfProofToHash (sample.encodeProof (5 • samplePoint) 0 1) =
          sample.vrfProofToHash r.proof := by
  have hY := sample.fromBytes_toBytes (5 • sample.base)
  have hforged : sample.base ≠ 5 • samplePoint := by decide +kernel
  have hbase : (sample.isSmallOrder sample.base || !sample.isTorsionFree sample.base) = false := by
    decide +kernel
  have hhonest : (sample.isSmallOrder (5 • samplePoint) ||
      !sample.isTorsionFree (5 • samplePoint)) = false := by decide +kernel
  have honly := (sample.special_soundness hY encodeToCurveTAI_samplePoint hbase).1 hforged
  refine ⟨honly, fun sk r hpk hr => ?_⟩
  have htranscripts := (sample.special_soundness hY encodeToCurveTAI_samplePoint hhonest).2
  exact (htranscripts 0 1 1 6 (sample.base, samplePoint) (by decide +kernel) (by decide +kernel)
    (by decide +kernel) (by decide +kernel) zero_ne_one (by decide +kernel)
    (by decide +kernel)).2 sk r hpk hr |>.1

end Noble

end CcVrf
