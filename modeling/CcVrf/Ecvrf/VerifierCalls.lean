import CcVrf.Ecvrf.HashToCurve
import CcVrf.Library.CallLog

/-!
The calls of the curve library's `multiply` that the verifier makes
(`packages/ecvrf/src/verify.ts`, `hashToCurve.ts`), and when it throws.

* `loggedMultiply`: the library's `multiply` with every call on record. `verifyVRF` is
  `verifyVRFWith` at the one; `matches_verifyVRF` follows the same code at the other, and finds
  every scalar in range.
* `PassesGates`, `Exhausts`: the verifier gets as far as the search for a curve point, and
  the search finds none. `verifyVRF_throws_iff`: nothing else makes it throw.
* `verifyVRF_calls_and_returns`: **on any three byte strings every scalar is in `[1, q-1]`,
  and the verifier returns unless it exhausts the 256 counters.**
-/

namespace CcVrf

namespace Noble

open CallLog

variable {Point : Type} [AddCommGroup Point] (N : Noble Point)

/-! ### The calls on record -/

/-- `multiply`, with the point and the scalar of every call on record. -/
def loggedMultiply (P : Point) (n : ℕ) : Logged (Point × ℕ) String Point :=
  call (P, n) (N.multiply P n)

/-- The scalar of a call is one that the library accepts. -/
def ScalarInRange (k : Point × ℕ) : Prop := 1 ≤ k.2 ∧ k.2 ≤ curveOrder - 1

omit [AddCommGroup Point] in
lemma scalarInRange_of_lt (P : Point) {n : ℕ} (h1 : n ≠ 0) (hn : n < curveOrder) :
    ScalarInRange (P, n) :=
  ⟨Nat.one_le_iff_ne_zero.mpr h1, Nat.le_sub_one_of_lt hn⟩

omit [AddCommGroup Point] in
lemma scalarInRange_cofactor (P : Point) : ScalarInRange (P, cofactor) :=
  scalarInRange_of_lt P (by decide) (by decide +kernel)

/-- The search multiplies by the cofactor only. -/
lemma matches_encodeToCurveTAI_loop (salt alpha : Bytes) (remaining ctr : ℕ) :
    Matches ScalarInRange (encodeToCurveTAIWith.loop N N.loggedMultiply salt alpha remaining ctr)
      (encodeToCurveTAIWith.loop N N.multiply salt alpha remaining ctr) := by
  induction remaining generalizing ctr with
  | zero => exact Matches.throw _
  | succ remaining ih =>
      simp only [encodeToCurveTAIWith.loop]
      cases N.fromBytes (slice (N.sha512 (encodeToCurveInput salt alpha ctr)).val 0 ptLen) with
      | error e => exact ih (ctr + 1)
      | ok point =>
          refine Matches.bind (Matches.call (scalarInRange_cofactor point) _) fun cleared _ => ?_
          exact Matches.ite (fun _ => ih (ctr + 1)) fun _ => Matches.pure cleared

/-- The guard keeps `0` away from the library. -/
lemma matches_multiplyOrZero (P : Point) {n : ℕ} (hn : n < curveOrder) :
    Matches ScalarInRange (multiplyOrZeroWith N.loggedMultiply P n) (N.multiplyOrZero P n) :=
  Matches.ite (fun _ => Matches.pure 0) fun h0 =>
    Matches.call (scalarInRange_of_lt P h0 hn) _

/-- The four multiplications of the verifier. -/
lemma matches_recomputed (Y H Gamma : Point) {c s : ℕ} (hc : c < curveOrder) (hs : s < curveOrder) :
    Matches ScalarInRange (N.recomputedWith N.loggedMultiply Y H Gamma c s)
      (N.recomputed Y H Gamma c s) := by
  refine Matches.bind (N.matches_multiplyOrZero N.base hs) fun sB _ => ?_
  refine Matches.bind (N.matches_multiplyOrZero Y hc) fun cY _ => ?_
  refine Matches.bind (N.matches_multiplyOrZero H hs) fun sH _ => ?_
  refine Matches.bind (N.matches_multiplyOrZero Gamma hc) fun cGamma _ => ?_
  exact Matches.pure _

/-- **Along the verifier**: the checks before the multiplications put every scalar in
range. -/
lemma matches_verifyVRF (pk alpha proof : Bytes) :
    Matches ScalarInRange (N.verifyVRFWith N.loggedMultiply pk alpha proof)
      (N.verifyVRF pk alpha proof) := by
  refine Matches.ite (fun _ => Matches.pure false) fun hlen => ?_
  have hc := (challenge_slice_lt (not_not.mp hlen)).trans pow_cLen_lt_curveOrder
  refine Matches.ite (fun _ => Matches.pure false) fun _ => ?_
  refine Matches.ite (fun _ => Matches.pure false) fun hs => ?_
  rw [ge_iff_le, not_le] at hs
  cases N.fromBytes pk with
  | error e => exact Matches.pure false
  | ok Y =>
      cases N.fromBytes (slice proof 0 ptLen) with
      | error e => exact Matches.pure false
      | ok Gamma =>
          refine Matches.ite (fun _ => Matches.pure false) fun _ => ?_
          refine Matches.ite (fun _ => Matches.pure false) fun _ => ?_
          refine Matches.bind (N.matches_encodeToCurveTAI_loop pk alpha maxCtr 0) fun H _ => ?_
          exact Matches.bind (N.matches_recomputed Y H Gamma hc hs) fun UV _ => Matches.pure _

/-! ### When the verifier throws -/

/-- The gates that the verifier checks before it hashes to the curve. -/
def PassesGates (pk proof : Bytes) : Prop :=
  ∃ (Y Gamma : Point) (c s : ℕ), N.ValidKey pk Y ∧ PrimeSubgroup Gamma ∧ c < 256 ^ cLen ∧
    s < curveOrder ∧ proof = N.encodeProof Gamma c s

/-- The gates pass, and every counter of the search for a curve point fails. -/
def Exhausts (pk alpha proof : Bytes) : Prop :=
  N.PassesGates pk proof ∧ ∀ H, N.encodeToCurveTAI pk alpha ≠ .ok H

/-- **The verifier throws exactly when** it searches for a curve point and finds
none. -/
theorem verifyVRF_throws_iff (pk alpha proof : Bytes) :
    (∀ v, N.verifyVRF pk alpha proof ≠ .ok v) ↔ N.Exhausts pk alpha proof := by
  constructor
  · intro hthrow
    have hgates := N.verifyVRF_gates (hthrow false)
    refine ⟨hgates, fun H hH => ?_⟩
    obtain ⟨Y, Gamma, c, s, hY, hGamma, hc, hs, rfl⟩ := hgates
    rw [N.verifyVRF_encodeProof alpha hY hGamma hc hs, hH] at hthrow
    exact hthrow _ rfl
  · rintro ⟨⟨Y, Gamma, c, s, hY, hGamma, hc, hs, rfl⟩, hnone⟩ v
    rw [N.verifyVRF_encodeProof alpha hY hGamma hc hs]
    cases hH : N.encodeToCurveTAI pk alpha with
    | error e => exact fun h => nomatch h
    | ok H => exact absurd hH (hnone H)

/-- Without the gates the verifier rejects. -/
lemma verifyVRF_of_not_passesGates {pk proof : Bytes} (alpha : Bytes)
    (h : ¬N.PassesGates pk proof) : N.verifyVRF pk alpha proof = .ok false := by
  by_contra hne
  exact h (N.verifyVRF_gates hne)

/-- The verifier returns unless the gates pass and none of the 256 counters qualifies. -/
lemma verifyVRF_returns_iff (pk alpha proof : Bytes) :
    (∃ b, N.verifyVRF pk alpha proof = .ok b) ↔
      ¬(N.PassesGates pk proof ∧ ∀ ctr ≤ 255, ∀ P, ¬N.Qualifies pk alpha ctr P) := by
  have hreturns : (∃ b, N.verifyVRF pk alpha proof = .ok b) ↔ ¬N.Exhausts pk alpha proof := by
    rw [← N.verifyVRF_throws_iff]
    push Not
    rfl
  have hnone : (∀ H, N.encodeToCurveTAI pk alpha ≠ .ok H) ↔
      ∃ e, N.encodeToCurveTAI pk alpha = .error e := by
    cases N.encodeToCurveTAI pk alpha with
    | error e => simp
    | ok H => simp
  rw [hreturns, Exhausts, hnone, encodeToCurveTAI_throws_iff]

/-- A point of small order or with a torsion part is outside the subgroup. -/
lemma not_primeSubgroup_of {P : Point} (h : cofactor • P = 0 ∨ curveOrder • P ≠ 0) :
    ¬PrimeSubgroup P := by
  intro hP
  rcases h with h8 | hq
  · exact hP.ne_zero (PrimeOrder.eq_zero_of_coprime cofactor_coprime h8 hP.torsion)
  · exact hq hP.torsion

/-- What the gates say of the two points and of the response. -/
lemma PassesGates.decoded {pk proof : Bytes} (h : N.PassesGates pk proof) :
    (∀ Y, N.fromBytes pk = .ok Y → PrimeSubgroup Y) ∧
      (∀ Gamma, N.fromBytes (slice proof 0 ptLen) = .ok Gamma → PrimeSubgroup Gamma) ∧
      bytesToBigIntLE (slice proof (ptLen + cLen) proofLen) < curveOrder := by
  obtain ⟨Y, Gamma, c, s, hY, hGamma, hc, hs, rfl⟩ := h
  obtain ⟨h1, -, h3⟩ := N.encodeProof_slices Gamma hc (hs.trans curveOrder_lt_pow_qLen)
  refine ⟨fun Y' hY' => ?_, fun Gamma' hGamma' => ?_, by rw [h3]; exact hs⟩
  · rw [hY.1] at hY'
    cases hY'
    exact hY.2
  · rw [h1, N.fromBytes_toBytes] at hGamma'
    cases hGamma'
    exact hGamma

/-- **The verifier on untrusted input.** It ends the same with its calls on record, and
every scalar that it multiplies by is in `[1, q-1]`. It returns a boolean unless the gates
pass and none of the 256 counters gives a point: so for every challenge and response in
range, the ends included, once there is a point. A key or a `Γ` that is the identity, of
small order or of mixed order is rejected, and so is a response from `q` on. -/
theorem verifyVRF_calls_and_returns (N : Noble Point) (pk alpha proof : Bytes) :
    N.verifyVRFWith N.multiply pk alpha proof = N.verifyVRF pk alpha proof ∧
    outcome (N.verifyVRFWith N.loggedMultiply pk alpha proof) = N.verifyVRF pk alpha proof ∧
    (∀ k ∈ calls (N.verifyVRFWith N.loggedMultiply pk alpha proof),
      1 ≤ k.2 ∧ k.2 ≤ curveOrder - 1) ∧
    ((∃ b, N.verifyVRF pk alpha proof = .ok b) ↔
      ¬(N.PassesGates pk proof ∧ ∀ ctr ≤ 255, ∀ P, ¬N.Qualifies pk alpha ctr P)) ∧
    (∀ Y, N.fromBytes pk = .ok Y → (cofactor • Y = 0 ∨ curveOrder • Y ≠ 0) →
      N.verifyVRF pk alpha proof = .ok false) ∧
    (∀ Gamma, N.fromBytes (slice proof 0 ptLen) = .ok Gamma →
      (cofactor • Gamma = 0 ∨ curveOrder • Gamma ≠ 0) → N.verifyVRF pk alpha proof = .ok false) ∧
    (curveOrder ≤ bytesToBigIntLE (slice proof (ptLen + cLen) proofLen) →
      N.verifyVRF pk alpha proof = .ok false) := by
  have hmatches := N.matches_verifyVRF pk alpha proof
  refine ⟨rfl, hmatches.outcome_eq, fun k hk => hmatches.of_mem_calls hk,
    N.verifyVRF_returns_iff pk alpha proof, fun Y hY hbad => ?_, fun Gamma hGamma hbad => ?_,
    fun hs => ?_⟩
  · exact N.verifyVRF_of_not_passesGates alpha fun h =>
      not_primeSubgroup_of hbad (h.decoded.1 Y hY)
  · exact N.verifyVRF_of_not_passesGates alpha fun h =>
      not_primeSubgroup_of hbad (h.decoded.2.1 Gamma hGamma)
  · exact N.verifyVRF_of_not_passesGates alpha fun h => not_le.mpr h.decoded.2.2 hs

end Noble

end CcVrf
