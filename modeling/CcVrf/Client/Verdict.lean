import CcVrf.Client.VerifyEndToEnd
import CcVrf.Ecvrf.AcceptedProofs
import CcVrf.Ecvrf.VerifierCalls

/-!
The verdict of the client's verifiers against the reasons that they list.

* `VerdictOf`, `OutputOf`: the verdict, the list of reasons and the checks say the same;
  the output is there exactly when the ECVRF check passed, which is what the suite and
  `verifyVRF` say.
* `verdict_and_reasons`: **both verifiers return, and their verdict and their reasons
  agree with the checks.**
-/

namespace CcVrf

/-- The verdict is positive, and the list of reasons empty, exactly when the checks
pass. -/
structure VerdictOf (r : VerifyEndToEndResult) (checks : Prop) : Prop where
  verdict : r.valid = true ↔ checks
  reasons : r.reasons = [] ↔ checks

namespace Noble

variable {Point : Type} [AddCommGroup Point] (N : Noble Point)

/-- The output is there exactly when the ECVRF check passed, and then it is that of the
proof. The check passed exactly when the client supports the suite and the verifier
accepts. -/
structure OutputOf (r : VerifyEndToEndResult) (suite : ℤ) (pk alpha proof : Bytes) : Prop where
  ecvrf : r.ecvrfValid = true ↔
    suite = suiteSupportedByClient ∧ N.verifyVRF pk alpha proof = .ok true
  present : r.beta ≠ none ↔ r.ecvrfValid = true
  output : ∀ b, r.beta = some b → N.vrfProofToHash proof = .ok b

/-! ### When the verifiers return -/

variable {N}

/-- Without exhaustion `verifyEndToEnd` returns. With another suite it does not even
call the verifier. -/
lemma verifyEndToEnd_returns_of (input : VerifyEndToEndInput)
    (h : input.suite.getD suiteSupportedByClient = suiteSupportedByClient →
      ¬N.Exhausts input.pk input.alpha input.proof) :
    ∃ r, N.verifyEndToEnd input = .ok r := by
  by_cases hsuite : input.suite.getD suiteSupportedByClient = suiteSupportedByClient
  · have hreturns := mt (N.verifyVRF_throws_iff _ _ _).mp (h hsuite)
    push Not at hreturns
    exact verifyEndToEnd_returns hreturns
  · have hgate : (input.suite.getD suiteSupportedByClient == suiteSupportedByClient) = false :=
      beq_eq_false_iff_ne.mpr hsuite
    simp only [verifyEndToEnd, hgate, verifyIfSupported, betaIfValid, Bool.false_eq_true, if_false,
      ok_bind]
    exact ⟨_, rfl⟩

/-- The output that a base verification found. -/
lemma BaseFindings.outputOf {input : VerifyEndToEndInput} {r : VerifyEndToEndResult}
    (h : N.BaseFindings input r) :
    N.OutputOf r (input.suite.getD suiteSupportedByClient) input.pk input.alpha input.proof where
  ecvrf := h.ecvrf
  present := by
    rw [Option.ne_none_iff_exists']
    constructor
    · rintro ⟨b, hb⟩
      exact ((h.beta b).mp hb).1
    · intro hvalid
      obtain ⟨b, hb⟩ := N.vrfProofToHash_of_verifyVRF (h.ecvrf.mp hvalid).2
      exact ⟨b, (h.beta b).mpr ⟨hvalid, hb⟩⟩
  output b hb := ((h.beta b).mp hb).2

/-- The verification of proof and hashes inside the verification against an
authority. -/
lemma verifyAuthorityCommitEndToEnd_base {J : LightJs} {input : VerifyAuthorityCommitEndToEndInput}
    {r : VerifyAuthorityCommitEndToEndResult}
    (h : N.verifyAuthorityCommitEndToEnd J input = .ok r) :
    ∃ base, N.verifyEndToEnd ⟨input.authority.pk, input.alpha, input.proof, input.onChainCommit,
        input.memo, some input.authority.suite⟩ = .ok base ∧
      r.beta = base.beta ∧ r.ecvrfValid = base.ecvrfValid := by
  obtain ⟨base, hbase, h⟩ := bind_eq_ok_iff.mp h
  obtain ⟨a, -, h⟩ := bind_eq_ok_iff.mp h
  cases h
  exact ⟨base, hbase, rfl, rfl⟩

/-- With a label of 32 bytes, `verifyAuthorityCommitEndToEnd` returns when the
verification of proof and hashes does. -/
lemma verifyAuthorityCommitEndToEnd_returns (J : LightJs)
    {input : VerifyAuthorityCommitEndToEndInput} (hlabel : input.authority.label.length = 32)
    (h : input.authority.suite = suiteSupportedByClient →
      ¬N.Exhausts input.authority.pk input.alpha input.proof) :
    ∃ r, N.verifyAuthorityCommitEndToEnd J input = .ok r := by
  obtain ⟨base, hbase⟩ := verifyEndToEnd_returns_of ⟨input.authority.pk, input.alpha, input.proof,
    input.onChainCommit, input.memo, some input.authority.suite⟩ h
  simp only [verifyAuthorityCommitEndToEnd, hbase, ok_bind, LightJs.deriveAuthorityAddress, hlabel,
    ne_eq, not_true_eq_false, if_false]
  exact ⟨_, rfl⟩

/-! ### Verdict and reasons -/

/-- What the five checks of `verifyEndToEnd` say. -/
structure VerifiesOutcome (N : Noble Point) (input : VerifyEndToEndInput) : Prop where
  suite : input.suite.getD suiteSupportedByClient = suiteSupportedByClient
  ecvrf : N.verifyVRF input.pk input.alpha input.proof = .ok true
  committed : N.Committed input.alpha input.proof input.memo input.onChainCommit

/-- **Verdict and reasons agree.** Unless a search for a curve point is exhausted, both
verifiers return; the verdict is positive exactly when no reason is listed, and exactly
when every check passes; and the output is there exactly when the ECVRF check passed. -/
theorem verdict_and_reasons (N : Noble Point) (J : LightJs) :
    (∀ input : VerifyEndToEndInput,
      (input.suite.getD suiteSupportedByClient = suiteSupportedByClient →
        ¬N.Exhausts input.pk input.alpha input.proof) →
      ∃ r, N.verifyEndToEnd input = .ok r ∧ VerdictOf r (N.VerifiesOutcome input) ∧
        N.OutputOf r (input.suite.getD suiteSupportedByClient) input.pk input.alpha
          input.proof) ∧
    ∀ input : VerifyAuthorityCommitEndToEndInput, input.authority.label.length = 32 →
      (input.authority.suite = suiteSupportedByClient →
        ¬N.Exhausts input.authority.pk input.alpha input.proof) →
      ∃ r, N.verifyAuthorityCommitEndToEnd J input = .ok r ∧
        VerdictOf r.toVerifyEndToEndResult (N.VerifiesCommit J input) ∧
        N.OutputOf r.toVerifyEndToEndResult input.authority.suite input.authority.pk input.alpha
          input.proof := by
  refine ⟨fun input hsearch => ?_, fun input hlabel hsearch => ?_⟩
  · obtain ⟨r, hr⟩ := verifyEndToEnd_returns_of input hsearch
    have hfound := verifyEndToEnd_spec hr
    have hvalid : r.valid = true ↔ N.VerifiesOutcome input := by
      rw [hfound.valid, hfound.ecvrf]
      exact ⟨fun ⟨⟨hs, he⟩, hc⟩ => ⟨hs, he, hc⟩, fun ⟨hs, he, hc⟩ => ⟨⟨hs, he⟩, hc⟩⟩
    exact ⟨r, hr, ⟨hvalid, hfound.reasons.trans hvalid⟩, hfound.outputOf⟩
  · obtain ⟨r, hr⟩ := verifyAuthorityCommitEndToEnd_returns J hlabel hsearch
    have hfound := verifyAuthorityCommitEndToEnd_spec hr
    obtain ⟨base, hbase, hbeta, hecvrf⟩ := verifyAuthorityCommitEndToEnd_base hr
    have hout := (verifyEndToEnd_spec hbase).outputOf
    refine ⟨r, hr, ⟨hfound.valid, hfound.reasons.trans hfound.valid⟩, ?_, ?_, ?_⟩
    · rw [hecvrf]
      exact hout.ecvrf
    · rw [hbeta, hecvrf]
      exact hout.present
    · intro b hb
      exact hout.output b (hbeta ▸ hb)

/-- The proof made by the key with scalar `5`, with its commit. -/
def sampleOutcome : VerifyEndToEndInput where
  pk := sample.toBytes (5 • sample.base)
  alpha := [7]
  proof := sample.proofWithNonce 5 1 samplePoint
  onChainCommit :=
    { authority := none
      memoHash := (sample.sha256 [1]).1
      proofHash := (sample.sha256 (sample.proofWithNonce 5 1 samplePoint)).1
      alphaHash := (sample.sha256 [7]).1
      committedSlot := 7 }
  memo := .bytes [1]
  suite := none

/-- The same outcome under an authority that is not frozen yet. -/
def sampleAuthorityOutcome : VerifyAuthorityCommitEndToEndInput where
  authority :=
    { authorityAddress := none
      owner := ⟨List.replicate 32 1, rfl⟩
      pk := sampleOutcome.pk
      suite := 3
      frozen := false
      revoked := false
      label := List.replicate 32 2 }
  alpha := sampleOutcome.alpha
  proof := sampleOutcome.proof
  onChainCommit := sampleOutcome.onChainCommit
  memo := sampleOutcome.memo
  expectedOwner := none
  expectedLabel := none
  expectedAuthorityAddress := none
  programId := none
  onChainBeta := none

/-- Both verifiers return on the outcome, with verdicts and reasons that agree. -/
theorem verdict_and_reasons_sample :
    (∃ r, sample.verifyEndToEnd sampleOutcome = .ok r ∧
      VerdictOf r (sample.VerifiesOutcome sampleOutcome) ∧
      sample.OutputOf r 3 sampleOutcome.pk sampleOutcome.alpha sampleOutcome.proof) ∧
    ∃ r, sample.verifyAuthorityCommitEndToEnd LightJs.sample sampleAuthorityOutcome = .ok r ∧
      VerdictOf r.toVerifyEndToEndResult
        (sample.VerifiesCommit LightJs.sample sampleAuthorityOutcome) ∧
      sample.OutputOf r.toVerifyEndToEndResult 3 sampleOutcome.pk sampleOutcome.alpha
        sampleOutcome.proof := by
  have hsearch : ¬sample.Exhausts sampleOutcome.pk sampleOutcome.alpha sampleOutcome.proof :=
    fun h => h.2 samplePoint encodeToCurveTAI_samplePoint
  exact ⟨(verdict_and_reasons sample LightJs.sample).1 sampleOutcome fun _ => hsearch,
    (verdict_and_reasons sample LightJs.sample).2 sampleAuthorityOutcome rfl fun _ => hsearch⟩

end Noble

end CcVrf
