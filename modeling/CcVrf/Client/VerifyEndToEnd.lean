import CcVrf.Client.Addresses
import CcVrf.Ecvrf.Vrf

/-!
The verifiers of the client (`verifyEndToEnd.ts`).

* `verifyEndToEnd`, `verifyAuthorityCommitEndToEnd`, `pickCanonicalCommit`: the
  functions of the source, with every field of their results and the texts of the
  reasons.
* `Committed`, `VerifiesCommit`: what the checks say, as propositions.
* `verifyEndToEnd_spec`, `verifyAuthorityCommitEndToEnd_spec`: what a call that
  returns has found, once for all callers.
* `verifyAuthorityCommitEndToEnd_valid_iff`: **the verdict is positive exactly when
  every check passes.**
-/

namespace CcVrf

/-- `OnChainAuthority`. The suite is a number of the client. -/
structure OnChainAuthority where
  authorityAddress : Option Pubkey
  owner : Pubkey
  pk : Bytes
  suite : ℤ
  frozen : Bool
  revoked : Bool
  label : Bytes

/-- `OnChainCommit`. -/
structure OnChainCommit where
  authority : Option Pubkey
  memoHash : Bytes
  proofHash : Bytes
  alphaHash : Bytes
  committedSlot : ℤ
deriving DecidableEq

/-- `VerifyEndToEndInput`. -/
structure VerifyEndToEndInput where
  pk : Bytes
  alpha : Bytes
  proof : Bytes
  onChainCommit : OnChainCommit
  memo : StringOrBytes
  suite : Option ℤ

/-- `VerifyEndToEndResult`. -/
structure VerifyEndToEndResult where
  valid : Bool
  ecvrfValid : Bool
  suiteSupported : Bool
  proofHashMatches : Bool
  alphaHashMatches : Bool
  memoHashMatches : Bool
  beta : Option Bytes
  reasons : List String

/-- `VerifyAuthorityCommitEndToEndInput`. -/
structure VerifyAuthorityCommitEndToEndInput where
  authority : OnChainAuthority
  alpha : Bytes
  proof : Bytes
  onChainCommit : OnChainCommit
  memo : StringOrBytes
  expectedOwner : Option Pubkey
  expectedLabel : Option Bytes
  expectedAuthorityAddress : Option Pubkey
  programId : Option Pubkey
  onChainBeta : Option Bytes

/-- `VerifyAuthorityCommitEndToEndResult`. -/
structure VerifyAuthorityCommitEndToEndResult extends VerifyEndToEndResult where
  authorityFrozen : Bool
  authorityNotRevoked : Bool
  authorityOwnerMatches : Bool
  authorityLabelMatches : Bool
  commitAuthorityMatches : Bool
  betaMatches : Option Bool

/-- `PickCanonicalResult`. -/
structure PickCanonicalResult where
  canonical : Option OnChainCommit
  candidates : List OnChainCommit
  duplicateMemoEvents : Bool
  multipleVerifying : Bool

/-- `if (!check) reasons.push(reason)`. -/
def reasonUnless (check : Bool) (reason : String) : List String := if check then [] else [reason]

@[simp] lemma reasonUnless_eq_nil_iff (check : Bool) (reason : String) :
    reasonUnless check reason = [] ↔ check = true := by
  cases check <;> simp [reasonUnless]

/-- The reason for a wrong proof hash. -/
def proofHashReason (computed onchain : Bytes) : String :=
  "proof-hash-mismatch (computed=" ++ bytesToHex computed ++ " onchain=" ++ bytesToHex onchain ++ ")"

namespace Noble

variable {Point : Type} [AddCommGroup Point] (N : Noble Point)

/-- `pickCanonicalCommit`: the candidates are compared by their proof hash only. -/
def pickCanonicalCommit (candidates : List OnChainCommit) (proof : Bytes) : PickCanonicalResult :=
  let proofHash := (N.sha256 proof).1
  let isMatch (c : OnChainCommit) : Bool := bytesEqual proofHash c.proofHash
  let matching := candidates.filter isMatch
  { canonical := matching.head?
    candidates := candidates
    duplicateMemoEvents := 1 < candidates.length
    multipleVerifying := 1 < matching.length }

/-- `suiteSupported && verifyVRF(pk, alpha, proof)`. -/
def verifyIfSupported (suiteSupported : Bool) (pk alpha proof : Bytes) : Throws Bool :=
  if suiteSupported then N.verifyVRF pk alpha proof else .ok false

/-- `ecvrfValid ? vrfProofToHash(proof) : null`. -/
def betaIfValid (ecvrfValid : Bool) (proof : Bytes) : Throws (Option Bytes) :=
  if ecvrfValid then some <$> N.vrfProofToHash proof else .ok none

/-- `verifyEndToEnd`. -/
def verifyEndToEnd (input : VerifyEndToEndInput) : Throws VerifyEndToEndResult := do
  let suite := input.suite.getD suiteSupportedByClient
  let suiteSupported := suite == suiteSupportedByClient
  let ecvrfValid ← N.verifyIfSupported suiteSupported input.pk input.alpha input.proof
  let computedProofHash := (N.sha256 input.proof).1
  let proofHashMatches := bytesEqual computedProofHash input.onChainCommit.proofHash
  let computedAlphaHash := (N.sha256 input.alpha).1
  let alphaHashMatches := bytesEqual computedAlphaHash input.onChainCommit.alphaHash
  let computedMemoHash := (N.sha256 input.memo.toBytes).1
  let memoHashMatches := bytesEqual computedMemoHash input.onChainCommit.memoHash
  let beta ← N.betaIfValid ecvrfValid input.proof
  return {
    valid :=
      suiteSupported && ecvrfValid && proofHashMatches && alphaHashMatches && memoHashMatches
    ecvrfValid := ecvrfValid
    suiteSupported := suiteSupported
    proofHashMatches := proofHashMatches
    alphaHashMatches := alphaHashMatches
    memoHashMatches := memoHashMatches
    beta := beta
    reasons :=
      reasonUnless suiteSupported ("unsupported-suite-" ++ toString suite) ++
      reasonUnless ecvrfValid "ecvrf-verify-failed" ++
      reasonUnless proofHashMatches
        (proofHashReason computedProofHash input.onChainCommit.proofHash) ++
      reasonUnless alphaHashMatches "alpha-hash-mismatch" ++
      reasonUnless memoHashMatches "memo-hash-mismatch" }

/-- `verifyAuthorityCommitEndToEnd`. -/
def verifyAuthorityCommitEndToEnd (J : LightJs) (input : VerifyAuthorityCommitEndToEndInput) :
    Throws VerifyAuthorityCommitEndToEndResult := do
  let base ← N.verifyEndToEnd
    { pk := input.authority.pk
      suite := some input.authority.suite
      alpha := input.alpha
      proof := input.proof
      onChainCommit := input.onChainCommit
      memo := input.memo }
  let authorityFrozen := input.authority.frozen
  let authorityNotRevoked := !input.authority.revoked
  let authorityOwnerMatches := input.expectedOwner.all fun o => input.authority.owner == o
  let authorityLabelMatches := input.expectedLabel.all fun l => bytesEqual input.authority.label l
  let programId := input.programId.getD ccVrfProgramId
  let derivedAuthorityAddress ←
    J.deriveAuthorityAddress input.authority.owner input.authority.label programId
  let commitAuthority := input.onChainCommit.authority
  let commitAuthorityMatches := commitAuthority.any fun a => a == derivedAuthorityAddress
  let expectedAuthorityMatchesDerived :=
    input.expectedAuthorityAddress.all fun a => a == derivedAuthorityAddress
  let betaMatches : Option Bool :=
    input.onChainBeta.map fun b => base.beta.any fun beta => bytesEqual b beta
  return {
    base with
    valid :=
      base.valid && authorityFrozen && authorityNotRevoked && authorityOwnerMatches &&
        authorityLabelMatches && commitAuthorityMatches && expectedAuthorityMatchesDerived &&
        betaMatches != some false
    reasons :=
      base.reasons ++
      reasonUnless authorityFrozen "authority-not-frozen" ++
      reasonUnless authorityNotRevoked "authority-revoked" ++
      reasonUnless authorityOwnerMatches "authority-owner-mismatch" ++
      reasonUnless authorityLabelMatches "authority-label-mismatch" ++
      reasonUnless commitAuthorityMatches
        (if commitAuthority.isSome then "commit-authority-mismatch"
          else "commit-authority-missing") ++
      reasonUnless expectedAuthorityMatchesDerived "expected-authority-address-mismatch" ++
      reasonUnless (betaMatches != some false) "beta-mismatch"
    authorityFrozen := authorityFrozen
    authorityNotRevoked := authorityNotRevoked
    authorityOwnerMatches := authorityOwnerMatches
    authorityLabelMatches := authorityLabelMatches
    commitAuthorityMatches := commitAuthorityMatches
    betaMatches := betaMatches }

/-! ### What the checks say -/

/-- The three hashes of a commit are those of the proof, the input and the memo. -/
structure Committed (alpha proof : Bytes) (memo : StringOrBytes) (commit : OnChainCommit) :
    Prop where
  proofHash : commit.proofHash = (N.sha256 proof).1
  alphaHash : commit.alphaHash = (N.sha256 alpha).1
  memoHash : commit.memoHash = (N.sha256 memo.toBytes).1

/-- A key of the supported suite accepts the proof. -/
structure ProofAccepted (authority : OnChainAuthority) (alpha proof : Bytes) : Prop where
  suite : authority.suite = suiteSupportedByClient
  ecvrf : N.verifyVRF authority.pk alpha proof = .ok true

/-- What the checks of `verifyAuthorityCommitEndToEnd` say together. -/
structure VerifiesCommit (J : LightJs) (input : VerifyAuthorityCommitEndToEndInput) : Prop where
  accepted : N.ProofAccepted input.authority input.alpha input.proof
  committed : N.Committed input.alpha input.proof input.memo input.onChainCommit
  frozen : input.authority.frozen = true
  notRevoked : input.authority.revoked = false
  owner : ∀ o ∈ input.expectedOwner, input.authority.owner = o
  label : ∀ l ∈ input.expectedLabel, input.authority.label = l
  address : ∃ a, J.deriveAuthorityAddress input.authority.owner input.authority.label
      (input.programId.getD ccVrfProgramId) = .ok a ∧ input.onChainCommit.authority = some a ∧
      ∀ e ∈ input.expectedAuthorityAddress, e = a
  beta : ∀ b ∈ input.onChainBeta, N.vrfProofToHash input.proof = .ok b

/-- An accepted proof has an output. -/
lemma vrfProofToHash_of_verifyVRF {pk alpha proof : Bytes}
    (h : N.verifyVRF pk alpha proof = .ok true) : ∃ beta, N.vrfProofToHash proof = .ok beta :=
  ((N.verifyVRF_eq_true_iff pk alpha proof).mp h).vrfProofToHash

variable {N}

/-- What `verifyEndToEnd` has found when it returns. -/
structure BaseFindings (N : Noble Point) (input : VerifyEndToEndInput) (r : VerifyEndToEndResult) :
    Prop where
  ecvrf : r.ecvrfValid = true ↔
    input.suite.getD suiteSupportedByClient = suiteSupportedByClient ∧
      N.verifyVRF input.pk input.alpha input.proof = .ok true
  valid : r.valid = true ↔ r.ecvrfValid = true ∧
    N.Committed input.alpha input.proof input.memo input.onChainCommit
  reasons : r.reasons = [] ↔ r.valid = true
  beta : ∀ b, r.beta = some b ↔ r.ecvrfValid = true ∧ N.vrfProofToHash input.proof = .ok b

lemma committed_iff (alpha proof : Bytes) (memo : StringOrBytes) (commit : OnChainCommit) :
    N.Committed alpha proof memo commit ↔
      bytesEqual (N.sha256 proof).1 commit.proofHash = true ∧
        bytesEqual (N.sha256 alpha).1 commit.alphaHash = true ∧
        bytesEqual (N.sha256 memo.toBytes).1 commit.memoHash = true := by
  simp only [bytesEqual_iff]
  constructor
  · rintro ⟨h1, h2, h3⟩
    exact ⟨h1.symm, h2.symm, h3.symm⟩
  · rintro ⟨h1, h2, h3⟩
    exact ⟨h1.symm, h2.symm, h3.symm⟩

/-- The suite gate in front of the verifier. -/
lemma verifyIfSupported_eq_ok {b v : Bool} {pk alpha proof : Bytes}
    (h : N.verifyIfSupported b pk alpha proof = .ok v) :
    v = true ↔ b = true ∧ N.verifyVRF pk alpha proof = .ok true := by
  cases b with
  | false =>
      cases h
      simp
  | true =>
      rw [verifyIfSupported, if_pos rfl] at h
      rw [h]
      simp

lemma betaIfValid_eq_ok {v : Bool} {proof : Bytes} {beta : Option Bytes}
    (h : N.betaIfValid v proof = .ok beta) (b : Bytes) :
    beta = some b ↔ v = true ∧ N.vrfProofToHash proof = .ok b := by
  cases v with
  | false =>
      cases h
      simp
  | true =>
      rw [betaIfValid, if_pos rfl] at h
      cases hv : N.vrfProofToHash proof with
      | error e =>
          rw [hv] at h
          cases h
      | ok b' =>
          rw [hv] at h
          cases h
          simp

/-- **What a verification that returns has found.** -/
theorem verifyEndToEnd_spec {input : VerifyEndToEndInput} {r : VerifyEndToEndResult}
    (h : N.verifyEndToEnd input = .ok r) : N.BaseFindings input r := by
  simp only [verifyEndToEnd, bind_eq_ok_iff] at h
  obtain ⟨ecvrfValid, hecvrf, beta, hbeta, h⟩ := h
  cases h
  have hgate := verifyIfSupported_eq_ok hecvrf
  refine ⟨?_, ?_, ?_, betaIfValid_eq_ok hbeta⟩
  · rw [hgate, beq_iff_eq]
  · simp only [Bool.and_eq_true, committed_iff]
    constructor
    · rintro ⟨⟨⟨⟨-, hv⟩, h1⟩, h2⟩, h3⟩
      exact ⟨hv, h1, h2, h3⟩
    · rintro ⟨hv, h1, h2, h3⟩
      exact ⟨⟨⟨⟨(hgate.mp hv).1, hv⟩, h1⟩, h2⟩, h3⟩
  · simp only [List.append_eq_nil_iff, reasonUnless_eq_nil_iff, Bool.and_eq_true]

/-- `verifyEndToEnd` returns whenever the ECVRF verifier does. -/
lemma verifyEndToEnd_returns {input : VerifyEndToEndInput}
    (h : ∃ v, N.verifyVRF input.pk input.alpha input.proof = .ok v) :
    ∃ r, N.verifyEndToEnd input = .ok r := by
  obtain ⟨v, hv⟩ := h
  have hgate : ∀ b, ∃ v', N.verifyIfSupported b input.pk input.alpha input.proof = .ok v' := by
    intro b
    cases b with
    | false => exact ⟨false, rfl⟩
    | true => exact ⟨v, hv⟩
  have hbeta : ∀ v', (v' = true → N.verifyVRF input.pk input.alpha input.proof = .ok true) →
      ∃ b, N.betaIfValid v' input.proof = .ok b := by
    intro v' hv'
    cases v' with
    | false => exact ⟨none, rfl⟩
    | true =>
        obtain ⟨b, hb⟩ := N.vrfProofToHash_of_verifyVRF (hv' rfl)
        exact ⟨some b, by rw [betaIfValid, if_pos rfl, hb]; rfl⟩
  obtain ⟨v', hv'⟩ := hgate (input.suite.getD suiteSupportedByClient == suiteSupportedByClient)
  obtain ⟨b, hb⟩ := hbeta v' fun ht => ((verifyIfSupported_eq_ok hv').mp ht).2
  simp only [verifyEndToEnd, hv', ok_bind, hb]
  exact ⟨_, rfl⟩

/-- What `verifyAuthorityCommitEndToEnd` has found when it returns. -/
structure Findings (N : Noble Point) (J : LightJs) (input : VerifyAuthorityCommitEndToEndInput)
    (r : VerifyAuthorityCommitEndToEndResult) : Prop where
  valid : r.valid = true ↔ N.VerifiesCommit J input
  reasons : r.reasons = [] ↔ r.valid = true
  beta : ∀ b, r.beta = some b ↔
    N.ProofAccepted input.authority input.alpha input.proof ∧
      N.vrfProofToHash input.proof = .ok b
  betaMatches : r.betaMatches = input.onChainBeta.map fun b => decide (r.beta = some b)

/-- An optional output equals given bytes. -/
lemma any_bytesEqual (beta : Option Bytes) (b : Bytes) :
    (beta.any fun beta => bytesEqual b beta) = decide (beta = some b) := by
  cases beta with
  | none => rfl
  | some b' =>
      rw [Option.any_some, Bool.eq_iff_iff, bytesEqual_iff, decide_eq_true_iff, Option.some.injEq,
        eq_comm]

/-- **What a verification against an authority that returns has found.** -/
theorem verifyAuthorityCommitEndToEnd_spec {J : LightJs}
    {input : VerifyAuthorityCommitEndToEndInput} {r : VerifyAuthorityCommitEndToEndResult}
    (h : N.verifyAuthorityCommitEndToEnd J input = .ok r) : N.Findings J input r := by
  simp only [verifyAuthorityCommitEndToEnd, bind_eq_ok_iff] at h
  obtain ⟨base, hbase, a, ha, h⟩ := h
  cases h
  have hb := verifyEndToEnd_spec hbase
  have hacc : base.ecvrfValid = true ↔ N.ProofAccepted input.authority input.alpha input.proof := by
    rw [hb.ecvrf]
    exact ⟨fun h => ⟨h.1, h.2⟩, fun h => ⟨h.suite, h.ecvrf⟩⟩
  have hbeta : ∀ b, base.beta = some b ↔
      N.ProofAccepted input.authority input.alpha input.proof ∧
        N.vrfProofToHash input.proof = .ok b := by
    intro b
    rw [hb.beta, hacc]
  refine ⟨?_, ?_, hbeta, ?_⟩
  · simp only [Bool.and_eq_true, any_bytesEqual, bne_iff_ne, ne_eq, Option.map_eq_some_iff,
      decide_eq_false_iff_not, not_exists, not_and, not_not, Option.all_eq_true,
      Option.any_eq_true, beq_iff_eq, bytesEqual_iff, Bool.not_eq_true', hb.valid, hacc]
    constructor
    · rintro ⟨⟨⟨⟨⟨⟨⟨⟨hp, hc⟩, hfrozen⟩, hrevoked⟩, howner⟩, hlabel⟩, ⟨a', ha', rfl⟩⟩, hexp⟩, hbm⟩
      exact ⟨hp, hc, hfrozen, hrevoked, howner, hlabel, ⟨a', ha, ha', hexp⟩,
        fun b hmem => ((hbeta b).mp (hbm b hmem)).2⟩
    · rintro ⟨hp, hc, hfrozen, hrevoked, howner, hlabel, ⟨a', ha', hca, hexp⟩, hbm⟩
      obtain rfl : a' = a := Except.ok.inj (ha'.symm.trans ha)
      exact ⟨⟨⟨⟨⟨⟨⟨⟨hp, hc⟩, hfrozen⟩, hrevoked⟩, howner⟩, hlabel⟩, ⟨a', hca, rfl⟩⟩, hexp⟩,
        fun b hmem => (hbeta b).mpr ⟨hp, hbm b hmem⟩⟩
  · simp only [List.append_eq_nil_iff, reasonUnless_eq_nil_iff, Bool.and_eq_true, hb.reasons]
  · simp only [any_bytesEqual]

/-- **The verdict is positive exactly when every check passes**, and then the call
returns. -/
theorem verifyAuthorityCommitEndToEnd_valid_iff (J : LightJs)
    (input : VerifyAuthorityCommitEndToEndInput) :
    (∃ r, N.verifyAuthorityCommitEndToEnd J input = .ok r ∧ r.valid = true) ↔
      N.VerifiesCommit J input := by
  constructor
  · rintro ⟨r, hr, hvalid⟩
    exact (verifyAuthorityCommitEndToEnd_spec hr).valid.mp hvalid
  · intro h
    obtain ⟨a, ha, -⟩ := h.address
    obtain ⟨base, hbase⟩ : ∃ base, N.verifyEndToEnd ⟨input.authority.pk, input.alpha, input.proof,
        input.onChainCommit, input.memo, some input.authority.suite⟩ = .ok base :=
      verifyEndToEnd_returns ⟨true, h.accepted.ecvrf⟩
    have hret : ∃ r, N.verifyAuthorityCommitEndToEnd J input = .ok r := by
      simp only [verifyAuthorityCommitEndToEnd, hbase, ok_bind, ha]
      exact ⟨_, rfl⟩
    obtain ⟨r, hr⟩ := hret
    exact ⟨r, hr, (verifyAuthorityCommitEndToEnd_spec hr).valid.mpr h⟩

/-- An accepted outcome has an output, which the verifier returns. -/
lemma beta_of_valid {J : LightJs} {input : VerifyAuthorityCommitEndToEndInput}
    {r : VerifyAuthorityCommitEndToEndResult}
    (hr : N.verifyAuthorityCommitEndToEnd J input = .ok r) (hvalid : r.valid = true) :
    ∃ beta, r.beta = some beta ∧ N.vrfProofToHash input.proof = .ok beta := by
  have hf := verifyAuthorityCommitEndToEnd_spec hr
  have hacc := (hf.valid.mp hvalid).accepted
  obtain ⟨beta, hbeta⟩ := N.vrfProofToHash_of_verifyVRF hacc.ecvrf
  exact ⟨beta, (hf.beta beta).mpr ⟨hacc, hbeta⟩, hbeta⟩

end Noble

end CcVrf
