import CcVrf.Library.FirstMatch
import CcVrf.System.Requests

/-!
Resolving an event-mode commitment: `pickCanonicalCommit` picks a candidate and the
verifier checks it.

* `Candidates`: the commits that the events of one owner, label and memo stand for.
  `Chain.candidates` are those of a state.
* `OutcomeChecks`: the checks of the verifier that do not look at the hashes of the
  proof and of the input.
* `eventMode_resolves_iff`: the pipeline accepts a list with an acceptable candidate, in every
  order, exactly when no candidate has the right proof hash with a wrong input hash.
-/

namespace CcVrf

open Runs

section EventMode

variable {Point : Type} [AddCommGroup Point] (N : Noble Point) (J : LightJs)

/-- The commits for one authority address and memo hash, with any other hashes. -/
def Candidates (a : Pubkey) (m : Hash) (candidates : List OnChainCommit) : Prop :=
  ∀ c ∈ candidates, c.authority = some a ∧ c.memoHash = m.1

/-- The candidates of a state: its events for an owner, a label and a memo hash, in
the order of the log. -/
def Chain.candidates (c : Chain) (owner : Pubkey) (label : ByteVec 32) (memoHash : Hash) :
    List OnChainCommit :=
  (c.events.filter fun ev => ev.owner == owner && ev.label == label && ev.memoHash == memoHash).map
    fun ev => ev.onChain (J.addressOf (authoritySeeds owner label) ccVrfProgramId)

/-- The verifier accepts the outcome with a given commit. -/
def VerifiedWith (input : VerifyAuthorityCommitEndToEndInput) (c : OnChainCommit) : Prop :=
  ∃ r, N.verifyAuthorityCommitEndToEnd J { input with onChainCommit := c } = .ok r ∧
    r.valid = true

/-- The pipeline accepts: there is a canonical commit, and the outcome is accepted
with it. -/
def Resolved (input : VerifyAuthorityCommitEndToEndInput) (candidates : List OnChainCommit) :
    Prop :=
  ∃ c, (N.pickCanonicalCommit candidates input.proof).canonical = some c ∧ VerifiedWith N J input c

/-- The checks of the outcome against the authority and the memo, without the hashes
of the proof and of the input. -/
structure OutcomeChecks (input : VerifyAuthorityCommitEndToEndInput) (a : Pubkey) (m : Hash) :
    Prop where
  accepted : N.ProofAccepted input.authority input.alpha input.proof
  memoHash : m = N.sha256 input.memo.toBytes
  frozen : input.authority.frozen = true
  notRevoked : input.authority.revoked = false
  owner : ∀ o ∈ input.expectedOwner, input.authority.owner = o
  label : ∀ l ∈ input.expectedLabel, input.authority.label = l
  address : J.deriveAuthorityAddress input.authority.owner input.authority.label
      (input.programId.getD ccVrfProgramId) = .ok a ∧ ∀ e ∈ input.expectedAuthorityAddress, e = a
  beta : ∀ b ∈ input.onChainBeta, N.vrfProofToHash input.proof = .ok b

/-- A candidate has the hash of the proof. -/
def ProofMatches (input : VerifyAuthorityCommitEndToEndInput) (c : OnChainCommit) : Prop :=
  c.proofHash = (N.sha256 input.proof).1

/-- A candidate has the hash of the input. -/
def AlphaMatches (input : VerifyAuthorityCommitEndToEndInput) (c : OnChainCommit) : Prop :=
  c.alphaHash = (N.sha256 input.alpha).1

variable {N J} {input : VerifyAuthorityCommitEndToEndInput} {a : Pubkey} {m : Hash}

/-- The candidates of a state are candidates for its authority address. -/
lemma candidates_of_chain (c : Chain) (owner : Pubkey) (label : ByteVec 32) (memoHash : Hash) :
    Candidates (J.addressOf (authoritySeeds owner label) ccVrfProgramId) memoHash
      (c.candidates J owner label memoHash) := by
  intro commit hcommit
  obtain ⟨ev, hev, rfl⟩ := List.mem_map.mp hcommit
  have hmatch := (List.mem_filter.mp hev).2
  simp only [Bool.and_eq_true, beq_iff_eq] at hmatch
  exact ⟨rfl, congrArg Subtype.val hmatch.2⟩

/-- The verdict on a candidate: the checks it shares with the others, and its two
hashes. -/
lemma verifiedWith_iff {c : OnChainCommit} (hc : c.authority = some a ∧ c.memoHash = m.1) :
    VerifiedWith N J input c ↔
      OutcomeChecks N J input a m ∧ ProofMatches N input c ∧ AlphaMatches N input c := by
  rw [VerifiedWith, Noble.verifyAuthorityCommitEndToEnd_valid_iff]
  constructor
  · rintro ⟨hacc, ⟨hp, ha, hm⟩, hfrozen, hrevoked, howner, hlabel, ⟨a', ha', hca, hexp⟩, hbeta⟩
    obtain rfl : a = a' := Option.some.inj (hc.1.symm.trans hca)
    have hm' : m = N.sha256 input.memo.toBytes := Subtype.ext (hc.2.symm.trans hm)
    exact ⟨⟨hacc, hm', hfrozen, hrevoked, howner, hlabel, ⟨ha', hexp⟩, hbeta⟩, hp, ha⟩
  · rintro ⟨⟨hacc, hm, hfrozen, hrevoked, howner, hlabel, ⟨ha', hexp⟩, hbeta⟩, hp, ha⟩
    have hm' : c.memoHash = (N.sha256 input.memo.toBytes).1 := by rw [hc.2, hm]
    exact ⟨hacc, ⟨hp, ha, hm'⟩, hfrozen, hrevoked, howner, hlabel, ⟨a, ha', hc.1, hexp⟩, hbeta⟩

/-- An accepted candidate has the hash of the proof. -/
lemma proofMatches_of_verifiedWith {c : OnChainCommit} (h : VerifiedWith N J input c) :
    ProofMatches N input c :=
  ((Noble.verifyAuthorityCommitEndToEnd_valid_iff J _).mp h).committed.proofHash

/-- The pipeline is the search for the first candidate with the hash of the proof. -/
lemma resolved_iff_accepts (candidates : List OnChainCommit) :
    Resolved N J input candidates ↔
      FirstMatch.accepts (fun c => bytesEqual (N.sha256 input.proof).1 c.proofHash)
        (VerifiedWith N J input) candidates :=
  Iff.rfl

/-- **What event mode loses.** The pipeline accepts every order of a list of candidates
with an acceptable one, exactly when it is not the case that the outcome passes the
checks of the authority, some candidate has both hashes, and some candidate has the
hash of the proof with another input hash. -/
theorem eventMode_resolves_iff {candidates : List OnChainCommit} (hc : Candidates a m candidates) :
    (((∃ c ∈ candidates, VerifiedWith N J input c) → Resolved N J input candidates) ∧
        ∀ candidates', candidates'.Perm candidates →
          (Resolved N J input candidates' ↔ Resolved N J input candidates)) ↔
      ¬(OutcomeChecks N J input a m ∧
        (∃ c ∈ candidates, ProofMatches N input c ∧ AlphaMatches N input c) ∧
        ∃ c ∈ candidates, ProofMatches N input c ∧ ¬AlphaMatches N input c) := by
  have hvp : ∀ c, VerifiedWith N J input c →
      bytesEqual (N.sha256 input.proof).1 c.proofHash = true := fun c hv =>
    (bytesEqual_iff _ _).mpr (proofMatches_of_verifiedWith hv).symm
  simp only [resolved_iff_accepts]
  rw [FirstMatch.resolves_iff hvp]
  refine not_congr ?_
  constructor
  · rintro ⟨⟨c, hmem, hv⟩, c', hmem', hp', hv'⟩
    obtain ⟨hchecks, hboth⟩ := (verifiedWith_iff (hc c hmem)).mp hv
    have hp'' : ProofMatches N input c' := ((bytesEqual_iff _ _).mp hp').symm
    refine ⟨hchecks, ⟨c, hmem, hboth⟩, c', hmem', hp'', fun ha' => hv' ?_⟩
    exact (verifiedWith_iff (hc c' hmem')).mpr ⟨hchecks, hp'', ha'⟩
  · rintro ⟨hchecks, ⟨c, hmem, hboth⟩, c', hmem', hp', ha'⟩
    refine ⟨⟨c, hmem, (verifiedWith_iff (hc c hmem)).mpr ⟨hchecks, hboth⟩⟩, c', hmem',
      (bytesEqual_iff _ _).mpr hp'.symm, fun hv => ha' ?_⟩
    exact ((verifiedWith_iff (hc c' hmem')).mp hv).2.2

/-- The verdict of the verifier on a candidate, for concrete lists. -/
def verdict (N : Noble Point) (J : LightJs) (input : VerifyAuthorityCommitEndToEndInput)
    (c : OnChainCommit) : Bool :=
  (N.verifyAuthorityCommitEndToEnd J { input with onChainCommit := c }).toOption.any
    fun r => r.valid

lemma verifiedWith_iff_verdict {c : OnChainCommit} :
    VerifiedWith N J input c ↔ verdict N J input c = true := by
  rw [VerifiedWith, verdict]
  cases N.verifyAuthorityCommitEndToEnd J { input with onChainCommit := c } with
  | error e => simp [Except.toOption]
  | ok r => simp [Except.toOption]

lemma resolved_iff_verdict {candidates : List OnChainCommit} :
    Resolved N J input candidates ↔
      ((N.pickCanonicalCommit candidates input.proof).canonical.any (verdict N J input)) = true := by
  simp only [Resolved, verifiedWith_iff_verdict, Option.any_eq_true]

end EventMode

/-! ### A concrete run -/

namespace Sample

/-- An event with the hash of the proof and another input hash. -/
def decoy : Invocation :=
  commitProofEvent { operator with frozen := true } (Noble.sample.memoHash memo)
    (Noble.sample.proofHash proof) (key 21) 7

/-- The event of the outcome. -/
def genuine : Invocation :=
  commitProofEvent { operator with frozen := true } (Noble.sample.memoHash memo)
    (Noble.sample.proofHash proof) (Noble.sample.alphaHash alpha) 8

/-- The state after the operator has emitted the decoy and then the event of the
outcome. -/
def decoyState : Chain :=
  run Light.sample.exec Chain.empty
    [[initAuthority (key 1) operatorPk (key 2) 5], [freezeAuthority operator 6], [decoy], [genuine]]

/-- The candidates of that state. -/
def decoyCandidates : List OnChainCommit :=
  decoyState.candidates LightJs.sample (key 1) (key 2) (Noble.sample.memoHash memo)

/-- The outcome to check against the authority of that state. -/
def outcome : VerifyAuthorityCommitEndToEndInput :=
  (request (.event 0)).input
    (VrfAuthority.onChain { operator with frozen := true }
      (Light.sample.address (authoritySeeds (key 1) (key 2))))
    (⟨none, [], [], [], 0⟩, none)

end Sample

/-- The exact condition at the candidates of a reachable state. -/
theorem eventMode_resolves_sample :
    (((∃ c ∈ Sample.decoyCandidates,
            VerifiedWith Noble.sample LightJs.sample Sample.outcome c) →
          Resolved Noble.sample LightJs.sample Sample.outcome Sample.decoyCandidates) ∧
        ∀ candidates', candidates'.Perm Sample.decoyCandidates →
          (Resolved Noble.sample LightJs.sample Sample.outcome candidates' ↔
            Resolved Noble.sample LightJs.sample Sample.outcome Sample.decoyCandidates)) ↔
      ¬(OutcomeChecks Noble.sample LightJs.sample Sample.outcome
          (LightJs.sample.addressOf (authoritySeeds (Sample.key 1) (Sample.key 2)) ccVrfProgramId)
          (Noble.sample.memoHash Sample.memo) ∧
        (∃ c ∈ Sample.decoyCandidates, ProofMatches Noble.sample Sample.outcome c ∧
          AlphaMatches Noble.sample Sample.outcome c) ∧
        ∃ c ∈ Sample.decoyCandidates, ProofMatches Noble.sample Sample.outcome c ∧
          ¬AlphaMatches Noble.sample Sample.outcome c) :=
  eventMode_resolves_iff (candidates_of_chain _ _ _ _)

/-- **The valid commit is lost behind a decoy**: in a reachable state a candidate is
accepted, but the canonical one is not. -/
theorem not_resolved_decoy :
    ¬∀ (t : List (Executed Chain Invocation)) (c : Chain) (owner : Pubkey) (label : ByteVec 32)
      (memoHash : Hash) (input : VerifyAuthorityCommitEndToEndInput),
      Light.sample.Run Chain.empty t c →
        (∃ commit ∈ c.candidates LightJs.sample owner label memoHash,
          VerifiedWith Noble.sample LightJs.sample input commit) →
          Resolved Noble.sample LightJs.sample input
            (c.candidates LightJs.sample owner label memoHash) := by
  intro hlaw
  obtain ⟨t, h⟩ := run_history Chain.empty
    [[Sample.initAuthority (Sample.key 1) Sample.operatorPk (Sample.key 2) 5],
      [Sample.freezeAuthority Sample.operator 6], [Sample.decoy], [Sample.genuine]]
  have hgood : (Sample.decoyCandidates.any
      (verdict Noble.sample LightJs.sample Sample.outcome)) = true := by decide +kernel
  have hbad : ((Noble.sample.pickCanonicalCommit Sample.decoyCandidates
      Sample.outcome.proof).canonical.any
        (verdict Noble.sample LightJs.sample Sample.outcome)) = false := by decide +kernel
  obtain ⟨commit, hmem, hv⟩ := List.any_eq_true.mp hgood
  have hresolved := resolved_iff_verdict.mp
    (hlaw t _ (Sample.key 1) (Sample.key 2) (Noble.sample.memoHash Sample.memo) Sample.outcome h
      ⟨commit, hmem, verifiedWith_iff_verdict.mpr hv⟩)
  exact absurd (hresolved.symm.trans hbad) (by decide)

end CcVrf
