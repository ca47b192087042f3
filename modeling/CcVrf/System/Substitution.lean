import CcVrf.System.Requests

/-!
A registry commit binds its outcome: no second outcome is ever accepted for the same
authority and memo.

* `Committed.hashes_eq`: two outcomes that match one commit have the same hashes.
* `no_substitution`: two accepted requests at any two moments of a run, for one
  authority address and equal memo bytes, are about the same input and proof, under
  the same key, with the same output.
-/

namespace CcVrf

open Runs

variable {Point : Type} [AddCommGroup Point] {N : Noble Point} {J : LightJs} {R : Rpc} {L : Light}

/-- Two outcomes that match commits with the same stored fields have the same
hashes. -/
lemma Noble.Committed.hashes_eq {alpha₁ alpha₂ proof₁ proof₂ : Bytes} {memo₁ memo₂ : StringOrBytes}
    {h : CommitHeader} {slot₁ slot₂ : UInt64}
    (h₁ : N.Committed alpha₁ proof₁ memo₁ (h.onChain slot₁))
    (h₂ : N.Committed alpha₂ proof₂ memo₂ (h.onChain slot₂)) :
    N.sha256 alpha₁ = N.sha256 alpha₂ ∧ N.sha256 proof₁ = N.sha256 proof₂ :=
  ⟨Subtype.ext (h₁.alphaHash.symm.trans h₂.alphaHash),
    Subtype.ext (h₁.proofHash.symm.trans h₂.proofHash)⟩

/-- **No substitution in the registry.** Between two moments of a run, for one
authority address and equal memo bytes, only one outcome is ever accepted. SHA-256
must not collide on the two inputs and on the two proofs. -/
theorem no_substitution {c₁ c₂ : Chain} {t : List (Executed Chain Invocation)}
    (h : L.Run c₁ t c₂) {q₁ q₂ : VerifyRequest} {a : Pubkey}
    {r₁ r₂ : VerifyAuthorityCommitEndToEndResult}
    (hsource₁ : ∀ n, q₁.source ≠ .event n) (hsource₂ : ∀ n, q₂.source ≠ .event n)
    (ha₁ : q₁.authorityAddress J = .ok a) (ha₂ : q₂.authorityAddress J = .ok a)
    (hmemo : q₁.memo.toBytes = q₂.memo.toBytes)
    (hr₁ : verifyFetched N J R c₁ q₁ = .ok (some r₁)) (hvalid₁ : r₁.valid = true)
    (hr₂ : verifyFetched N J R c₂ q₂ = .ok (some r₂)) (hvalid₂ : r₂.valid = true)
    (halpha : N.sha256 q₁.alpha = N.sha256 q₂.alpha → q₁.alpha = q₂.alpha)
    (hproof : N.sha256 q₁.proof = N.sha256 q₂.proof → q₁.proof = q₂.proof) :
    q₁.alpha = q₂.alpha ∧ q₁.proof = q₂.proof ∧
      (∃ d₁ d₂, DecodedAt c₁.ledger a d₁ ∧ DecodedAt c₂.ledger a d₂ ∧ d₁.pk = d₂.pk) ∧
      ∃ beta, r₁.beta = some beta ∧ r₂.beta = some beta := by
  obtain ⟨d₁, commit₁, hd₁, hcommit₁, hver₁⟩ := (verifyFetched_eq_some_iff ha₁ r₁).mp hr₁
  obtain ⟨d₂, commit₂, hd₂, hcommit₂, hver₂⟩ := (verifyFetched_eq_some_iff ha₂ r₂).mp hr₂
  -- the authority keeps its key
  obtain ⟨d₂', hd₂', hlater⟩ := decodedAt_later (Light.Run.later h) hd₁
  obtain rfl := hd₂'.unique hd₂
  -- the record at the address of the memo is the same one
  obtain ⟨acc₁, hacc₁, hdec₁⟩ := (fetchCommit_registry_iff hsource₁).mp hcommit₁
  obtain ⟨acc₂, hacc₂, hdec₂⟩ := (fetchCommit_registry_iff hsource₂).mp hcommit₂
  obtain ⟨hd, slot₁, hh₁, hc₁⟩ := hdec₁.header
  obtain ⟨hd', slot₂, hh₂, hc₂⟩ := hdec₂.header
  have hmemoHash : N.memoHash q₁.memo = N.memoHash q₂.memo := congrArg N.sha256 hmemo
  have hacc₁' := record_later (Light.Run.later h) hacc₁ hh₁
  rw [hmemoHash, hacc₂] at hacc₁'
  cases hacc₁'
  obtain rfl : hd = hd' := Option.some.inj (hh₁.symm.trans hh₂)
  have hcommitted₁ := ((Noble.verifyAuthorityCommitEndToEnd_spec hver₁).valid.mp hvalid₁).committed
  have hcommitted₂ := ((Noble.verifyAuthorityCommitEndToEnd_spec hver₂).valid.mp hvalid₂).committed
  simp only [VerifyRequest.input, hc₁] at hcommitted₁
  simp only [VerifyRequest.input, hc₂] at hcommitted₂
  obtain ⟨hashAlpha, hashProof⟩ := hcommitted₁.hashes_eq hcommitted₂
  have hproofs := hproof hashProof
  obtain ⟨beta₁, hbeta₁, hout₁⟩ := Noble.beta_of_valid hver₁ hvalid₁
  obtain ⟨beta₂, hbeta₂, hout₂⟩ := Noble.beta_of_valid hver₂ hvalid₂
  have hbeta : beta₁ = beta₂ := by
    have hout : N.vrfProofToHash q₁.proof = .ok beta₁ := hout₁
    rw [hproofs] at hout
    exact Except.ok.inj (hout.symm.trans hout₂)
  exact ⟨halpha hashAlpha, hproofs, ⟨d₁, d₂', hd₁, hd₂, hlater.pk.symm⟩, beta₁, hbeta₁,
    hbeta ▸ hbeta₂⟩

/-! ### A concrete run -/

namespace Sample

/-- A second event for the memo, with other hashes. -/
def duplicate : Invocation :=
  commitProofEvent { operator with frozen := true } (Noble.sample.memoHash memo) (key 20) (key 21) 9

/-- The state after the second event. -/
def duplicatedState : Chain := run Light.sample.exec publishedState [[duplicate]]

/-- The request with its memo given as a string. -/
def stringRequest : VerifyRequest := { request .registry with memo := .string [1] }

end Sample

/-- The outcome is accepted when published and after a second event, with its memo
given as bytes and as a string. -/
theorem no_substitution_sample :
    ∃ t r₁ r₂, Light.sample.Run Sample.publishedState t Sample.duplicatedState ∧
      verifyFetched Noble.sample LightJs.sample Rpc.sample Sample.publishedState
        (Sample.request .registry) = .ok (some r₁) ∧ r₁.valid = true ∧
      verifyFetched Noble.sample LightJs.sample Rpc.sample Sample.duplicatedState
        Sample.stringRequest = .ok (some r₂) ∧ r₂.valid = true ∧
      ∃ beta, r₁.beta = some beta ∧ r₂.beta = some beta := by
  have hafter : accepted (verifyFetched Noble.sample LightJs.sample Rpc.sample
      Sample.duplicatedState Sample.stringRequest) = true := by decide +kernel
  obtain ⟨r₁, hr₁, hvalid₁⟩ := verified_iff_accepted.mpr Sample.accepted_registry
  obtain ⟨r₂, hr₂, hvalid₂⟩ := verified_iff_accepted.mpr hafter
  obtain ⟨t, h⟩ := run_history Sample.publishedState [[Sample.duplicate]]
  have hsource : ∀ n, CommitSource.registry ≠ .event n := fun n h => nomatch h
  obtain ⟨-, -, -, beta⟩ := no_substitution h hsource hsource rfl rfl (by decide +kernel) hr₁
    hvalid₁ hr₂ hvalid₂ (fun _ => rfl) fun _ => rfl
  exact ⟨t, r₁, r₂, h, hr₁, hvalid₁, hr₂, hvalid₂, beta⟩

end CcVrf
