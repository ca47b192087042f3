import CcVrf.Program.Commits
import CcVrf.System.Requests

/-!
What a revocation does to outcomes that are already published.

* `verifiesCommit_later_iff`: of the checks of the verifier, a later state of the
  same authority can only fail the one of the flag `revoked`.
* `verified_later_iff`: an accepted request stays accepted exactly as long as no
  `revoke_authority` of its authority is executed.
* `not_verified_after_revoke`: a run in which a published outcome is lost.
-/

namespace CcVrf

open Runs

section Revocation

variable {Point : Type} [AddCommGroup Point] {N : Noble Point} {J : LightJs} {R : Rpc} {L : Light}
  {c c' : Chain} {t : List (Executed Chain Invocation)} {q : VerifyRequest}

/-- With a later state of the authority the checks still pass exactly when it is not
revoked. -/
lemma verifiesCommit_later_iff {d d' : VrfAuthority} (hlater : d.Later d') {a : Pubkey}
    {commit : OnChainCommit × Option Bytes} (h : N.VerifiesCommit J (q.input (d.onChain a) commit)) :
    N.VerifiesCommit J (q.input (d'.onChain a) commit) ↔ d'.revoked = false := by
  obtain ⟨⟨hsuite, hecvrf⟩, hcommitted, hfrozen, -, howner, hlabel, haddress, hbeta⟩ := h
  constructor
  · intro h'
    exact h'.notRevoked
  · intro hrevoked
    simp only [VerifyRequest.input, VrfAuthority.onChain] at *
    refine ⟨⟨?_, ?_⟩, hcommitted, hlater.frozen hfrozen, hrevoked, ?_, ?_, ?_, hbeta⟩
    · simpa only [hlater.suite] using hsuite
    · simpa only [hlater.pk] using hecvrf
    · simpa only [hlater.owner] using howner
    · simpa only [hlater.label] using hlabel
    · simpa only [hlater.owner, hlater.label] using haddress

/-- A decoded authority that was not revoked is found revoked later exactly when a
`revoke_authority` of its address has been executed. -/
lemma decodedAt_revoked_iff (h : L.Run c t c') {a : Pubkey} {d d' : VrfAuthority}
    (hd : DecodedAt c.ledger a d) (hd' : DecodedAt c'.ledger a d') (hnot : d.revoked = false) :
    d'.revoked = true ↔ ∃ e ∈ t, e.input.revokes a = true := by
  obtain ⟨acc, hacc, hdec⟩ := hd
  obtain ⟨acc', hacc', hdec'⟩ := hd'
  have hrun := Light.Run.revoked_iff h a
  rcases acc.authority_or_record with ⟨x, rfl⟩ | ⟨A, m, hkey⟩
  · obtain ⟨x', hx', -⟩ := (Light.Run.later h).authority hacc
    obtain rfl : acc' = .vrfAuthority x' := Option.some.inj (hacc'.symm.trans hx')
    rw [decodeAuthority_data] at hdec hdec'
    cases hdec
    cases hdec'
    have h0 : ¬c.Revoked a := by
      rintro ⟨y, hy, hr⟩
      rw [hacc] at hy
      cases hy
      rw [hnot] at hr
      cases hr
    rw [or_iff_right h0] at hrun
    rw [← hrun]
    constructor
    · intro hr
      exact ⟨_, hacc', hr⟩
    · rintro ⟨y, hy, hr⟩
      rw [hacc'] at hy
      cases hy
      exact hr
  · -- a record at the address: it never changes, and nothing there can be revoked
    have hsame := (Light.Run.later h).record hacc (by rw [hkey]; exact Option.some_ne_none _)
    obtain rfl : acc = acc' := Option.some.inj (hsame.symm.trans hacc')
    obtain rfl : d = d' := Except.ok.inj (hdec.symm.trans hdec')
    have hnever : ¬c'.Revoked a := by
      rintro ⟨y, hy, -⟩
      rw [hacc'] at hy
      cases hy
      cases hkey
    rw [hnot]
    exact ⟨fun h => (nomatch h), fun he => absurd (hrun.mpr (.inr he)) hnever⟩

/-- **Published outcomes last until the authority is revoked**: a request that is
accepted in one state is accepted in a later one exactly when no `revoke_authority`
of its authority was executed in between. -/
theorem verified_later_iff (hv : Verified N J R c q) (h : L.Run c t c') :
    ∃ a, q.authorityAddress J = .ok a ∧
      (Verified N J R c' q ↔ ∀ e ∈ t, e.input.revokes a = false) := by
  obtain ⟨a, ha⟩ := hv.authorityAddress
  refine ⟨a, ha, ?_⟩
  obtain ⟨d, commit, hd, hcommit, hver⟩ := (verified_iff ha).mp hv
  obtain ⟨d', hd', hlater⟩ := decodedAt_later (Light.Run.later h) hd
  have hcommit' := fetchCommit_later (Light.Run.later h) hcommit
  have hflag := decodedAt_revoked_iff h hd hd' hver.notRevoked
  have hnone : (∀ e ∈ t, e.input.revokes a = false) ↔ d'.revoked = false := by
    rw [← Bool.not_eq_true, hflag]
    simp
  rw [hnone, verified_iff ha]
  constructor
  · rintro ⟨d'', commit'', hd'', -, hver''⟩
    obtain rfl := hd''.unique hd'
    exact hver''.notRevoked
  · intro hrevoked
    exact ⟨d', commit, hd', hcommit', (verifiesCommit_later_iff hlater hver).mpr hrevoked⟩

end Revocation

/-! ### A concrete run -/

namespace Sample

/-- The revocation of the authority. -/
def revocation : Invocation := revokeAuthority { operator with frozen := true } 9

/-- The state after the revocation. -/
def revokedState : Chain := runTx Light.sample.exec publishedState [revocation]

/-- The run from the one state to the other. -/
lemma exists_revocation : ∃ t, t.map Executed.input = [revocation] ∧
    Light.sample.Run publishedState t revokedState :=
  runTx_history Light.sample.exec publishedState [revocation] (by decide +kernel)

/-- The outcome is accepted from the log. -/
lemma accepted_event : accepted (verifyFetched Noble.sample LightJs.sample Rpc.sample
    publishedState (request (.event 0))) = true := by
  decide +kernel

end Sample

/-- The outcome is accepted when published, from the registry and from the log, and
the exact condition holds of the run that revokes the authority. -/
theorem verified_later_sample :
    ∃ t, t.map Executed.input = [Sample.revocation] ∧
      Light.sample.Run Sample.publishedState t Sample.revokedState ∧
      ∀ source ∈ [CommitSource.registry, .event 0], ∃ a,
        (Sample.request source).authorityAddress LightJs.sample = .ok a ∧
          (Verified Noble.sample LightJs.sample Rpc.sample Sample.revokedState
              (Sample.request source) ↔
            ∀ e ∈ t, e.input.revokes a = false) := by
  obtain ⟨t, ht, hrun⟩ := Sample.exists_revocation
  refine ⟨t, ht, hrun, fun source hsource => verified_later_iff ?_ hrun⟩
  have haccepted : ∀ source ∈ [CommitSource.registry, .event 0],
      accepted (verifyFetched Noble.sample LightJs.sample Rpc.sample Sample.publishedState
        (Sample.request source)) = true := by
    rw [List.forall_mem_cons, List.forall_mem_singleton]
    exact ⟨Sample.accepted_registry, Sample.accepted_event⟩
  exact verified_iff_accepted.mpr (haccepted source hsource)

/-- **A published outcome is lost**: the owner revokes the authority, and the outcome
that was accepted before is not accepted any more. -/
theorem not_verified_after_revoke :
    ¬∀ (t₀ t : List (Executed Chain Invocation)) (c c' : Chain) (q : VerifyRequest),
      Light.sample.Run Chain.empty t₀ c → Verified Noble.sample LightJs.sample Rpc.sample c q →
        Light.sample.Run c t c' → Verified Noble.sample LightJs.sample Rpc.sample c' q := by
  intro hstable
  obtain ⟨t₀, h₀⟩ := run_history Chain.empty (Sample.published.map fun i => [i])
  obtain ⟨t, -, h⟩ := Sample.exists_revocation
  have hafter : accepted (verifyFetched Noble.sample LightJs.sample Rpc.sample
      Sample.revokedState (Sample.request .registry)) = false := by decide +kernel
  have hbefore := verified_iff_accepted.mpr Sample.accepted_registry
  have hverified := verified_iff_accepted.mp (hstable t₀ t _ _ _ h₀ hbefore h)
  exact absurd (hverified.symm.trans hafter) (by decide)

end CcVrf
