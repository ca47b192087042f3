import CcVrf.Client.VerifyEndToEnd

/-!
The fetchers of the client (`operations.ts`), on the state of the chain at the
moment of the request.

* `fetchAuthority`, `fetchProofCommit`, `fetchProofCommitWithBeta`: as in the
  source; `none` is its `null`.
* `fetchAuthority_eq_some_iff` and its siblings: a fetch that finds an account decodes
  the leaf at the derived address.
-/

namespace CcVrf

/-- The result of `fetchAuthority`. -/
structure FetchedAuthority where
  authorityAddress : Pubkey
  account : CompressedAccount
  decoded : VrfAuthority
  onChainAuthority : OnChainAuthority

/-- The result of `fetchProofCommit`. -/
structure FetchedProofCommit where
  commitAddress : Pubkey
  account : CompressedAccount
  decoded : VrfProofCommit
  onChainCommit : OnChainCommit

/-- The result of `fetchProofCommitWithBeta`. -/
structure FetchedProofCommitWithBeta where
  commitAddress : Pubkey
  account : CompressedAccount
  decoded : VrfProofCommitWithBeta
  onChainCommit : OnChainCommit
  beta : Bytes

/-- The authority in the form that the verifiers take. -/
def VrfAuthority.onChain (a : VrfAuthority) (authorityAddress : Pubkey) : OnChainAuthority where
  authorityAddress := some authorityAddress
  owner := a.owner
  pk := a.pk.1
  suite := a.suite.toNat
  frozen := a.frozen
  revoked := a.revoked
  label := a.label.1

/-- A commit in the form that the verifiers take. -/
def CommitHeader.onChain (h : CommitHeader) (committedSlot : UInt64) : OnChainCommit where
  authority := some h.authority
  memoHash := h.memoHash.1
  proofHash := h.proofHash.1
  alphaHash := h.alphaHash.1
  committedSlot := committedSlot.toNat

/-- An event in the form that the verifiers take, with the address derived from its
owner and label. -/
def VrfProofCommitted.onChain (ev : VrfProofCommitted) (authority : Pubkey) : OnChainCommit :=
  CommitHeader.onChain ⟨authority, ev.memoHash, ev.proofHash, ev.alphaHash⟩ ev.committedSlot

section Fetch

variable {Point : Type} [AddCommGroup Point] (N : Noble Point) (J : LightJs) (R : Rpc)
  (ledger : Ledger) (programId : Pubkey)

/-- `fetchAuthority`. -/
def fetchAuthority (owner : Pubkey) (label : StringOrBytes) : Throws (Option FetchedAuthority) := do
  let labelBytes ← label.labelBytes
  let authorityAddress ← J.deriveAuthorityAddress owner labelBytes programId
  match R.getCompressedAccount ledger authorityAddress with
  | none => return none
  | some account => do
      let decoded ← decodeAuthority account.data
      return some
        { authorityAddress := authorityAddress
          account := account
          decoded := decoded
          onChainAuthority := decoded.onChain authorityAddress }

/-- `fetchProofCommit`. -/
def fetchProofCommit (authority : Pubkey) (memo : StringOrBytes) :
    Throws (Option FetchedProofCommit) := do
  let mh := (N.memoHash memo).1
  let commitAddress ← J.deriveProofCommitAddress authority mh programId
  match R.getCompressedAccount ledger commitAddress with
  | none => return none
  | some account => do
      let decoded ← decodeProofCommit account.data
      return some
        { commitAddress := commitAddress
          account := account
          decoded := decoded
          onChainCommit := decoded.header.onChain decoded.committedSlot }

/-- `fetchProofCommitWithBeta`. -/
def fetchProofCommitWithBeta (authority : Pubkey) (memo : StringOrBytes) :
    Throws (Option FetchedProofCommitWithBeta) := do
  let mh := (N.memoHash memo).1
  let commitAddress ← J.deriveProofCommitWithBetaAddress authority mh programId
  match R.getCompressedAccount ledger commitAddress with
  | none => return none
  | some account => do
      let decoded ← decodeProofCommitWithBeta account.data
      let beta := decoded.betaLo.1 ++ decoded.betaHi.1
      return some
        { commitAddress := commitAddress
          account := account
          decoded := decoded
          beta := beta
          onChainCommit := decoded.header.onChain decoded.committedSlot }

end Fetch

/-! ### What a successful fetch says -/

section Specs

variable {Point : Type} [AddCommGroup Point] {N : Noble Point} {J : LightJs} {R : Rpc}
  {ledger : Ledger} {programId : Pubkey}

/-- The account that the node returns for a stored account. -/
def Rpc.compressed (R : Rpc) (ledger : Ledger) (a : Pubkey) (acc : Account) : CompressedAccount where
  hash := (R.leafPosition ledger a).hash
  tree := (R.leafPosition ledger a).tree
  queue := (R.leafPosition ledger a).queue
  leafIndex := (R.leafPosition ledger a).leafIndex
  address := a
  data := acc.data

/-- A fetch of an account: the node has none, or its leaf is decoded. -/
lemma fetched_eq_some_iff {α β : Type} {a : Pubkey} {decode : Bytes → Throws α}
    {result : CompressedAccount → α → β} {f : β} :
    (match R.getCompressedAccount ledger a with
      | none => (.ok none : Throws (Option β))
      | some account => do
          let d ← decode account.data
          return some (result account d)) = .ok (some f) ↔
      ∃ acc d, ledger a = some acc ∧ decode acc.data = .ok d ∧
        f = result (R.compressed ledger a acc) d := by
  rw [Rpc.getCompressedAccount]
  cases hacc : ledger a with
  | none => simp
  | some acc =>
      constructor
      · intro h
        obtain ⟨d, hd, h⟩ := bind_eq_ok_iff.mp h
        cases h
        exact ⟨acc, d, rfl, hd, rfl⟩
      · rintro ⟨acc', d, hacc', hd, rfl⟩
        obtain rfl := Option.some.inj hacc'
        exact bind_eq_ok_iff.mpr ⟨d, hd, rfl⟩

/-- **A fetch of an authority** decodes the leaf at the address of the label. -/
lemma fetchAuthority_eq_some_iff {owner : Pubkey} {label : StringOrBytes} {f : FetchedAuthority} :
    fetchAuthority J R ledger programId owner label = .ok (some f) ↔
      ∃ l a, label.labelBytes = .ok l ∧ J.deriveAuthorityAddress owner l programId = .ok a ∧
        ∃ acc d, ledger a = some acc ∧ decodeAuthority acc.data = .ok d ∧
          f = ⟨a, R.compressed ledger a acc, d, d.onChain a⟩ := by
  simp only [fetchAuthority, bind_eq_ok_iff]
  constructor
  · rintro ⟨l, hl, a, ha, h⟩
    exact ⟨l, a, hl, ha, fetched_eq_some_iff.mp h⟩
  · rintro ⟨l, a, hl, ha, h⟩
    exact ⟨l, hl, a, ha, fetched_eq_some_iff.mpr h⟩

variable {authority : Pubkey} {memo : StringOrBytes}

/-- **A fetch of a commit** decodes the leaf at the address of the memo. -/
lemma fetchProofCommit_eq_some_iff {f : FetchedProofCommit} :
    fetchProofCommit N J R ledger programId authority memo = .ok (some f) ↔
      ∃ acc d, ledger (J.addressOf (proofCommitSeeds authority (N.memoHash memo)) programId) =
          some acc ∧ decodeProofCommit acc.data = .ok d ∧
        f = ⟨J.addressOf (proofCommitSeeds authority (N.memoHash memo)) programId,
          R.compressed ledger (J.addressOf (proofCommitSeeds authority (N.memoHash memo)) programId)
            acc, d, d.header.onChain d.committedSlot⟩ := by
  simp only [fetchProofCommit, LightJs.deriveProofCommitAddress_eq, ok_bind]
  exact fetched_eq_some_iff

/-- A fetch of a commit with its output decodes the same leaf in the other layout. -/
lemma fetchProofCommitWithBeta_eq_some_iff {f : FetchedProofCommitWithBeta} :
    fetchProofCommitWithBeta N J R ledger programId authority memo = .ok (some f) ↔
      ∃ acc d, ledger (J.addressOf (proofCommitSeeds authority (N.memoHash memo)) programId) =
          some acc ∧ decodeProofCommitWithBeta acc.data = .ok d ∧
        f = ⟨J.addressOf (proofCommitSeeds authority (N.memoHash memo)) programId,
          R.compressed ledger (J.addressOf (proofCommitSeeds authority (N.memoHash memo)) programId)
            acc, d, d.header.onChain d.committedSlot, d.betaLo.1 ++ d.betaHi.1⟩ := by
  simp only [fetchProofCommitWithBeta, LightJs.deriveProofCommitWithBetaAddress_eq,
    LightJs.deriveProofCommitAddress_eq, ok_bind]
  exact fetched_eq_some_iff

end Specs

end CcVrf
