import CcVrf.Ecvrf.Encoding

/-!
The records of the program (`state.rs`), its event (`events.rs`) and its errors
(`errors.rs`).

* `VrfAuthority`, `VrfProofCommit`, `VrfProofCommitWithBeta`: the three kinds of
  compressed account. `Account` is one of them with its discriminator, so that two
  kinds are never equal.
* `Account.seeds`: the seeds that a record's own fields name. Both kinds of commit
  share one seed prefix.
* `Account.commitKey`: the authority and memo hash of a registry record of either
  kind.
-/

namespace CcVrf

/-- A Solana public key, also the type of a compressed address. -/
abbrev Pubkey := ByteVec 32

/-- A SHA-256 output. -/
abbrev Hash := ByteVec 32

/-- `SUITE_EDWARDS25519_SHA512_TAI`. -/
def suiteEdwards25519Sha512Tai : UInt8 := 0x03

/-- The published key of an operator. -/
structure VrfAuthority where
  owner : Pubkey
  pk : ByteVec 32
  suite : UInt8
  frozen : Bool
  revoked : Bool
  label : ByteVec 32
  createdSlot : UInt64
deriving DecidableEq

/-- The registry record of one VRF call. -/
structure VrfProofCommit where
  authority : Pubkey
  memoHash : Hash
  proofHash : Hash
  alphaHash : Hash
  committedSlot : UInt64
deriving DecidableEq

/-- The registry record that also stores the output, in two halves. -/
structure VrfProofCommitWithBeta where
  authority : Pubkey
  memoHash : Hash
  proofHash : Hash
  alphaHash : Hash
  betaLo : ByteVec 32
  betaHi : ByteVec 32
  committedSlot : UInt64
deriving DecidableEq

/-- The event of an event-mode commitment. -/
structure VrfProofCommitted where
  owner : Pubkey
  label : ByteVec 32
  memoHash : Hash
  proofHash : Hash
  alphaHash : Hash
  committedSlot : UInt64
deriving DecidableEq

/-- The errors of the program. -/
inductive VrfError where
  | authorityFrozen
  | alreadyFrozen
  | authorityNotFrozen
  | authorityRevoked
  | notOwner
  | authorityLabelMismatch
  | authorityAddressMismatch
  | labelTooLong
  | unsupportedSuite
  | invalidPublicKeyLength
deriving DecidableEq

/-- `VrfAuthority::SEED_PREFIX`. -/
def VrfAuthority.seedPrefix : Bytes := "vrf_authority".toUTF8.toList

/-- `VrfProofCommit::SEED_PREFIX`. -/
def VrfProofCommit.seedPrefix : Bytes := "vrf_proof".toUTF8.toList

/-- `VrfProofCommitWithBeta::SEED_PREFIX`. -/
def VrfProofCommitWithBeta.seedPrefix : Bytes := VrfProofCommit.seedPrefix

/-- The seeds of the authority of an owner under a label. -/
def authoritySeeds (owner : Pubkey) (label : ByteVec 32) : List Bytes :=
  [VrfAuthority.seedPrefix, owner.1, label.1]

/-- The seeds of the registry record of a memo under an authority. -/
def proofCommitSeeds (authority : Pubkey) (memoHash : Hash) : List Bytes :=
  [VrfProofCommit.seedPrefix, authority.1, memoHash.1]

@[simp] lemma authoritySeeds_inj {o o' : Pubkey} {l l' : ByteVec 32} :
    authoritySeeds o l = authoritySeeds o' l' ↔ o = o' ∧ l = l' := by
  simp [authoritySeeds, Subtype.ext_iff]

@[simp] lemma proofCommitSeeds_inj {a a' : Pubkey} {m m' : Hash} :
    proofCommitSeeds a m = proofCommitSeeds a' m' ↔ a = a' ∧ m = m' := by
  simp [proofCommitSeeds, Subtype.ext_iff]

/-- The prefixes separate the two namespaces. -/
lemma authoritySeeds_ne_proofCommitSeeds (o a : Pubkey) (l : ByteVec 32) (m : Hash) :
    authoritySeeds o l ≠ proofCommitSeeds a m := by
  intro h
  have hprefix : VrfAuthority.seedPrefix = VrfProofCommit.seedPrefix := (List.cons.inj h).1
  exact absurd hprefix (by decide +kernel)

/-- A compressed account of the program. The constructor is its discriminator. -/
inductive Account where
  | vrfAuthority (data : VrfAuthority)
  | vrfProofCommit (data : VrfProofCommit)
  | vrfProofCommitWithBeta (data : VrfProofCommitWithBeta)
deriving DecidableEq

namespace Account

/-- The seeds named by the fields of an account. -/
def seeds : Account → List Bytes
  | vrfAuthority d => authoritySeeds d.owner d.label
  | vrfProofCommit d => proofCommitSeeds d.authority d.memoHash
  | vrfProofCommitWithBeta d => proofCommitSeeds d.authority d.memoHash

/-- The authority and memo hash of a registry record of either kind. -/
def commitKey : Account → Option (Pubkey × Hash)
  | vrfAuthority _ => none
  | vrfProofCommit d => some (d.authority, d.memoHash)
  | vrfProofCommitWithBeta d => some (d.authority, d.memoHash)

/-- An account is an authority or a registry record. -/
lemma authority_or_record (acc : Account) :
    (∃ d, acc = .vrfAuthority d) ∨ ∃ A m, acc.commitKey = some (A, m) := by
  cases acc with
  | vrfAuthority d => exact .inl ⟨d, rfl⟩
  | vrfProofCommit d => exact .inr ⟨d.authority, d.memoHash, rfl⟩
  | vrfProofCommitWithBeta d => exact .inr ⟨d.authority, d.memoHash, rfl⟩

/-- The seeds of a registry record are those of its key. -/
lemma seeds_of_commitKey {acc : Account} {A : Pubkey} {m : Hash}
    (h : acc.commitKey = some (A, m)) : acc.seeds = proofCommitSeeds A m := by
  cases acc with
  | vrfAuthority d => cases h
  | vrfProofCommit d => cases h; rfl
  | vrfProofCommitWithBeta d => cases h; rfl

end Account

end CcVrf
