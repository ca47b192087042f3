import CcVrf.Ecvrf.Noble
import CcVrf.Program.Light

/-!
The six instructions of the program (`lib.rs` and `instructions/`).

* `initAuthorityHandler`, `freezeAuthorityHandler`, `revokeAuthorityHandler`,
  `commitProofHandler`, `commitProofWithBetaHandler`, `commitProofEventHandler`:
  the handlers, with their checks in the order of the source. The arguments, the
  snapshot `currentAuthority` included, are whatever the caller supplies.
* `exec`: Anchor's validation of the accounts, then the handler.
-/

namespace CcVrf

/-- An account of an instruction. -/
structure AccountInfo where
  key : Pubkey
  isSigner : Bool
  isWritable : Bool
deriving DecidableEq

/-- `Context`: the accounts that every instruction gets, and the slot of the
clock. -/
structure Context where
  owner : AccountInfo
  remainingAccounts : List Pubkey
  slot : UInt64
deriving DecidableEq

/-- What the program has written: its compressed accounts, and the events of its
logs in order. -/
structure Chain where
  ledger : Ledger
  events : List VrfProofCommitted

/-- The state before the first instruction. -/
def Chain.empty : Chain := ⟨fun _ => none, []⟩

/-- `require!`. -/
def require (cond : Prop) [Decidable cond] (e : VrfError) : Except ProgramError Unit :=
  if cond then .ok () else .error (.vrf e)

@[simp] lemma require_eq_ok_iff (cond : Prop) [Decidable cond] (e : VrfError) (u : Unit) :
    require cond e = .ok u ↔ cond := by
  rw [require]
  split <;> simp_all

/-- `#[account(mut)] pub owner: Signer`. -/
def Context.validate (ctx : Context) : Except ProgramError Unit :=
  if ctx.owner.isSigner = false then .error .accountNotSigner
  else if ctx.owner.isWritable = false then .error .constraintMut
  else .ok ()

/-- The key of the system program. -/
def systemProgramId : Pubkey := ⟨List.replicate 32 0, rfl⟩

/-- The accounts of `InitAuthority`. -/
def Context.validateInit (ctx : Context) (systemProgram : Pubkey) : Except ProgramError Unit :=
  if ctx.owner.isSigner = false then .error .accountNotSigner
  else if systemProgram ≠ systemProgramId then .error .invalidProgramId
  else if ctx.owner.isWritable = false then .error .constraintMut
  else .ok ()

namespace Light

variable (L : Light)

/-- `tree_pubkeys` of the packed accounts. -/
def packedTreePubkeys (ctx : Context) : Except ProgramError (List Pubkey) :=
  (L.treePubkeys ctx.remainingAccounts).elim (.error .invalidAccountData) .ok

/-- The address tree of a new address, which has to be the fixed one. -/
def checkedAddressTree (ctx : Context) (info : PackedAddressTreeInfo) :
    Except ProgramError Pubkey := do
  let addressTreePubkey ← L.getTreePubkey ctx.remainingAccounts info
  if addressTreePubkey ≠ L.addressTreeV2 then .error .invalidAccountData
  else .ok addressTreePubkey

/-- `init_authority_handler`. -/
def initAuthorityHandler (c : Chain) (ctx : Context) (proof : ValidityProof)
    (addressTreeInfo : PackedAddressTreeInfo) (outputStateTreeIndex : UInt8) (pk : ByteVec 32)
    (suite : UInt8) (label : ByteVec 32) : Except ProgramError Chain := do
  require (suite = suiteEdwards25519Sha512Tai) .unsupportedSuite
  let addressTreePubkey ← L.checkedAddressTree ctx addressTreeInfo
  let ownerKey := ctx.owner.key
  let derived :=
    L.deriveAddress [VrfAuthority.seedPrefix, ownerKey.1, label.1] addressTreePubkey programId
  let newAddressParams : NewAddressParams := ⟨derived.2, addressTreeInfo, some 0⟩
  let authority : VrfAuthority :=
    { owner := ownerKey
      pk := pk
      suite := suite
      frozen := false
      revoked := false
      label := label
      createdSlot := ctx.slot }
  let ledger ← L.invoke c.ledger
    { proof := proof
      lightAccounts := [.newInit derived.1 outputStateTreeIndex (.vrfAuthority authority)]
      newAddresses := [newAddressParams]
      feePayer := ctx.owner.key
      remainingAccounts := ctx.remainingAccounts }
  return { c with ledger := ledger }

/-- The call that `freeze_authority` and `revoke_authority` end with: the supplied
authority is rewritten whole. -/
def rewriteAuthority (c : Chain) (ctx : Context) (proof : ValidityProof)
    (currentAuthority authority : VrfAuthority) (accountMeta : CompressedAccountMeta) :
    Except ProgramError Chain := do
  let ledger ← L.invoke c.ledger
    { proof := proof
      lightAccounts :=
        [.newMut accountMeta (.vrfAuthority currentAuthority) (.vrfAuthority authority)]
      newAddresses := []
      feePayer := ctx.owner.key
      remainingAccounts := ctx.remainingAccounts }
  return { c with ledger := ledger }

/-- `freeze_authority_handler`. -/
def freezeAuthorityHandler (c : Chain) (ctx : Context) (proof : ValidityProof)
    (currentAuthority : VrfAuthority) (accountMeta : CompressedAccountMeta) :
    Except ProgramError Chain := do
  require (currentAuthority.owner = ctx.owner.key) .notOwner
  require (currentAuthority.frozen = false) .alreadyFrozen
  L.rewriteAuthority c ctx proof currentAuthority { currentAuthority with frozen := true }
    accountMeta

/-- `revoke_authority_handler`. -/
def revokeAuthorityHandler (c : Chain) (ctx : Context) (proof : ValidityProof)
    (currentAuthority : VrfAuthority) (accountMeta : CompressedAccountMeta) :
    Except ProgramError Chain := do
  require (currentAuthority.owner = ctx.owner.key) .notOwner
  L.rewriteAuthority c ctx proof currentAuthority { currentAuthority with revoked := true }
    accountMeta

/-- The body that the two registry handlers share, with the record to write, given
the address of the authority. Neither checks that address against the owner and
the label of the authority. -/
def commitRecord (c : Chain) (ctx : Context) (proof : ValidityProof)
    (authorityAccountMeta : CompressedAccountMetaReadOnly) (currentAuthority : VrfAuthority)
    (addressTreeInfo : PackedAddressTreeInfo) (outputStateTreeIndex : UInt8) (seedPrefix : Bytes)
    (memoHash : Hash) (record : Pubkey → Account) : Except ProgramError Chain := do
  require (currentAuthority.owner = ctx.owner.key) .notOwner
  require (currentAuthority.frozen = true) .authorityNotFrozen
  require (currentAuthority.revoked = false) .authorityRevoked
  let authorityAddress := authorityAccountMeta.address
  let addressTreePubkey ← L.checkedAddressTree ctx addressTreeInfo
  let derived :=
    L.deriveAddress [seedPrefix, authorityAddress.1, memoHash.1] addressTreePubkey programId
  let newAddressParams : NewAddressParams := ⟨derived.2, addressTreeInfo, some 0⟩
  let treePubkeys ← L.packedTreePubkeys ctx
  let authReadonly ←
    L.newReadOnly authorityAccountMeta (.vrfAuthority currentAuthority) treePubkeys
  let ledger ← L.invoke c.ledger
    { proof := proof
      lightAccounts :=
        [authReadonly, .newInit derived.1 outputStateTreeIndex (record authorityAddress)]
      newAddresses := [newAddressParams]
      feePayer := ctx.owner.key
      remainingAccounts := ctx.remainingAccounts }
  return { c with ledger := ledger }

/-- `commit_proof_handler`. -/
def commitProofHandler (c : Chain) (ctx : Context) (proof : ValidityProof)
    (authorityAccountMeta : CompressedAccountMetaReadOnly) (currentAuthority : VrfAuthority)
    (addressTreeInfo : PackedAddressTreeInfo) (outputStateTreeIndex : UInt8)
    (memoHash proofHash alphaHash : Hash) : Except ProgramError Chain :=
  L.commitRecord c ctx proof authorityAccountMeta currentAuthority addressTreeInfo
    outputStateTreeIndex VrfProofCommit.seedPrefix memoHash fun authority =>
      .vrfProofCommit
        { authority := authority
          memoHash := memoHash
          proofHash := proofHash
          alphaHash := alphaHash
          committedSlot := ctx.slot }

/-- `commit_proof_with_beta_handler`. -/
def commitProofWithBetaHandler (c : Chain) (ctx : Context) (proof : ValidityProof)
    (authorityAccountMeta : CompressedAccountMetaReadOnly) (currentAuthority : VrfAuthority)
    (addressTreeInfo : PackedAddressTreeInfo) (outputStateTreeIndex : UInt8)
    (memoHash proofHash alphaHash : Hash) (betaLo betaHi : ByteVec 32) :
    Except ProgramError Chain :=
  L.commitRecord c ctx proof authorityAccountMeta currentAuthority addressTreeInfo
    outputStateTreeIndex VrfProofCommitWithBeta.seedPrefix memoHash fun authority =>
      .vrfProofCommitWithBeta
        { authority := authority
          memoHash := memoHash
          proofHash := proofHash
          alphaHash := alphaHash
          betaLo := betaLo
          betaHi := betaHi
          committedSlot := ctx.slot }

/-- `commit_proof_event_handler`. Unlike the registry handlers it derives the
address of the authority again. -/
def commitProofEventHandler (c : Chain) (ctx : Context) (proof : ValidityProof)
    (authorityAccountMeta : CompressedAccountMetaReadOnly) (currentAuthority : VrfAuthority)
    (label : ByteVec 32) (memoHash proofHash alphaHash : Hash) : Except ProgramError Chain := do
  let ownerKey := ctx.owner.key
  require (currentAuthority.owner = ownerKey) .notOwner
  require (currentAuthority.label = label) .authorityLabelMismatch
  require (currentAuthority.frozen = true) .authorityNotFrozen
  require (currentAuthority.revoked = false) .authorityRevoked
  let derived :=
    L.deriveAddress [VrfAuthority.seedPrefix, ownerKey.1, label.1] L.addressTreeV2 programId
  require (authorityAccountMeta.address = derived.1) .authorityAddressMismatch
  let treePubkeys ← L.packedTreePubkeys ctx
  let authReadonly ←
    L.newReadOnly authorityAccountMeta (.vrfAuthority currentAuthority) treePubkeys
  let ledger ← L.invoke c.ledger
    { proof := proof
      lightAccounts := [authReadonly]
      newAddresses := []
      feePayer := ctx.owner.key
      remainingAccounts := ctx.remainingAccounts }
  let event : VrfProofCommitted :=
    { owner := ownerKey
      label := label
      memoHash := memoHash
      proofHash := proofHash
      alphaHash := alphaHash
      committedSlot := ctx.slot }
  return { ledger := ledger, events := c.events ++ [event] }

end Light

/-- The six instructions with their arguments. -/
inductive Instruction where
  | initAuthority (systemProgram : Pubkey) (proof : ValidityProof)
      (addressTreeInfo : PackedAddressTreeInfo) (outputStateTreeIndex : UInt8) (pk : ByteVec 32)
      (suite : UInt8) (label : ByteVec 32)
  | freezeAuthority (proof : ValidityProof) (currentAuthority : VrfAuthority)
      (accountMeta : CompressedAccountMeta)
  | revokeAuthority (proof : ValidityProof) (currentAuthority : VrfAuthority)
      (accountMeta : CompressedAccountMeta)
  | commitProofEvent (proof : ValidityProof)
      (authorityAccountMeta : CompressedAccountMetaReadOnly) (currentAuthority : VrfAuthority)
      (label : ByteVec 32) (memoHash proofHash alphaHash : Hash)
  | commitProof (proof : ValidityProof) (authorityAccountMeta : CompressedAccountMetaReadOnly)
      (currentAuthority : VrfAuthority) (addressTreeInfo : PackedAddressTreeInfo)
      (outputStateTreeIndex : UInt8) (memoHash proofHash alphaHash : Hash)
  | commitProofWithBeta (proof : ValidityProof)
      (authorityAccountMeta : CompressedAccountMetaReadOnly) (currentAuthority : VrfAuthority)
      (addressTreeInfo : PackedAddressTreeInfo) (outputStateTreeIndex : UInt8)
      (memoHash proofHash alphaHash : Hash) (betaLo betaHi : ByteVec 32)

/-- An instruction with the accounts it is called on. -/
structure Invocation where
  ctx : Context
  instruction : Instruction

namespace Light

variable (L : Light)

/-- The program: the accounts are validated, then the handler runs. -/
def exec (c : Chain) (i : Invocation) : Except ProgramError Chain :=
  match i.instruction with
  | .initAuthority systemProgram proof addressTreeInfo outputStateTreeIndex pk suite label => do
      i.ctx.validateInit systemProgram
      L.initAuthorityHandler c i.ctx proof addressTreeInfo outputStateTreeIndex pk suite label
  | .freezeAuthority proof currentAuthority accountMeta => do
      i.ctx.validate
      L.freezeAuthorityHandler c i.ctx proof currentAuthority accountMeta
  | .revokeAuthority proof currentAuthority accountMeta => do
      i.ctx.validate
      L.revokeAuthorityHandler c i.ctx proof currentAuthority accountMeta
  | .commitProofEvent proof authorityAccountMeta currentAuthority label memoHash proofHash
      alphaHash => do
      i.ctx.validate
      L.commitProofEventHandler c i.ctx proof authorityAccountMeta currentAuthority label memoHash
        proofHash alphaHash
  | .commitProof proof authorityAccountMeta currentAuthority addressTreeInfo outputStateTreeIndex
      memoHash proofHash alphaHash => do
      i.ctx.validate
      L.commitProofHandler c i.ctx proof authorityAccountMeta currentAuthority addressTreeInfo
        outputStateTreeIndex memoHash proofHash alphaHash
  | .commitProofWithBeta proof authorityAccountMeta currentAuthority addressTreeInfo
      outputStateTreeIndex memoHash proofHash alphaHash betaLo betaHi => do
      i.ctx.validate
      L.commitProofWithBetaHandler c i.ctx proof authorityAccountMeta currentAuthority
        addressTreeInfo outputStateTreeIndex memoHash proofHash alphaHash betaLo betaHi

end Light

end CcVrf
