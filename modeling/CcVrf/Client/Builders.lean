import CcVrf.Client.Operations

/-!
The builders of the other instructions (`operations.ts`, `light.ts`).

* `buildCreateContext`, `buildReadOnlyAuthorityContext`, `buildMutateContext`: the
  validity proof, the metas and the account list for a creation, for an event and for a
  rewrite.
* `buildInitAuthorityIx`, `buildFreezeAuthorityIx`, `buildRevokeAuthorityIx`,
  `buildCommitProofEventIx`: the builders, with their checks in the order of the source.
* `buildInitAuthorityIx_eq_ok` and its siblings: what a builder that returns has checked
  and put into the instruction.
-/

namespace CcVrf

/-- A leaf that `buildCreateContext` may read beside the new address. -/
structure ExistingInput where
  hash : Bytes
  tree : Pubkey
  queue : Pubkey

/-- The result of `buildCreateContext`. -/
structure CreateContext where
  proof : ValidityProof
  packedAddressTreeInfo : PackedAddressTreeInfo
  outputStateTreeIndex : UInt8
  remainingAccountMetas : List Pubkey

/-- The result of `buildReadOnlyAuthorityContext`. -/
structure ReadOnlyAuthorityContext where
  proof : ValidityProof
  authorityReadOnlyMeta : CompressedAccountMetaReadOnly
  remainingAccountMetas : List Pubkey

/-- The result of `buildMutateContext`. -/
structure MutateContext where
  proof : ValidityProof
  accountMeta : CompressedAccountMeta
  remainingAccountMetas : List Pubkey

/-- `InitAuthorityInput`. -/
structure InitAuthorityInput where
  owner : Pubkey
  pk : Bytes
  suite : ℤ
  label : StringOrBytes

/-- `FreezeAuthorityInput`, also that of the revocation. -/
structure FreezeAuthorityInput where
  owner : Pubkey
  label : StringOrBytes

section Contexts

variable (J : LightJs) (R : Rpc) (ledger : Ledger) (programId : Pubkey)

/-- What a proof is asked for of a leaf that the node returned. -/
def CompressedAccount.hashWithTree (existing : CompressedAccount) : HashWithTree :=
  ⟨existing.hash, existing.tree, existing.queue⟩

/-- The tree info of a leaf, from the first root of its proof. -/
def CompressedAccount.packedTreeInfo (existing : CompressedAccount) (packed : List Pubkey)
    (proofRes : ValidityProofWithContext) : Throws PackedStateTreeInfo := do
  let rootIndex ← definedNumber proofRes.rootIndices.head?
  return {
    rootIndex := rootIndex
    proveByIndex := proofRes.proveByIndices.head?.getD false
    merkleTreePubkeyIndex := J.packedIndex packed existing.tree
    queuePubkeyIndex := J.packedIndex packed existing.queue
    leafIndex := existing.leafIndex }

/-- `buildCreateContext`. -/
def buildCreateContext (newCompressedAddress : Pubkey) (existingInputs : List ExistingInput) :
    Throws CreateContext := do
  let addressTree := J.batchAddressTree
  let proofRes ← R.getValidityProofV0 ledger
    (existingInputs.map fun i => ⟨bytesToBigIntBE i.hash, i.tree, i.queue⟩)
    [⟨addressTree, addressTree, newCompressedAddress⟩]
  let stateTreeInfos ← R.getStateTreeInfos ledger
  let stateTreeInfo ← R.selectStateTreeInfo stateTreeInfos
  let packed := [addressTree, stateTreeInfo.queue]
  let lastRootIndex ← definedNumber proofRes.rootIndices.getLast?
  return {
    proof := proofRes.compressedProof
    packedAddressTreeInfo :=
      { rootIndex := lastRootIndex
        addressMerkleTreePubkeyIndex := J.packedIndex packed addressTree
        addressQueuePubkeyIndex := J.packedIndex packed addressTree }
    outputStateTreeIndex := J.packedIndex packed stateTreeInfo.queue
    remainingAccountMetas := J.remainingAccounts programId packed }

/-- `buildReadOnlyAuthorityContext`. -/
def buildReadOnlyAuthorityContext (authorityExisting : CompressedAccount) :
    Throws ReadOnlyAuthorityContext := do
  let proofRes ← R.getValidityProofV0 ledger [authorityExisting.hashWithTree] []
  let packed := [authorityExisting.tree, authorityExisting.queue]
  let treeInfo ← authorityExisting.packedTreeInfo J packed proofRes
  return {
    proof := proofRes.compressedProof
    authorityReadOnlyMeta := { treeInfo := treeInfo, address := authorityExisting.address }
    remainingAccountMetas := J.remainingAccounts programId packed }

/-- `buildMutateContext`. -/
def buildMutateContext (existing : CompressedAccount) : Throws MutateContext := do
  let proofRes ← R.getValidityProofV0 ledger [existing.hashWithTree] []
  let stateTreeInfos ← R.getStateTreeInfos ledger
  let stateTreeInfo ← R.selectStateTreeInfo stateTreeInfos
  let packed := [existing.tree, existing.queue, stateTreeInfo.queue]
  let treeInfo ← existing.packedTreeInfo J packed proofRes
  return {
    proof := proofRes.compressedProof
    accountMeta :=
      { treeInfo := treeInfo
        address := existing.address
        outputStateTreeIndex := J.packedIndex packed stateTreeInfo.queue }
    remainingAccountMetas := J.remainingAccounts programId packed }

/-! ### The builders -/

/-- The checks of `buildInitAuthorityIx` before the label. -/
def assertInitInput (input : InitAuthorityInput) : Throws Unit :=
  if input.pk.length ≠ 32 then .error "pk must be 32 bytes"
  else if input.suite ≠ suiteSupportedByClient then
    .error "only ECVRF-EDWARDS25519-SHA512-TAI suite 0x03 is supported"
  else .ok ()

/-- The length check of an encoded label. -/
def assertLabelLength (labelBytes : Bytes) : Throws Unit :=
  if labelBytes.length ≠ 32 then .error "label must encode to exactly 32 bytes" else .ok ()

/-- `buildInitAuthorityIx`. -/
def buildInitAuthorityIx (input : InitAuthorityInput) : Throws (TransactionInstruction × Pubkey) := do
  assertInitInput input
  let labelBytes ← input.label.labelBytes
  assertLabelLength labelBytes
  let authorityAddress ← J.deriveAuthorityAddress input.owner labelBytes programId
  let ctx ← buildCreateContext J R ledger programId authorityAddress []
  let pk ← fixedArray32 input.pk
  let label ← fixedArray32 labelBytes
  let ix : TransactionInstruction :=
    { owner := input.owner
      remainingAccounts := ctx.remainingAccountMetas
      instruction := .initAuthority systemProgramId ctx.proof ctx.packedAddressTreeInfo
        ctx.outputStateTreeIndex pk (UInt8.ofNat input.suite.toNat) label }
  return (ix, authorityAddress)

/-- The body that the builders of a freeze and of a revocation share. -/
def buildRewriteIx (rewrite : ValidityProof → VrfAuthority → CompressedAccountMeta → Instruction)
    (input : FreezeAuthorityInput) : Throws TransactionInstruction := do
  match ← fetchAuthority J R ledger programId input.owner input.label with
  | none => .error "authority not found"
  | some auth => do
      let ctx ← buildMutateContext J R ledger programId auth.account
      return {
        owner := input.owner
        remainingAccounts := ctx.remainingAccountMetas
        instruction := rewrite ctx.proof auth.decoded ctx.accountMeta }

/-- `buildFreezeAuthorityIx`. -/
def buildFreezeAuthorityIx (input : FreezeAuthorityInput) : Throws TransactionInstruction :=
  buildRewriteIx J R ledger programId .freezeAuthority input

/-- `buildRevokeAuthorityIx`. -/
def buildRevokeAuthorityIx (input : FreezeAuthorityInput) : Throws TransactionInstruction :=
  buildRewriteIx J R ledger programId .revokeAuthority input

variable {Point : Type} [AddCommGroup Point] (N : Noble Point)

/-- `buildCommitProofEventIx`. -/
def buildCommitProofEventIx (input : CommitProofInput) : Throws TransactionInstruction := do
  assertProofLength input.proof
  let labelBytes ← input.label.labelBytes
  assertLabelLength labelBytes
  let fetched ← fetchAuthority J R ledger programId input.owner (.bytes labelBytes)
  let auth ← assertAuthorityCanCommit fetched
  assertProofMatchesAuthority N auth input
  let ctx ← buildReadOnlyAuthorityContext J R ledger programId auth.account
  let mh := N.memoHash input.memo
  let label ← fixedArray32 labelBytes
  return {
    owner := input.owner
    remainingAccounts := ctx.remainingAccountMetas
    instruction := .commitProofEvent ctx.proof ctx.authorityReadOnlyMeta auth.decoded label mh
      (N.proofHash input.proof) (N.alphaHash input.alpha) }

end Contexts

/-! ### What a builder that returns has checked -/

section Specs

variable {J : LightJs} {R : Rpc} {ledger : Ledger} {programId : Pubkey}

/-- A fetch that finds nothing: the address of the label is unused. -/
lemma fetchAuthority_eq_none_iff {owner : Pubkey} {label : StringOrBytes} {l : ByteVec 32}
    (hlabel : label.labelBytes = .ok l.1) :
    fetchAuthority J R ledger programId owner label = .ok none ↔
      ledger (J.addressOf (authoritySeeds owner l) programId) = none := by
  simp only [fetchAuthority, hlabel, ok_bind, LightJs.deriveAuthorityAddress_eq,
    Rpc.getCompressedAccount]
  cases ledger (J.addressOf (authoritySeeds owner l) programId) with
  | none => exact iff_of_true rfl rfl
  | some acc =>
      refine iff_of_false (fun h => ?_) (Option.some_ne_none _)
      obtain ⟨d, -, h⟩ := bind_eq_ok_iff.mp h
      cases h

/-- **What `buildInitAuthorityIx` puts into the instruction.** -/
theorem buildInitAuthorityIx_eq_ok {input : InitAuthorityInput} {ix : TransactionInstruction}
    {address : Pubkey} (h : buildInitAuthorityIx J R ledger programId input = .ok (ix, address)) :
    ∃ (pk label : ByteVec 32) (ctx : CreateContext), pk.1 = input.pk ∧
      input.suite = suiteSupportedByClient ∧ input.label.labelBytes = .ok label.1 ∧
      address = J.addressOf (authoritySeeds input.owner label) programId ∧
      buildCreateContext J R ledger programId address [] = .ok ctx ∧
      ix = ⟨input.owner, ctx.remainingAccountMetas,
        .initAuthority systemProgramId ctx.proof ctx.packedAddressTreeInfo
          ctx.outputStateTreeIndex pk suiteEdwards25519Sha512Tai label⟩ := by
  simp only [buildInitAuthorityIx, bind_eq_ok_iff] at h
  obtain ⟨_, hinput, labelBytes, hlabel, -, -, a, ha, ctx, hctx, pk, hpk, label, hl, h⟩ := h
  cases h
  have hsuite : input.suite = suiteSupportedByClient := by
    rw [assertInitInput] at hinput
    split_ifs at hinput with hlen hsuite
    exact not_not.mp hsuite
  obtain rfl := fixedArray32_eq_ok hl
  rw [LightJs.deriveAuthorityAddress_eq] at ha
  cases ha
  exact ⟨pk, label, ctx, fixedArray32_eq_ok hpk, hsuite, hlabel, rfl, hctx, by rw [hsuite]; rfl⟩

/-- What the builders of a freeze and of a revocation put into the instruction. -/
lemma buildRewriteIx_eq_ok
    {rewrite : ValidityProof → VrfAuthority → CompressedAccountMeta → Instruction}
    {input : FreezeAuthorityInput} {ix : TransactionInstruction}
    (h : buildRewriteIx J R ledger programId rewrite input = .ok ix) :
    ∃ auth ctx, fetchAuthority J R ledger programId input.owner input.label = .ok (some auth) ∧
      buildMutateContext J R ledger programId auth.account = .ok ctx ∧
      ix = ⟨input.owner, ctx.remainingAccountMetas,
        rewrite ctx.proof auth.decoded ctx.accountMeta⟩ := by
  obtain ⟨fetched, hf, h⟩ := bind_eq_ok_iff.mp h
  cases fetched with
  | none => cases h
  | some auth =>
      obtain ⟨ctx, hctx, h⟩ := bind_eq_ok_iff.mp h
      cases h
      exact ⟨auth, ctx, hf, hctx, rfl⟩

/-- The leaf that is rewritten is the given one. -/
lemma buildMutateContext_address {existing : CompressedAccount} {ctx : MutateContext}
    (h : buildMutateContext J R ledger programId existing = .ok ctx) :
    ctx.accountMeta.address = existing.address := by
  simp only [buildMutateContext, bind_eq_ok_iff] at h
  obtain ⟨pr, -, infos, -, info, -, treeInfo, -, h⟩ := h
  cases h
  rfl

variable {Point : Type} [AddCommGroup Point] {N : Noble Point}

/-- **What `buildCommitProofEventIx` puts into the instruction.** -/
theorem buildCommitProofEventIx_eq_ok {input : CommitProofInput} {ix : TransactionInstruction}
    (h : buildCommitProofEventIx J R ledger programId N input = .ok ix) :
    ∃ (label : ByteVec 32) (auth : FetchedAuthority) (ctx : ReadOnlyAuthorityContext),
      input.label.labelBytes = .ok label.1 ∧
      CheckedAuthority N J R ledger programId input auth ∧
      buildReadOnlyAuthorityContext J R ledger programId auth.account = .ok ctx ∧
      ix = ⟨input.owner, ctx.remainingAccountMetas,
        .commitProofEvent ctx.proof ctx.authorityReadOnlyMeta auth.decoded label
          (N.memoHash input.memo) (N.proofHash input.proof) (N.alphaHash input.alpha)⟩ := by
  simp only [buildCommitProofEventIx, bind_eq_ok_iff] at h
  obtain ⟨_, -, labelBytes, hlabel, _, -, fetched, hf, auth, ha, _, hp, ctx, hctx, label, hl, h⟩ := h
  cases h
  obtain rfl := fixedArray32_eq_ok hl
  have hf' : fetchAuthority J R ledger programId input.owner input.label = .ok fetched := by
    have hbytes : StringOrBytes.labelBytes (.bytes label.1) = .ok label.1 := rfl
    rw [← hf, fetchAuthority, fetchAuthority, hlabel, hbytes]
  exact ⟨label, auth, ctx, hlabel, checkedAuthority_of_asserts hf' ha hp, hctx, rfl⟩

end Specs

end CcVrf
