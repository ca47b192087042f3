import CcVrf.Client.Fetch

/-!
The builders of the registry instructions (`operations.ts`, `light.ts`).

* `buildCommitProofContext`: the validity proof, the metas and the account list for a
  commit.
* `buildCommitProofIx`, `buildCommitProofWithBetaIx`: the builders, with their checks
  in the order of the source.
* `buildCommitProofIx_eq_ok`, `buildCommitProofWithBetaIx_eq_ok`: what a builder that
  returns has checked and put into the instruction.
-/

namespace CcVrf

/-- `TransactionInstruction`: an instruction with its accounts. The owner is a
writable signer in the interface of every instruction. -/
structure TransactionInstruction where
  owner : Pubkey
  remainingAccounts : List Pubkey
  instruction : Instruction

/-- The instruction executed in a slot, signed by its owner. -/
def TransactionInstruction.signed (ix : TransactionInstruction) (slot : UInt64) : Invocation :=
  ⟨⟨⟨ix.owner, true, true⟩, ix.remainingAccounts, slot⟩, ix.instruction⟩

/-- `CommitProofInput`. -/
structure CommitProofInput where
  owner : Pubkey
  label : StringOrBytes
  memo : StringOrBytes
  alpha : Bytes
  proof : Bytes

/-- The result of `buildCommitProofContext`. -/
structure CommitProofContext where
  proof : ValidityProof
  authorityReadOnlyMeta : CompressedAccountMetaReadOnly
  packedAddressTreeInfo : PackedAddressTreeInfo
  outputStateTreeIndex : UInt8
  remainingAccountMetas : List Pubkey

/-- The coder throws on a number that is undefined. -/
def definedNumber {α : Type} (x : Option α) : Throws α :=
  x.elim (.error "The \"value\" argument must be of type number. Received undefined") .ok

/-- The coder throws on an array of another length. -/
def fixedArray32 (b : Bytes) : Throws (ByteVec 32) :=
  if h : b.length = 32 then .ok ⟨b, h⟩ else .error "src.length must be equal to 32"

/-- `bytesEqual` of `operations.ts`, which stops at the first difference. -/
def bytesEqualEarly (a b : Bytes) : Bool :=
  if a.length ≠ b.length then false else (a.zip b).all fun p => p.1 == p.2

/-- `assertAuthorityCanCommit`. -/
def assertAuthorityCanCommit : Option FetchedAuthority → Throws FetchedAuthority
  | none => .error "authority not found"
  | some auth =>
      if (auth.decoded.suite.toNat : ℤ) ≠ suiteSupportedByClient then
        .error "authority suite is not supported"
      else if auth.decoded.frozen = false then .error "authority is not frozen"
      else if auth.decoded.revoked = true then .error "authority is revoked"
      else .ok auth

section Builders

variable {Point : Type} [AddCommGroup Point] (N : Noble Point) (J : LightJs) (R : Rpc)
  (ledger : Ledger) (programId : Pubkey)

/-- The keys that the context packs, in the order of the source. -/
def packedKeys (authorityExisting : CompressedAccount) (stateTreeInfo : TreeInfo) : List Pubkey :=
  [authorityExisting.tree, authorityExisting.queue, J.batchAddressTree, stateTreeInfo.queue]

/-- `buildCommitProofContext`. -/
def buildCommitProofContext (authorityExisting : CompressedAccount) (newCommitAddress : Pubkey) :
    Throws CommitProofContext := do
  let addressTree := J.batchAddressTree
  let proofRes ← R.getValidityProofV0 ledger
    [⟨authorityExisting.hash, authorityExisting.tree, authorityExisting.queue⟩]
    [⟨addressTree, addressTree, newCommitAddress⟩]
  let stateTreeInfos ← R.getStateTreeInfos ledger
  let stateTreeInfo ← R.selectStateTreeInfo stateTreeInfos
  let packed := packedKeys J authorityExisting stateTreeInfo
  let rootIndex ← definedNumber proofRes.rootIndices.head?
  let lastRootIndex ← definedNumber proofRes.rootIndices.getLast?
  return {
    proof := proofRes.compressedProof
    authorityReadOnlyMeta :=
      { treeInfo :=
          { rootIndex := rootIndex
            proveByIndex := proofRes.proveByIndices.head?.getD false
            merkleTreePubkeyIndex := J.packedIndex packed authorityExisting.tree
            queuePubkeyIndex := J.packedIndex packed authorityExisting.queue
            leafIndex := authorityExisting.leafIndex }
        address := authorityExisting.address }
    packedAddressTreeInfo :=
      { rootIndex := lastRootIndex
        addressMerkleTreePubkeyIndex := J.packedIndex packed addressTree
        addressQueuePubkeyIndex := J.packedIndex packed addressTree }
    outputStateTreeIndex := J.packedIndex packed stateTreeInfo.queue
    remainingAccountMetas := J.remainingAccounts programId packed }

/-- `assertProofMatchesAuthority`. -/
def assertProofMatchesAuthority (auth : FetchedAuthority) (input : CommitProofInput) :
    Throws Unit := do
  let verified ← N.verifyVRF auth.decoded.pk.1 input.alpha input.proof
  if verified = false then .error "proof does not verify against authority pk and alpha"
  else .ok ()

/-- The check of the proof's length. -/
def assertProofLength (proof : Bytes) : Throws Unit :=
  if proof.length ≠ 80 then .error "proof must be 80 bytes (RFC 9381 Ed25519 ECVRF proof)"
  else .ok ()

/-- `buildCommitProofIx`. -/
def buildCommitProofIx (input : CommitProofInput) : Throws (TransactionInstruction × Pubkey) := do
  assertProofLength input.proof
  let fetched ← fetchAuthority J R ledger programId input.owner input.label
  let auth ← assertAuthorityCanCommit fetched
  assertProofMatchesAuthority N auth input
  let mh := N.memoHash input.memo
  let commitAddress ← J.deriveProofCommitAddress auth.authorityAddress mh.1 programId
  let ctx ← buildCommitProofContext J R ledger programId auth.account commitAddress
  let ix : TransactionInstruction :=
    { owner := input.owner
      remainingAccounts := ctx.remainingAccountMetas
      instruction := .commitProof ctx.proof ctx.authorityReadOnlyMeta auth.decoded
        ctx.packedAddressTreeInfo ctx.outputStateTreeIndex mh (N.proofHash input.proof)
        (N.alphaHash input.alpha) }
  return (ix, commitAddress)

/-- The length check of `buildCommitProofWithBetaIx`. -/
def assertBetaLength (beta : Bytes) : Throws Unit :=
  if beta.length ≠ 64 then
    .error "beta must be 64 bytes (SHA-512 output of vrfProofToHash)"
  else .ok ()

/-- The check that the output to store is that of the proof. -/
def assertBetaMatches (beta proof : Bytes) : Throws Unit := do
  let expected ← N.vrfProofToHash proof
  if bytesEqualEarly beta expected = false then
    .error "beta does not match vrfProofToHash(proof)"
  else .ok ()

/-- `buildCommitProofWithBetaIx`. -/
def buildCommitProofWithBetaIx (input : CommitProofInput) (beta : Bytes) :
    Throws (TransactionInstruction × Pubkey) := do
  assertProofLength input.proof
  assertBetaLength beta
  let fetched ← fetchAuthority J R ledger programId input.owner input.label
  let auth ← assertAuthorityCanCommit fetched
  assertProofMatchesAuthority N auth input
  assertBetaMatches N beta input.proof
  let mh := N.memoHash input.memo
  let commitAddress ← J.deriveProofCommitWithBetaAddress auth.authorityAddress mh.1 programId
  let ctx ← buildCommitProofContext J R ledger programId auth.account commitAddress
  let betaLo ← fixedArray32 (slice beta 0 32)
  let betaHi ← fixedArray32 (slice beta 32 64)
  let ix : TransactionInstruction :=
    { owner := input.owner
      remainingAccounts := ctx.remainingAccountMetas
      instruction := .commitProofWithBeta ctx.proof ctx.authorityReadOnlyMeta auth.decoded
        ctx.packedAddressTreeInfo ctx.outputStateTreeIndex mh (N.proofHash input.proof)
        (N.alphaHash input.alpha) betaLo betaHi }
  return (ix, commitAddress)

end Builders

/-! ### What a builder that returns has checked -/

lemma definedNumber_eq_ok_iff {α : Type} (x : Option α) (v : α) :
    definedNumber x = .ok v ↔ x = some v := by
  cases x with
  | none => simp [definedNumber]
  | some w => simp [definedNumber]

lemma fixedArray32_eq_ok {b : Bytes} {v : ByteVec 32} (h : fixedArray32 b = .ok v) : v.1 = b := by
  rw [fixedArray32] at h
  split at h
  next => cases h; rfl
  next => cases h

@[simp] lemma bytesEqualEarly_iff (a b : Bytes) : bytesEqualEarly a b = true ↔ a = b := by
  by_cases hlen : a.length = b.length
  · rw [bytesEqualEarly, if_neg (not_not.mpr hlen), List.all_eq_true]
    constructor
    · intro h
      refine List.ext_getElem hlen fun i hi hi' => beq_iff_eq.mp ?_
      exact h (a[i], b[i]) (List.mem_iff_getElem.mpr ⟨i, by simp [hi, hi'], by simp⟩)
    · rintro rfl p hp
      obtain ⟨i, hi, rfl⟩ := List.mem_iff_getElem.mp hp
      simp
  · have hne : a ≠ b := fun h => hlen (congrArg List.length h)
    simp [bytesEqualEarly, hlen, hne]

lemma assertAuthorityCanCommit_eq_ok {fetched : Option FetchedAuthority} {auth : FetchedAuthority}
    (h : assertAuthorityCanCommit fetched = .ok auth) :
    fetched = some auth ∧ (auth.decoded.suite.toNat : ℤ) = suiteSupportedByClient ∧
      auth.decoded.frozen = true ∧ auth.decoded.revoked = false := by
  cases fetched with
  | none => cases h
  | some a =>
      rw [assertAuthorityCanCommit] at h
      split at h
      next => cases h
      next hsuite =>
        split at h
        next => cases h
        next hfrozen =>
          split at h
          next => cases h
          next hrevoked =>
            cases h
            exact ⟨rfl, not_not.mp hsuite, by simpa using hfrozen, by simpa using hrevoked⟩

section Specs

variable {Point : Type} [AddCommGroup Point] {N : Noble Point} {J : LightJs} {R : Rpc}
  {ledger : Ledger} {programId : Pubkey} {input : CommitProofInput}

/-- The authority that a builder fetched, and what it checked of it. -/
structure CheckedAuthority (N : Noble Point) (J : LightJs) (R : Rpc) (ledger : Ledger)
    (programId : Pubkey) (input : CommitProofInput) (auth : FetchedAuthority) : Prop where
  fetched : fetchAuthority J R ledger programId input.owner input.label = .ok (some auth)
  suite : (auth.decoded.suite.toNat : ℤ) = suiteSupportedByClient
  frozen : auth.decoded.frozen = true
  notRevoked : auth.decoded.revoked = false
  verified : N.verifyVRF auth.decoded.pk.1 input.alpha input.proof = .ok true

lemma checkedAuthority_of_asserts {fetched : Option FetchedAuthority} {auth : FetchedAuthority}
    {u : Unit} (hf : fetchAuthority J R ledger programId input.owner input.label = .ok fetched)
    (ha : assertAuthorityCanCommit fetched = .ok auth)
    (hp : assertProofMatchesAuthority N auth input = .ok u) :
    CheckedAuthority N J R ledger programId input auth := by
  obtain ⟨rfl, hsuite, hfrozen, hrevoked⟩ := assertAuthorityCanCommit_eq_ok ha
  obtain ⟨v, hv, hp⟩ := bind_eq_ok_iff.mp hp
  cases v with
  | false => cases hp
  | true => exact ⟨hf, hsuite, hfrozen, hrevoked, hv⟩

/-- What the context builder puts together, from the proof and the output tree that
the node gave. -/
structure BuiltContext (J : LightJs) (R : Rpc) (ledger : Ledger) (programId : Pubkey)
    (account : CompressedAccount) (address : Pubkey) (ctx : CommitProofContext)
    (pr : ValidityProofWithContext) (info : TreeInfo) : Prop where
  asked : R.getValidityProofV0 ledger [⟨account.hash, account.tree, account.queue⟩]
    [⟨J.batchAddressTree, J.batchAddressTree, address⟩] = .ok pr
  outputTree : ∃ infos, R.getStateTreeInfos ledger = .ok infos ∧
    R.selectStateTreeInfo infos = .ok info
  proof : ctx.proof = pr.compressedProof
  root : pr.rootIndices.head? = some ctx.authorityReadOnlyMeta.treeInfo.rootIndex
  proveByIndex :
    pr.proveByIndices.head?.getD false = ctx.authorityReadOnlyMeta.treeInfo.proveByIndex
  merkleTree : ctx.authorityReadOnlyMeta.treeInfo.merkleTreePubkeyIndex =
    J.packedIndex (packedKeys J account info) account.tree
  queue : ctx.authorityReadOnlyMeta.treeInfo.queuePubkeyIndex =
    J.packedIndex (packedKeys J account info) account.queue
  leafIndex : ctx.authorityReadOnlyMeta.treeInfo.leafIndex = account.leafIndex
  address : ctx.authorityReadOnlyMeta.address = account.address
  newRoot : pr.rootIndices.getLast? = some ctx.packedAddressTreeInfo.rootIndex
  addressTree : ctx.packedAddressTreeInfo.addressMerkleTreePubkeyIndex =
    J.packedIndex (packedKeys J account info) J.batchAddressTree
  output : ctx.outputStateTreeIndex = J.packedIndex (packedKeys J account info) info.queue
  accounts : ctx.remainingAccountMetas = J.remainingAccounts programId (packedKeys J account info)

lemma buildCommitProofContext_eq_ok {account : CompressedAccount} {address : Pubkey}
    {ctx : CommitProofContext}
    (h : buildCommitProofContext J R ledger programId account address = .ok ctx) :
    ∃ pr info, BuiltContext J R ledger programId account address ctx pr info := by
  simp only [buildCommitProofContext, bind_eq_ok_iff, definedNumber_eq_ok_iff] at h
  obtain ⟨pr, hpr, infos, hinfos, info, hinfo, root, hroot, last, hlast, h⟩ := h
  cases h
  exact ⟨pr, info, hpr, ⟨infos, hinfos, hinfo⟩, rfl, hroot, rfl, rfl, rfl, rfl, rfl, hlast, rfl, rfl,
    rfl⟩

/-- **What `buildCommitProofIx` puts into the instruction.** -/
theorem buildCommitProofIx_eq_ok {ix : TransactionInstruction} {address : Pubkey}
    (h : buildCommitProofIx N J R ledger programId input = .ok (ix, address)) :
    ∃ auth ctx, CheckedAuthority N J R ledger programId input auth ∧
      address = J.addressOf (proofCommitSeeds auth.authorityAddress (N.memoHash input.memo)) programId ∧
      buildCommitProofContext J R ledger programId auth.account address = .ok ctx ∧
      ix = ⟨input.owner, ctx.remainingAccountMetas,
        .commitProof ctx.proof ctx.authorityReadOnlyMeta auth.decoded ctx.packedAddressTreeInfo
          ctx.outputStateTreeIndex (N.memoHash input.memo) (N.proofHash input.proof)
          (N.alphaHash input.alpha)⟩ := by
  simp only [buildCommitProofIx, bind_eq_ok_iff, LightJs.deriveProofCommitAddress_eq] at h
  obtain ⟨_, -, fetched, hf, auth, ha, _, hp, a, haddr, ctx, hctx, h⟩ := h
  cases haddr
  cases h
  exact ⟨auth, ctx, checkedAuthority_of_asserts hf ha hp, rfl, hctx, rfl⟩

/-- **What `buildCommitProofWithBetaIx` puts into the instruction**: the halves of
the output of the proof. -/
theorem buildCommitProofWithBetaIx_eq_ok {beta : Bytes} {ix : TransactionInstruction}
    {address : Pubkey}
    (h : buildCommitProofWithBetaIx N J R ledger programId input beta = .ok (ix, address)) :
    ∃ auth ctx betaLo betaHi, CheckedAuthority N J R ledger programId input auth ∧
      N.vrfProofToHash input.proof = .ok beta ∧ betaLo.1 ++ betaHi.1 = beta ∧
      address = J.addressOf (proofCommitSeeds auth.authorityAddress (N.memoHash input.memo)) programId ∧
      buildCommitProofContext J R ledger programId auth.account address = .ok ctx ∧
      ix = ⟨input.owner, ctx.remainingAccountMetas,
        .commitProofWithBeta ctx.proof ctx.authorityReadOnlyMeta auth.decoded
          ctx.packedAddressTreeInfo ctx.outputStateTreeIndex (N.memoHash input.memo)
          (N.proofHash input.proof) (N.alphaHash input.alpha) betaLo betaHi⟩ := by
  simp only [buildCommitProofWithBetaIx, bind_eq_ok_iff,
    LightJs.deriveProofCommitWithBetaAddress_eq, LightJs.deriveProofCommitAddress_eq] at h
  obtain ⟨_, -, _, hlen, fetched, hf, auth, ha, _, hp, _, hb, a, haddr, ctx, hctx, lo, hlo, hi, hhi,
    h⟩ := h
  cases haddr
  cases h
  have hlen64 : beta.length = 64 := by
    rw [assertBetaLength] at hlen
    split at hlen
    next => cases hlen
    next hne => exact not_not.mp hne
  have hbeta : N.vrfProofToHash input.proof = .ok beta := by
    obtain ⟨expected, hexp, hb⟩ := bind_eq_ok_iff.mp hb
    split at hb
    next => cases hb
    next heq =>
      rw [Bool.not_eq_false, bytesEqualEarly_iff] at heq
      rw [hexp, heq]
  have hhalves : lo.1 ++ hi.1 = beta := by
    rw [fixedArray32_eq_ok hlo, fixedArray32_eq_ok hhi]
    have hslices := slice_append_slice (b := beta) (l := 0) (m := 32) (n := 32) (by rw [hlen64])
    simpa [slice] using hslices
  exact ⟨auth, ctx, lo, hi, checkedAuthority_of_asserts hf ha hp, hbeta, hhalves, rfl, hctx, rfl⟩

end Specs

end CcVrf
