import CcVrf.Client.Operations
import CcVrf.System.Requests

/-!
From the builder to the verdict: a commit that the client builds is accepted by the
program, fetched and verified.

* `Honest`: the third-party parts work together. The libraries agree, the node gives
  honest proofs, and the packed trees are found.
* `commitRecord_of_built`: the program accepts what the builder put together, for
  either kind of record.
* `verified_of_recorded`: a state that stores the record of an accepted proof passes
  all checks of the verifier.
* `built_commit_verifies`: whatever either builder returns is executed, fetched and
  verified.
-/

namespace CcVrf

open Runs

section CommitPipeline

variable {Point : Type} [AddCommGroup Point] {N : Noble Point} {J : LightJs} {R : Rpc} {L : Light}

/-- The third-party parts of the client and of the program work together. -/
structure Honest (J : LightJs) (R : Rpc) (L : Light) : Prop where
  library : J.Agrees L
  proofs : HonestProofs R L
  trees : TreesFound L

variable {S : Chain} {t : List (Executed Chain Invocation)} {input : CommitProofInput}
  {label : ByteVec 32}

/-- A fetched authority of a reachable state is the stored one, without
collisions. -/
lemma stored_of_fetched (hJ : J.Agrees L) (hrun : L.Run Chain.empty t S)
    (hlabel : input.label.labelBytes = .ok label.1)
    (hfree : L.CollisionFree t (authoritySeeds input.owner label)) {auth : FetchedAuthority}
    (hf : fetchAuthority J R S.ledger ccVrfProgramId input.owner input.label = .ok (some auth)) :
    auth.authorityAddress = L.address (authoritySeeds input.owner label) ∧
      S.ledger auth.authorityAddress = some (.vrfAuthority auth.decoded) ∧
      auth.decoded.owner = input.owner ∧ auth.decoded.label = label ∧
      auth.account = R.compressed S.ledger auth.authorityAddress (.vrfAuthority auth.decoded) := by
  obtain ⟨l, a, hl, ha, acc, d, hacc, hdec, rfl⟩ := fetchAuthority_eq_some_iff.mp hf
  obtain rfl : label.1 = l := Except.ok.inj (hlabel.symm.trans hl)
  rw [LightJs.deriveAuthorityAddress_eq, hJ.addressOf_eq] at ha
  obtain rfl := Except.ok.inj ha
  have hseeds := Light.Run.seeds_eq hrun hfree hacc
  rcases acc.authority_or_record with ⟨d', rfl⟩ | ⟨A, m, hkey⟩
  · obtain ⟨howner, hlab⟩ := authoritySeeds_inj.mp hseeds
    rw [decodeAuthority_data] at hdec
    cases hdec
    exact ⟨rfl, hacc, howner, hlab, rfl⟩
  · rw [Account.seeds_of_commitKey hkey] at hseeds
    exact absurd hseeds.symm (authoritySeeds_ne_proofCommitSeeds _ _ _ _)

/-- Without collisions, the address of a memo that has no record is unused. -/
lemma unused_of_no_record (hrun : L.Run Chain.empty t S) {A : Pubkey} {m : Hash}
    (hfree : L.CollisionFree t (proofCommitSeeds A m))
    (hnone : ∀ a acc, S.ledger a = some acc → acc.commitKey ≠ some (A, m)) :
    S.ledger (L.address (proofCommitSeeds A m)) = none := by
  cases hacc : S.ledger (L.address (proofCommitSeeds A m)) with
  | none => rfl
  | some acc =>
      have hseeds := Light.Run.seeds_eq hrun hfree hacc
      rcases acc.authority_or_record with ⟨d, rfl⟩ | ⟨A', m', hkey⟩
      · exact absurd hseeds (authoritySeeds_ne_proofCommitSeeds _ _ _ _)
      · rw [Account.seeds_of_commitKey hkey] at hseeds
        obtain ⟨rfl, rfl⟩ := proofCommitSeeds_inj.mp hseeds
        exact absurd hkey (hnone _ acc hacc)

/-- A tree account that is found is among the packed trees. -/
lemma treePubkeys_of_treePubkey {accounts : List Pubkey} {i : UInt8} {key : Pubkey}
    (h : L.treePubkey accounts i = some key) : ∃ trees, L.treePubkeys accounts = some trees := by
  obtain ⟨trees, htrees, -⟩ := Option.bind_eq_some_iff.mp h
  exact ⟨trees, htrees⟩

/-- A call that reads a current leaf and creates an account at an unused derived
address is admissible. -/
lemma admissible_readAndCreate {ledger : Ledger} {x : ReadAndCreate} (proof : ValidityProof)
    (hleaf : ledger x.accountMeta.address = some x.input) (hunused : ledger x.address = none)
    (hnew : L.newAddress x.remainingAccounts x.newAddressParams = some x.address)
    (hassigned : x.newAddressParams.assignedAccountIndex = some 0) :
    L.admissible ledger (x.cpi proof) = true := by
  have houtputs : (x.cpi proof).outputs = [(x.address, x.output)] := rfl
  have hok : L.newAddressOk ledger (x.cpi proof) x.newAddressParams = true := by
    have hnew' : L.newAddress (x.cpi proof).remainingAccounts x.newAddressParams =
      some x.address := hnew
    simp only [Light.newAddressOk, hnew', hunused, hassigned, houtputs]
    simp
  have hcreated : ∀ address ∈ (x.cpi proof).lightAccounts.filterMap LightAccount.created?,
      L.newAddress (x.cpi proof).remainingAccounts x.newAddressParams = some address := by
    intro address haddress
    obtain rfl : address = x.address := List.mem_singleton.mp haddress
    exact hnew
  simp only [Light.admissible, Bool.and_eq_true, List.all_eq_true]
  refine ⟨⟨?_, ?_⟩, ?_⟩
  · intro a ha
    rcases List.mem_pair.mp ha with rfl | rfl
    · exact beq_iff_eq.mpr hleaf
    · rfl
  · intro p hp
    rw [List.mem_singleton.mp hp]
    exact hok
  · intro address haddress
    exact List.any_eq_true.mpr
      ⟨x.newAddressParams, List.mem_singleton.mpr rfl, beq_iff_eq.mpr (hcreated address haddress)⟩

/-- The call that the program makes for a registry record. -/
def recordCall (L : Light) (ctx : CommitProofContext) (owner A : Pubkey) (auth : VrfAuthority)
    (m : Hash) (record : Account) : ReadAndCreate where
  accountMeta := ctx.authorityReadOnlyMeta
  input := .vrfAuthority auth
  address := L.address (proofCommitSeeds A m)
  outputStateTreeIndex := ctx.outputStateTreeIndex
  output := record
  newAddressParams :=
    ⟨(L.deriveAddress (proofCommitSeeds A m) L.addressTreeV2 programId).2,
      ctx.packedAddressTreeInfo, some 0⟩
  feePayer := owner
  remainingAccounts := ctx.remainingAccountMetas

/-- The call presents the proof that the builder asked the node for. -/
lemma presents_recordCall (hJ : J.Agrees L) (owner : Pubkey) (record : Account)
    {ctx : CommitProofContext} {A : Pubkey} {auth : VrfAuthority} {m : Hash}
    {pr : ValidityProofWithContext} {info : TreeInfo}
    (hstored : S.ledger A = some (.vrfAuthority auth))
    (hunused : S.ledger (L.address (proofCommitSeeds A m)) = none)
    (hctx : BuiltContext J R S.ledger ccVrfProgramId
      (R.compressed S.ledger A (.vrfAuthority auth))
      (J.addressOf (proofCommitSeeds A m) ccVrfProgramId) ctx pr info) :
    R.Presents L S.ledger pr L.addressTreeV2 (recordCall L ctx owner A auth m record) := by
  have haddress : ctx.authorityReadOnlyMeta.address = A := hctx.address
  have hasked := hctx.asked
  rw [hJ.addressOf_eq, hJ.tree] at hasked
  -- every packed index finds its key
  have hpacked : ∀ key ∈ packedKeys J (R.compressed S.ledger A (.vrfAuthority auth)) info,
      L.treePubkey ctx.remainingAccountMetas
        (J.packedIndex (packedKeys J (R.compressed S.ledger A (.vrfAuthority auth)) info) key) =
          some key := by
    rw [hctx.accounts]
    exact hJ.packed _ (by simp [packedKeys])
  have htree : L.treePubkey ctx.remainingAccountMetas
      ctx.packedAddressTreeInfo.addressMerkleTreePubkeyIndex = some L.addressTreeV2 := by
    rw [hctx.addressTree, ← hJ.tree]
    exact hpacked _ (by simp [packedKeys])
  obtain ⟨infos, hinfos, hinfo⟩ := hctx.outputTree
  exact
    { leaf := by rw [recordCall, haddress, hstored]
      unused := hunused
      asked := by
        simp only [recordCall, haddress]
        exact hasked
      root := hctx.root
      proveByIndex := hctx.proveByIndex
      leafIndex := by
        simp only [recordCall, haddress, hctx.leafIndex]
        rfl
      merkleTree := by
        simp only [recordCall, haddress, hctx.merkleTree]
        exact hpacked _ (by simp [packedKeys, Rpc.compressed])
      queue := by
        simp only [recordCall, haddress, hctx.queue]
        exact hpacked _ (by simp [packedKeys, Rpc.compressed])
      newRoot := hctx.newRoot
      addressTree := htree
      newAddress := L.newAddress_derived htree _ _
      outputQueue := by
        refine ⟨infos, info, hinfos, hinfo, ?_⟩
        simp only [recordCall, hctx.output]
        exact hpacked _ (by simp [packedKeys]) }

/-- The state with an account stored at an address. -/
def Chain.store (c : Chain) (a : Pubkey) (acc : Account) : Chain :=
  { c with ledger := Function.update c.ledger a (some acc) }

@[simp] lemma Chain.store_ledger_self (c : Chain) (a : Pubkey) (acc : Account) :
    (c.store a acc).ledger a = some acc :=
  Function.update_self ..

/-- An account in use is untouched when another one is stored at an unused address. -/
lemma Chain.store_ledger_of_used {c : Chain} {a a' : Pubkey} {acc acc' : Account}
    (ha : c.ledger a = some acc) (hunused : c.ledger a' = none) :
    (c.store a' acc').ledger a = some acc := by
  have hne : a ≠ a' := by
    rintro rfl
    rw [ha] at hunused
    cases hunused
  exact (Function.update_of_ne hne _ _).trans ha

/-- **The program accepts what the builder put together**, and stores the record. -/
lemma commitRecord_of_built (h : Honest J R L) {ctx : CommitProofContext} {A : Pubkey}
    {auth : VrfAuthority} {m : Hash} (slot : UInt64) (record : Pubkey → Account)
    (hstored : S.ledger A = some (.vrfAuthority auth)) (howner : auth.owner = input.owner)
    (hmay : auth.MayCommit)
    (hunused : S.ledger (L.address (proofCommitSeeds A m)) = none)
    (hctx : buildCommitProofContext J R S.ledger ccVrfProgramId
      (R.compressed S.ledger A (.vrfAuthority auth))
      (J.addressOf (proofCommitSeeds A m) ccVrfProgramId) = .ok ctx) :
    L.commitRecord S ⟨⟨input.owner, true, true⟩, ctx.remainingAccountMetas, slot⟩ ctx.proof
        ctx.authorityReadOnlyMeta auth ctx.packedAddressTreeInfo ctx.outputStateTreeIndex
        VrfProofCommit.seedPrefix m record =
      .ok (S.store (L.address (proofCommitSeeds A m)) (record A)) := by
  obtain ⟨pr, info, hbuilt⟩ := buildCommitProofContext_eq_ok hctx
  have hpresents := presents_recordCall h.library input.owner (record A) hstored hunused hbuilt
  have haccepts := h.proofs _ _ _ _ hpresents
  obtain ⟨trees, htrees⟩ := treePubkeys_of_treePubkey hpresents.addressTree
  have hfound := h.trees _ trees ctx.authorityReadOnlyMeta htrees
    (Option.isSome_of_mem hpresents.merkleTree) (Option.isSome_of_mem hpresents.queue)
  have hadm := admissible_readAndCreate pr.compressedProof hpresents.leaf hpresents.unused
    hpresents.newAddress rfl
  have haddress : ctx.authorityReadOnlyMeta.address = A := hbuilt.address
  simp only [Light.commitRecord, bind_eq_ok_iff, require_eq_ok_iff,
    Light.checkedAddressTree_eq_ok_iff, Light.packedTreePubkeys_eq_ok_iff,
    Light.newReadOnly_eq_ok_iff, Light.invoke_eq_ok_iff, haddress, hbuilt.proof]
  exact ⟨(), howner, (), hmay.1, (), hmay.2, L.addressTreeV2, ⟨rfl, hpresents.addressTree⟩, trees,
    htrees, _, ⟨hfound, rfl⟩, _, ⟨hadm, haccepts, rfl⟩, rfl⟩

/-- The request that checks a committed outcome, with no optional expectation. -/
def CommitProofInput.request (input : CommitProofInput) (source : CommitSource) :
    VerifyRequest where
  owner := input.owner
  label := input.label
  source := source
  alpha := input.alpha
  proof := input.proof
  memo := input.memo
  expectedOwner := none
  expectedLabel := none
  expectedAuthorityAddress := none
  programId := none

/-- The fields of a commit that record an outcome. -/
def CommitProofInput.header (N : Noble Point) (input : CommitProofInput) (authority : Pubkey) :
    CommitHeader :=
  ⟨authority, N.memoHash input.memo, N.proofHash input.proof, N.alphaHash input.alpha⟩

/-- The instruction succeeds, and the request is answered in the state that it
leaves: the verdict is positive, no reason is given, and the output is that of the
proof. -/
def CommitsAndVerifies (N : Noble Point) (J : LightJs) (R : Rpc) (L : Light) (S : Chain)
    (i : Invocation) (q : VerifyRequest) (betaMatches : Option Bool) : Prop :=
  ∃ S' r beta, L.exec S i = .ok S' ∧ verifyFetched N J R S' q = .ok (some r) ∧
    r.valid = true ∧ r.reasons = [] ∧ N.vrfProofToHash q.proof = .ok beta ∧
    r.beta = some beta ∧ r.betaMatches = betaMatches

/-- **An outcome that was checked and recorded is verified.** The commit may come
from either kind of record. -/
lemma verified_of_recorded {S' : Chain} {auth : FetchedAuthority} {slot : UInt64}
    {source : CommitSource} {onChainBeta : Option Bytes}
    (hchecked : CheckedAuthority N J R S.ledger ccVrfProgramId input auth)
    (hlabel : input.label.labelBytes = .ok label.1)
    (howner : auth.decoded.owner = input.owner) (hlab : auth.decoded.label = label)
    (hstored : S'.ledger auth.authorityAddress = some (.vrfAuthority auth.decoded))
    (hcommit : fetchCommit N J R S' auth.authorityAddress input.memo source =
      .ok (some ((input.header N auth.authorityAddress).onChain slot, onChainBeta)))
    (hbeta : ∀ b ∈ onChainBeta, N.vrfProofToHash input.proof = .ok b) :
    ∃ r beta, verifyFetched N J R S' (input.request source) = .ok (some r) ∧
      r.valid = true ∧ r.reasons = [] ∧ N.vrfProofToHash input.proof = .ok beta ∧
      r.beta = some beta ∧ r.betaMatches = onChainBeta.map fun _ => true := by
  obtain ⟨l, a, hl, haddr, acc, d, -, -, hfetched⟩ := fetchAuthority_eq_some_iff.mp hchecked.fetched
  obtain rfl : label.1 = l := Except.ok.inj (hlabel.symm.trans hl)
  obtain rfl : auth.authorityAddress = a := congrArg FetchedAuthority.authorityAddress hfetched
  have ha : (input.request source).authorityAddress J = .ok auth.authorityAddress :=
    bind_eq_ok_iff.mpr ⟨label.1, hlabel, haddr⟩
  have hver : N.VerifiesCommit J ((input.request source).input
      (auth.decoded.onChain auth.authorityAddress)
      ((input.header N auth.authorityAddress).onChain slot, onChainBeta)) :=
    { accepted := ⟨hchecked.suite, hchecked.verified⟩
      committed := ⟨rfl, rfl, rfl⟩
      frozen := hchecked.frozen
      notRevoked := hchecked.notRevoked
      owner := fun o ho => nomatch ho
      label := fun l hl => nomatch hl
      address := ⟨auth.authorityAddress, by
        simp only [VerifyRequest.input, VrfAuthority.onChain, howner, hlab]
        exact haddr, rfl, fun e he => nomatch he⟩
      beta := hbeta }
  obtain ⟨r, hr, hvalid⟩ := (Noble.verifyAuthorityCommitEndToEnd_valid_iff J _).mpr hver
  have hfound := Noble.verifyAuthorityCommitEndToEnd_spec hr
  obtain ⟨beta, hbeta', hout⟩ := Noble.beta_of_valid hr hvalid
  refine ⟨r, beta, ?_, hvalid, hfound.reasons.mpr hvalid, hout, hbeta', ?_⟩
  · exact (verifyFetched_eq_some_iff ha r).mpr
      ⟨auth.decoded, _, ⟨_, hstored, decodeAuthority_data _⟩, hcommit, hr⟩
  · rw [hfound.betaMatches]
    refine Option.map_congr fun b hb => ?_
    have hb' : beta = b := Except.ok.inj (hout.symm.trans (hbeta b hb))
    rw [hbeta', hb', decide_eq_true rfl]

/-- What the builder fetched is stored, and the address of the memo is free. -/
structure ReadyToCommit (N : Noble Point) (J : LightJs) (R : Rpc) (L : Light) (S : Chain)
    (input : CommitProofInput) (label : ByteVec 32) (auth : FetchedAuthority) : Prop where
  checked : CheckedAuthority N J R S.ledger ccVrfProgramId input auth
  encoded : input.label.labelBytes = .ok label.1
  stored : S.ledger auth.authorityAddress = some (.vrfAuthority auth.decoded)
  owner : auth.decoded.owner = input.owner
  label : auth.decoded.label = label
  account : auth.account = R.compressed S.ledger auth.authorityAddress (.vrfAuthority auth.decoded)
  unused : S.ledger (L.address (proofCommitSeeds auth.authorityAddress (N.memoHash input.memo))) =
    none

/-- Committing a record of either kind, and verifying what it stored. -/
lemma ReadyToCommit.commitsAndVerifies {auth : FetchedAuthority} {ctx : CommitProofContext}
    {slot : UInt64} {i : Invocation} {record : Pubkey → Account}
    (hready : ReadyToCommit N J R L S input label auth) (source : CommitSource)
    (onChainBeta : Option Bytes) (h : Honest J R L)
    (hctx : buildCommitProofContext J R S.ledger ccVrfProgramId auth.account
      (J.addressOf (proofCommitSeeds auth.authorityAddress (N.memoHash input.memo)) ccVrfProgramId) =
        .ok ctx)
    (hexec : L.exec S i = L.commitRecord S ⟨⟨input.owner, true, true⟩, ctx.remainingAccountMetas, slot⟩
      ctx.proof ctx.authorityReadOnlyMeta auth.decoded ctx.packedAddressTreeInfo
      ctx.outputStateTreeIndex VrfProofCommit.seedPrefix (N.memoHash input.memo) record)
    (hfetch : ∀ S' : Chain, S'.ledger
        (J.addressOf (proofCommitSeeds auth.authorityAddress (N.memoHash input.memo)) ccVrfProgramId) =
          some (record auth.authorityAddress) →
      fetchCommit N J R S' auth.authorityAddress input.memo source =
        .ok (some ((input.header N auth.authorityAddress).onChain slot, onChainBeta)))
    (hbeta : ∀ b ∈ onChainBeta, N.vrfProofToHash input.proof = .ok b) :
    CommitsAndVerifies N J R L S i (input.request source) (onChainBeta.map fun _ => true) := by
  have hrecorded := commitRecord_of_built h slot record hready.stored hready.owner
    ⟨hready.checked.frozen, hready.checked.notRevoked⟩ hready.unused (hready.account ▸ hctx)
  have haddress := h.library.addressOf_eq
    (proofCommitSeeds auth.authorityAddress (N.memoHash input.memo))
  have hcommit := hfetch (S.store (L.address (proofCommitSeeds auth.authorityAddress
    (N.memoHash input.memo))) (record auth.authorityAddress))
    (haddress ▸ Chain.store_ledger_self _ _ _)
  obtain ⟨r, beta, hverified⟩ := verified_of_recorded hready.checked hready.encoded hready.owner
    hready.label (Chain.store_ledger_of_used hready.stored hready.unused) hcommit hbeta
  exact ⟨_, r, beta, hexec.trans hrecorded, hverified⟩

/-- The instruction of `buildCommitProofIx`, executed. -/
lemma exec_commitProof (input : CommitProofInput) (ctx : CommitProofContext) (auth : VrfAuthority)
    (m ph ah : Hash) (slot : UInt64) :
    L.exec S (TransactionInstruction.signed ⟨input.owner, ctx.remainingAccountMetas,
        .commitProof ctx.proof ctx.authorityReadOnlyMeta auth ctx.packedAddressTreeInfo
          ctx.outputStateTreeIndex m ph ah⟩ slot) =
      L.commitRecord S ⟨⟨input.owner, true, true⟩, ctx.remainingAccountMetas, slot⟩ ctx.proof
        ctx.authorityReadOnlyMeta auth ctx.packedAddressTreeInfo ctx.outputStateTreeIndex
        VrfProofCommit.seedPrefix m fun a => .vrfProofCommit ⟨a, m, ph, ah, slot⟩ :=
  rfl

/-- The instruction of `buildCommitProofWithBetaIx`, executed. -/
lemma exec_commitProofWithBeta (input : CommitProofInput) (ctx : CommitProofContext)
    (auth : VrfAuthority) (m ph ah : Hash) (lo hi : ByteVec 32) (slot : UInt64) :
    L.exec S (TransactionInstruction.signed ⟨input.owner, ctx.remainingAccountMetas,
        .commitProofWithBeta ctx.proof ctx.authorityReadOnlyMeta auth ctx.packedAddressTreeInfo
          ctx.outputStateTreeIndex m ph ah lo hi⟩ slot) =
      L.commitRecord S ⟨⟨input.owner, true, true⟩, ctx.remainingAccountMetas, slot⟩ ctx.proof
        ctx.authorityReadOnlyMeta auth ctx.packedAddressTreeInfo ctx.outputStateTreeIndex
        VrfProofCommit.seedPrefix m
        fun a => .vrfProofCommitWithBeta ⟨a, m, ph, ah, lo, hi, slot⟩ :=
  rfl

/-- **Whatever a builder returns can be committed and verified.** No record may exist
for the memo, and the seeds of the two addresses may not collide with others of the
run. -/
theorem built_commit_verifies (N : Noble Point) (h : Honest J R L) (hrun : L.Run Chain.empty t S)
    (input : CommitProofInput) (label : ByteVec 32)
    (hlabel : input.label.labelBytes = .ok label.1)
    (hauthority : L.CollisionFree t (authoritySeeds input.owner label))
    (hmemo : L.CollisionFree t
      (proofCommitSeeds (L.address (authoritySeeds input.owner label)) (N.memoHash input.memo)))
    (hnone : ∀ a acc, S.ledger a = some acc → acc.commitKey ≠
      some (L.address (authoritySeeds input.owner label), N.memoHash input.memo))
    (slot : UInt64) :
    (∀ ix address, buildCommitProofIx N J R S.ledger ccVrfProgramId input = .ok (ix, address) →
        CommitsAndVerifies N J R L S (ix.signed slot) (input.request .registry) none) ∧
      ∀ beta ix address,
        buildCommitProofWithBetaIx N J R S.ledger ccVrfProgramId input beta = .ok (ix, address) →
          CommitsAndVerifies N J R L S (ix.signed slot)
            (input.request (.registryWithBeta true)) (some true) := by
  -- what either builder checked, in the reachable state
  have hready : ∀ auth, CheckedAuthority N J R S.ledger ccVrfProgramId input auth →
      ReadyToCommit N J R L S input label auth := by
    intro auth hchecked
    obtain ⟨haddr, hstored, howner, hlab, haccount⟩ :=
      stored_of_fetched h.library hrun hlabel hauthority hchecked.fetched
    have hunused := unused_of_no_record hrun hmemo hnone
    rw [← haddr] at hunused
    exact ⟨hchecked, hlabel, hstored, howner, hlab, haccount, hunused⟩
  constructor
  · intro ix address hix
    obtain ⟨auth, ctx, hchecked, rfl, hctx, rfl⟩ := buildCommitProofIx_eq_ok hix
    refine (hready auth hchecked).commitsAndVerifies .registry none h hctx
      (exec_commitProof input ctx _ _ _ _ slot) (fun S' hS' => ?_) (fun b hb => nomatch hb)
    have hsource : ∀ n, CommitSource.registry ≠ .event n := fun n h => nomatch h
    exact (fetchCommit_registry_iff hsource).mpr ⟨_, hS', _, decodeProofCommit_data _, rfl⟩
  · intro beta ix address hix
    obtain ⟨auth, ctx, betaLo, betaHi, hchecked, hout, hhalves, rfl, hctx, rfl⟩ :=
      buildCommitProofWithBetaIx_eq_ok hix
    refine (hready auth hchecked).commitsAndVerifies (.registryWithBeta true) (some beta) h hctx
      (exec_commitProofWithBeta input ctx _ _ _ _ _ _ slot) (fun S' hS' => ?_) ?_
    · have hsource : ∀ n, CommitSource.registryWithBeta true ≠ .event n := fun n h => nomatch h
      refine (fetchCommit_registry_iff hsource).mpr
        ⟨_, hS', _, decodeProofCommitWithBeta_data _, ?_⟩
      rw [if_pos rfl, hhalves]
      rfl
    · rintro b ⟨⟩
      exact hout

end CommitPipeline

/-! ### A concrete run -/

/-- The instances for concrete runs work together. -/
lemma Honest.sample : Honest LightJs.sample Rpc.sample Light.sample where
  library := LightJs.sample_agrees
  proofs _ _ _ _ _ := rfl
  trees accounts trees accountMeta htrees _ hqueue := by
    obtain ⟨key, hkey⟩ := Option.isSome_iff_exists.mp hqueue
    obtain ⟨trees', htrees', hget⟩ := Option.bind_eq_some_iff.mp hkey
    obtain rfl : trees = trees' := Option.some.inj (htrees.symm.trans htrees')
    obtain ⟨hlt, -⟩ := List.getElem?_eq_some_iff.mp hget
    exact decide_eq_true hlt

namespace Sample

/-- The operator creates and freezes its authority. -/
def ready : List Invocation := [initAuthority (key 1) operatorPk (key 2) 5, freezeAuthority operator 6]

/-- The state in which the operator can commit. -/
def readyState : Chain := runTx Light.sample.exec Chain.empty ready

/-- The outcome of the operator, to be committed. -/
def commitInput : CommitProofInput := ⟨key 1, .bytes (key 2).1, memo, alpha, proof⟩

/-- The output of the operator's proof. -/
def beta : Bytes := (Noble.sample.vrfProofToHash proof).toOption.getD []

end Sample

/-- Both builders return for the outcome of the operator, and what they return is
committed and verified. -/
theorem built_commit_verifies_sample :
    (∃ ix address, buildCommitProofIx Noble.sample LightJs.sample Rpc.sample
        Sample.readyState.ledger ccVrfProgramId Sample.commitInput = .ok (ix, address) ∧
      CommitsAndVerifies Noble.sample LightJs.sample Rpc.sample Light.sample Sample.readyState
        (ix.signed 7) (Sample.commitInput.request .registry) none) ∧
    ∃ beta ix address, buildCommitProofWithBetaIx Noble.sample LightJs.sample Rpc.sample
        Sample.readyState.ledger ccVrfProgramId Sample.commitInput beta = .ok (ix, address) ∧
      CommitsAndVerifies Noble.sample LightJs.sample Rpc.sample Light.sample Sample.readyState
        (ix.signed 7) (Sample.commitInput.request (.registryWithBeta true)) (some true) := by
  obtain ⟨t, ht, hrun⟩ : ∃ t, t.map Executed.input = Sample.ready ∧
      Light.sample.Run Chain.empty t Sample.readyState :=
    runTx_history Light.sample.exec Chain.empty Sample.ready (by decide +kernel)
  have hfree : ∀ seeds ∈ [authoritySeeds (Sample.key 1) (Sample.key 2),
      proofCommitSeeds (Light.sample.address (authoritySeeds (Sample.key 1) (Sample.key 2)))
        (Noble.sample.memoHash Sample.memo)], Light.sample.CollisionFree t seeds := by
    intro seeds hseeds e he
    have hinputs : ∀ i ∈ t.map Executed.input, ∀ seeds' ∈ i.derivedSeeds,
        Light.sample.address seeds' = Light.sample.address seeds → seeds' = seeds := by
      rw [ht]
      revert seeds
      decide +kernel
    exact hinputs e.input (List.mem_map_of_mem he)
  -- the run has only derived the address of an authority
  have hnone : ∀ a acc, Sample.readyState.ledger a = some acc → acc.commitKey ≠
      some (Light.sample.address (authoritySeeds (Sample.key 1) (Sample.key 2)),
        Noble.sample.memoHash Sample.memo) := by
    intro a acc ha hkey
    obtain ⟨e, he, hmem⟩ := Light.Run.derived hrun ha
    rw [Account.seeds_of_commitKey hkey] at hmem
    have hinputs : ∀ i ∈ t.map Executed.input, proofCommitSeeds
        (Light.sample.address (authoritySeeds (Sample.key 1) (Sample.key 2)))
          (Noble.sample.memoHash Sample.memo) ∉ i.derivedSeeds := by
      rw [ht]
      decide +kernel
    exact hinputs e.input (List.mem_map_of_mem he) hmem
  obtain ⟨hregistry, hwithBeta⟩ := built_commit_verifies Noble.sample Honest.sample hrun
    Sample.commitInput (Sample.key 2) rfl (hfree _ (List.mem_cons_self ..))
    (hfree _ (List.mem_cons_of_mem _ (List.mem_cons_self ..))) hnone 7
  have hbuilt : (buildCommitProofIx Noble.sample LightJs.sample Rpc.sample
      Sample.readyState.ledger ccVrfProgramId Sample.commitInput).isOk = true := by decide +kernel
  have hbuiltWithBeta : (buildCommitProofWithBetaIx Noble.sample LightJs.sample Rpc.sample
      Sample.readyState.ledger ccVrfProgramId Sample.commitInput Sample.beta).isOk = true := by
    decide +kernel
  obtain ⟨⟨ix, address⟩, hix⟩ := ok_of_isOk hbuilt
  obtain ⟨⟨ix', address'⟩, hix'⟩ := ok_of_isOk hbuiltWithBeta
  exact ⟨⟨ix, address, hix, hregistry ix address hix⟩, Sample.beta, ix', address', hix',
    hwithBeta Sample.beta ix' address' hix'⟩

end CcVrf
