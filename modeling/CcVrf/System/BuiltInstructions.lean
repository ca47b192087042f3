import CcVrf.Client.Builders
import CcVrf.Program.Replay
import CcVrf.System.CommitPipeline

/-!
What the program makes of the instructions that the client builds.

* `Rpc.PresentsCall`, `HonestCalls`: a call on at most one leaf and at most one new
  address presents the proof that the node gave for them; honest proofs are accepted.
* `presents_create`, `presents_rewrite`, `presents_readOnly`: each context builder
  prepares such a call.
* `built_init_lifecycle`: **an authority from its builder to every later state.**
* `built_rewrites`: a built freeze or revocation is executed exactly when the program
  allows it, and in a later state only while the authority is unchanged.
-/

namespace CcVrf

open Runs

/-! ### Honest proofs for every call of the client -/

/-- Where the leaf is that an account of a call reads or rewrites. -/
def LightAccount.leaf? : LightAccount → Option (PackedStateTreeInfo × Pubkey)
  | newInit _ _ _ => none
  | newMut accountMeta _ _ => some (accountMeta.treeInfo, accountMeta.address)
  | newReadOnly accountMeta _ => some (accountMeta.treeInfo, accountMeta.address)

/-- The output queue that an account of a call names. -/
def LightAccount.outputIndex? : LightAccount → Option UInt8
  | newInit _ outputStateTreeIndex _ => some outputStateTreeIndex
  | newMut accountMeta _ _ => some accountMeta.outputStateTreeIndex
  | newReadOnly _ _ => none

/-- The leaf at an address, as a proof is asked for it. -/
def Rpc.leaf (R : Rpc) (ledger : Ledger) (a : Pubkey) : HashWithTree :=
  ⟨(R.leafPosition ledger a).hash, (R.leafPosition ledger a).tree, (R.leafPosition ledger a).queue⟩

/-- The tree info of a leaf names the first root of a proof and the position of the
leaf. -/
structure Rpc.Positions (R : Rpc) (L : Light) (ledger : Ledger) (pr : ValidityProofWithContext)
    (accounts : List Pubkey) (info : PackedStateTreeInfo) (a : Pubkey) : Prop where
  root : pr.rootIndices.head? = some info.rootIndex
  proveByIndex : pr.proveByIndices.head?.getD false = info.proveByIndex
  leafIndex : info.leafIndex = (R.leafPosition ledger a).leafIndex
  merkleTree : L.treePubkey accounts info.merkleTreePubkeyIndex =
    some (R.leafPosition ledger a).tree
  queue : L.treePubkey accounts info.queuePubkeyIndex = some (R.leafPosition ledger a).queue

/-- The index names the queue of the output tree that the node selects. -/
def Rpc.NamesOutput (R : Rpc) (L : Light) (ledger : Ledger) (accounts : List Pubkey) (i : UInt8) :
    Prop :=
  ∃ infos info, R.getStateTreeInfos ledger = .ok infos ∧ R.selectStateTreeInfo infos = .ok info ∧
    L.treePubkey accounts i = some info.queue

/-- A call on at most one leaf and at most one new address presents the proof `pr` that
the node gave for them in this state. -/
structure Rpc.PresentsCall (R : Rpc) (L : Light) (ledger : Ledger) (pr : ValidityProofWithContext)
    (addressTree : Pubkey) (addresses : List Pubkey) (cpi : LightSystemProgramCpi) : Prop where
  proof : cpi.proof = pr.compressedProof
  oneLeaf : (cpi.lightAccounts.filterMap LightAccount.leaf?).length ≤ 1
  oneAddress : addresses.length ≤ 1
  current : ∀ a ∈ cpi.lightAccounts, a.isCurrent ledger = true
  unused : ∀ a ∈ addresses, ledger a = none
  derived : cpi.newAddresses.map (L.newAddress cpi.remainingAccounts) = addresses.map some
  asked :
    R.getValidityProofV0 ledger
      ((cpi.lightAccounts.filterMap LightAccount.leaf?).map fun l => R.leaf ledger l.2)
      (addresses.map fun a => ⟨addressTree, addressTree, a⟩) = .ok pr
  positions : ∀ l ∈ cpi.lightAccounts.filterMap LightAccount.leaf?,
    R.Positions L ledger pr cpi.remainingAccounts l.1 l.2
  newRoot : ∀ p ∈ cpi.newAddresses, pr.rootIndices.getLast? = some p.addressTreeInfo.rootIndex
  addressTree : ∀ p ∈ cpi.newAddresses,
    L.treePubkey cpi.remainingAccounts p.addressTreeInfo.addressMerkleTreePubkeyIndex =
      some addressTree
  outputs : ∀ i ∈ cpi.lightAccounts.filterMap LightAccount.outputIndex?,
    R.NamesOutput L ledger cpi.remainingAccounts i

/-- The proofs of the node are honest: a call that presents one is accepted. -/
def HonestCalls (R : Rpc) (L : Light) : Prop :=
  ∀ ledger pr addressTree addresses cpi, R.PresentsCall L ledger pr addressTree addresses cpi →
    L.accepts ledger cpi = true

/-- The third-party parts of the client and of the program work together, for every call
that the client builds. -/
structure HonestClient (J : LightJs) (R : Rpc) (L : Light) : Prop where
  library : J.Agrees L
  calls : HonestCalls R L
  trees : TreesFound L

section Built

variable {J : LightJs} {R : Rpc} {L : Light}

/-- A call that reads a leaf and creates an account is one of these calls. -/
lemma HonestCalls.honestProofs (h : HonestCalls R L) : HonestProofs R L := by
  intro ledger pr addressTree x hx
  refine h ledger pr addressTree [x.address] _
    { proof := rfl
      oneLeaf := le_rfl
      oneAddress := le_rfl
      current := ?_
      unused := ?_
      derived := ?_
      asked := hx.asked
      positions := ?_
      newRoot := ?_
      addressTree := ?_
      outputs := ?_ }
  · intro a ha
    rcases List.mem_pair.mp ha with rfl | rfl
    · exact beq_iff_eq.mpr hx.leaf
    · rfl
  · intro a ha
    rw [List.mem_singleton.mp ha]
    exact hx.unused
  · exact congrArg (fun a => [a]) hx.newAddress
  · intro l hl
    rw [List.mem_singleton.mp hl]
    exact ⟨hx.root, hx.proveByIndex, hx.leafIndex, hx.merkleTree, hx.queue⟩
  · intro p hp
    rw [List.mem_singleton.mp hp]
    exact hx.newRoot
  · intro p hp
    rw [List.mem_singleton.mp hp]
    exact hx.addressTree
  · intro i hi
    rw [List.mem_singleton.mp hi]
    exact hx.outputQueue

lemma HonestClient.honest (h : HonestClient J R L) : Honest J R L :=
  ⟨h.library, h.calls.honestProofs, h.trees⟩

/-! ### What the contexts prepare -/

/-- The tree info that a context packs for a leaf names its position. -/
lemma positions_of_packed (hJ : J.Agrees L) {ledger : Ledger} {a : Pubkey} {acc : Account}
    {packed : List Pubkey} {pr : ValidityProofWithContext} {info : PackedStateTreeInfo}
    (hlen : packed.length < 256) (htree : (R.leafPosition ledger a).tree ∈ packed)
    (hqueue : (R.leafPosition ledger a).queue ∈ packed)
    (h : (R.compressed ledger a acc).packedTreeInfo J packed pr = .ok info) :
    R.Positions L ledger pr (J.remainingAccounts programId packed) info a := by
  simp only [CompressedAccount.packedTreeInfo, bind_eq_ok_iff, definedNumber_eq_ok_iff] at h
  obtain ⟨root, hroot, h⟩ := h
  cases h
  exact ⟨hroot, rfl, rfl, hJ.packed packed hlen _ htree, hJ.packed packed hlen _ hqueue⟩

/-- **A creation**: the call presents the proof that `buildCreateContext` asked for. -/
lemma presents_create (hJ : J.Agrees L) {ledger : Ledger} {seeds : List Bytes}
    (hunused : ledger (L.address seeds) = none) {ctx : CreateContext}
    (h : buildCreateContext J R ledger ccVrfProgramId (L.address seeds) [] = .ok ctx)
    (output : Account) (feePayer : Pubkey) :
    ∃ pr, R.PresentsCall L ledger pr L.addressTreeV2 [L.address seeds]
      { proof := ctx.proof
        lightAccounts := [.newInit (L.address seeds) ctx.outputStateTreeIndex output]
        newAddresses := [⟨(L.deriveAddress seeds L.addressTreeV2 programId).2,
          ctx.packedAddressTreeInfo, some 0⟩]
        feePayer := feePayer
        remainingAccounts := ctx.remainingAccountMetas } := by
  simp only [buildCreateContext, bind_eq_ok_iff, definedNumber_eq_ok_iff] at h
  obtain ⟨pr, hpr, infos, hinfos, info, hinfo, last, hlast, h⟩ := h
  cases h
  have hpacked := hJ.packed [J.batchAddressTree, info.queue] (by simp)
  have htree := hpacked J.batchAddressTree (List.mem_cons_self ..)
  rw [hJ.tree] at htree hpr
  refine ⟨pr,
    { proof := rfl
      oneLeaf := Nat.zero_le _
      oneAddress := le_rfl
      current := fun a ha => by rw [List.mem_singleton.mp ha]; rfl
      unused := fun a ha => by rw [List.mem_singleton.mp ha]; exact hunused
      derived := ?_
      asked := hpr
      positions := fun l hl => absurd hl List.not_mem_nil
      newRoot := fun p hp => by rw [List.mem_singleton.mp hp]; exact hlast
      addressTree := fun p hp => ?_
      outputs := fun i hi => ?_ }⟩
  · rw [hJ.tree]
    exact congrArg (fun a => [a]) (L.newAddress_derived htree seeds (some 0))
  · rw [List.mem_singleton.mp hp, hJ.tree]
    exact htree
  · rw [List.mem_singleton.mp hi]
    exact ⟨infos, info, hinfos, hinfo, hpacked info.queue (by simp)⟩

/-- **A rewrite**: the call presents the proof that `buildMutateContext` asked for. -/
lemma presents_rewrite (hJ : J.Agrees L) {ledger : Ledger} {a : Pubkey} {acc : Account}
    (hleaf : ledger a = some acc) {ctx : MutateContext}
    (h : buildMutateContext J R ledger ccVrfProgramId (R.compressed ledger a acc) = .ok ctx)
    (output : Account) (feePayer addressTree : Pubkey) :
    ctx.accountMeta.address = a ∧
      ∃ pr, R.PresentsCall L ledger pr addressTree []
        { proof := ctx.proof
          lightAccounts := [.newMut ctx.accountMeta acc output]
          newAddresses := []
          feePayer := feePayer
          remainingAccounts := ctx.remainingAccountMetas } := by
  simp only [buildMutateContext, bind_eq_ok_iff] at h
  obtain ⟨pr, hpr, infos, hinfos, info, hinfo, treeInfo, htreeInfo, h⟩ := h
  cases h
  refine ⟨rfl, pr,
    { proof := rfl
      oneLeaf := le_rfl
      oneAddress := Nat.zero_le _
      current := fun x hx => by rw [List.mem_singleton.mp hx]; exact beq_iff_eq.mpr hleaf
      unused := fun x hx => absurd hx List.not_mem_nil
      derived := rfl
      asked := hpr
      positions := fun l hl => ?_
      newRoot := fun p hp => absurd hp List.not_mem_nil
      addressTree := fun p hp => absurd hp List.not_mem_nil
      outputs := fun i hi => ?_ }⟩
  · rw [List.mem_singleton.mp hl]
    exact positions_of_packed hJ (by simp) (by simp [Rpc.compressed]) (by simp [Rpc.compressed])
      htreeInfo
  · rw [List.mem_singleton.mp hi]
    exact ⟨infos, info, hinfos, hinfo, hJ.packed _ (by simp) _ (by simp)⟩

/-- **An event**: the call presents the proof that `buildReadOnlyAuthorityContext` asked
for. -/
lemma presents_readOnly (hJ : J.Agrees L) {ledger : Ledger} {a : Pubkey} {acc : Account}
    (hleaf : ledger a = some acc) {ctx : ReadOnlyAuthorityContext}
    (h : buildReadOnlyAuthorityContext J R ledger ccVrfProgramId (R.compressed ledger a acc) =
      .ok ctx) (feePayer addressTree : Pubkey) :
    ctx.authorityReadOnlyMeta.address = a ∧
      ∃ pr, R.PresentsCall L ledger pr addressTree []
        { proof := ctx.proof
          lightAccounts := [.newReadOnly ctx.authorityReadOnlyMeta acc]
          newAddresses := []
          feePayer := feePayer
          remainingAccounts := ctx.remainingAccountMetas } := by
  simp only [buildReadOnlyAuthorityContext, bind_eq_ok_iff] at h
  obtain ⟨pr, hpr, treeInfo, htreeInfo, h⟩ := h
  cases h
  refine ⟨rfl, pr,
    { proof := rfl
      oneLeaf := le_rfl
      oneAddress := Nat.zero_le _
      current := fun x hx => by rw [List.mem_singleton.mp hx]; exact beq_iff_eq.mpr hleaf
      unused := fun x hx => absurd hx List.not_mem_nil
      derived := rfl
      asked := hpr
      positions := fun l hl => ?_
      newRoot := fun p hp => absurd hp List.not_mem_nil
      addressTree := fun p hp => absurd hp List.not_mem_nil
      outputs := fun i hi => absurd hi List.not_mem_nil }⟩
  rw [List.mem_singleton.mp hl]
  exact positions_of_packed hJ (by simp) (by simp [Rpc.compressed]) (by simp [Rpc.compressed])
    htreeInfo

/-! ### Creating an authority -/

/-- A call that creates one account at an unused derived address is admissible. -/
lemma admissible_create {ledger : Ledger} {seeds : List Bytes} {info : PackedAddressTreeInfo}
    {accounts : List Pubkey} (proof : ValidityProof) (i : UInt8) (output : Account)
    (feePayer : Pubkey) (hunused : ledger (L.address seeds) = none)
    (htree : L.treePubkey accounts info.addressMerkleTreePubkeyIndex = some L.addressTreeV2) :
    L.admissible ledger
      { proof := proof
        lightAccounts := [.newInit (L.address seeds) i output]
        newAddresses := [⟨(L.deriveAddress seeds L.addressTreeV2 programId).2, info, some 0⟩]
        feePayer := feePayer
        remainingAccounts := accounts } = true := by
  have hnew := L.newAddress_derived htree seeds (some 0)
  have hnew' : L.newAddress accounts
      ⟨(L.deriveAddress seeds L.addressTreeV2 programId).2, info, some 0⟩ =
        some (L.address seeds) := hnew
  simp [Light.admissible, Light.newAddressOk, LightAccount.isCurrent, LightAccount.created?,
    LightSystemProgramCpi.outputs, LightAccount.output?, hnew', hunused]

/-- The authority that the input of the builder describes, when created in a slot. -/
structure InitAuthorityInput.Describes (input : InitAuthorityInput) (slot : UInt64)
    (auth : VrfAuthority) : Prop where
  owner : auth.owner = input.owner
  pk : auth.pk.1 = input.pk
  suite : (auth.suite.toNat : ℤ) = input.suite
  label : input.label.labelBytes = .ok auth.label.1
  frozen : auth.frozen = false
  revoked : auth.revoked = false
  createdSlot : auth.createdSlot = slot

/-- **The life of an authority that the client creates.** Whatever `buildInitAuthorityIx`
returns is executed exactly when a fetch finds no authority. It then stores the authority
of the input and changes nothing else, and in every later state a fetch returns that
authority, with exactly the flags raised that were since asked for at its address. -/
theorem built_init_lifecycle (h : HonestClient J R L) {S : Chain} {input : InitAuthorityInput}
    {ix : TransactionInstruction} {address : Pubkey}
    (hbuilt : buildInitAuthorityIx J R S.ledger ccVrfProgramId input = .ok (ix, address))
    (slot : UInt64) :
    ∃ auth, input.Describes slot auth ∧
      ((∃ S', L.exec S (ix.signed slot) = .ok S') ↔
        fetchAuthority J R S.ledger ccVrfProgramId input.owner input.label = .ok none) ∧
      ∀ S', L.exec S (ix.signed slot) = .ok S' → S' = S.store address (.vrfAuthority auth) ∧
        ∀ t S'', L.Run S' t S'' →
          ∃ f, fetchAuthority J R S''.ledger ccVrfProgramId input.owner input.label = .ok (some f) ∧
            f.authorityAddress = address ∧
            f.decoded = auth.raised (t.any fun e => e.input.freezes address)
              (t.any fun e => e.input.revokes address) := by
  obtain ⟨pk, label, ctx, hpk, hsuite, hlabel, haddress, hctx, rfl⟩ :=
    buildInitAuthorityIx_eq_ok hbuilt
  rw [h.library.addressOf_eq] at haddress
  subst haddress
  let auth : VrfAuthority :=
    (Context.mk ⟨input.owner, true, true⟩ ctx.remainingAccountMetas slot).newAuthority pk
      suiteEdwards25519Sha512Tai label
  -- an execution stores the authority
  have hexec : ∀ S', L.exec S (TransactionInstruction.signed ⟨input.owner, ctx.remainingAccountMetas,
      .initAuthority systemProgramId ctx.proof ctx.packedAddressTreeInfo ctx.outputStateTreeIndex pk
        suiteEdwards25519Sha512Tai label⟩ slot) = .ok S' →
      S.ledger (L.address (authoritySeeds input.owner label)) = none ∧
        S' = S.store (L.address (authoritySeeds input.owner label)) (.vrfAuthority auth) := by
    intro S' hS'
    obtain ⟨-, ⟨-, -, hnone⟩, rfl⟩ := L.exec_refines hS'
    exact ⟨hnone, rfl⟩
  refine ⟨auth, ⟨rfl, hpk, by rw [hsuite]; rfl, hlabel, rfl, rfl, rfl⟩, ?_, ?_⟩
  · rw [fetchAuthority_eq_none_iff hlabel, h.library.addressOf_eq]
    constructor
    · rintro ⟨S', hS'⟩
      exact (hexec S' hS').1
    · intro hunused
      obtain ⟨pr, hpresents⟩ := presents_create h.library hunused hctx (.vrfAuthority auth) input.owner
      have htree := hpresents.addressTree _ (List.mem_singleton.mpr rfl)
      have hadm := admissible_create ctx.proof ctx.outputStateTreeIndex (.vrfAuthority auth)
        input.owner hunused htree
      have hacc := h.calls _ _ _ _ _ hpresents
      refine ⟨S.store (L.address (authoritySeeds input.owner label)) (.vrfAuthority auth), ?_⟩
      simp only [Light.exec, TransactionInstruction.signed, Light.initAuthorityHandler,
        bind_eq_ok_iff, require_eq_ok_iff, Light.checkedAddressTree_eq_ok_iff,
        Light.invoke_eq_ok_iff]
      exact ⟨(), rfl, (), trivial, L.addressTreeV2, ⟨rfl, htree⟩, _, ⟨hadm, hacc, rfl⟩, rfl⟩
  · intro S' hS'
    obtain ⟨-, rfl⟩ := hexec S' hS'
    refine ⟨rfl, fun t S'' hrun => ?_⟩
    have hlater := Light.Run.authority_eq hrun (Chain.store_ledger_self S _ (.vrfAuthority auth))
    refine ⟨_, fetchAuthority_eq_some_iff.mpr ⟨label.1, _, hlabel,
      J.deriveAuthorityAddress_eq .., _, _, ?_, decodeAuthority_data _, rfl⟩, ?_, rfl⟩
    · rw [h.library.addressOf_eq]
      exact hlater
    · exact h.library.addressOf_eq _

/-! ### Raising a flag -/

/-- A rewrite of a current leaf is admissible. -/
lemma admissible_rewrite {ledger : Ledger} {accountMeta : CompressedAccountMeta} {acc : Account}
    (accounts : List Pubkey) (proof : ValidityProof) (output : Account) (feePayer : Pubkey)
    (hleaf : ledger accountMeta.address = some acc) :
    L.admissible ledger
      { proof := proof
        lightAccounts := [.newMut accountMeta acc output]
        newAddresses := []
        feePayer := feePayer
        remainingAccounts := accounts } = true := by
  simp [Light.admissible, LightAccount.isCurrent, LightAccount.created?, hleaf]

/-- What a built freeze or revocation does, in the state that it was built in and in
every later one. -/
structure BuiltRewrite (L : Light) (S : Chain) (i : Invocation) (a : Pubkey)
    (before after : VrfAuthority) (allowed : Prop) : Prop where
  /-- In the state that it was built in it is executed exactly when the program allows
  it, -/
  executed_iff : (∃ S', L.exec S i = .ok S') ↔ allowed
  /-- and then rewrites the authority and nothing else. -/
  effect : ∀ S', L.exec S i = .ok S' → S' = S.store a (.vrfAuthority after)
  /-- In a later state it is executed only when no flag of the authority was raised in
  between. -/
  stale : ∀ t S₁ S', L.Run S t S₁ → L.exec S₁ i = .ok S' →
    before.raised (t.any fun e => e.input.freezes a) (t.any fun e => e.input.revokes a) = before

/-- The parts that a freeze and a revocation share. -/
lemma builtRewrite_of {S : Chain} {i : Invocation} {a : Pubkey} {before after : VrfAuthority}
    {allowed : Prop} (haction : i.action = .raise a before after)
    (hstored : S.ledger a = some (.vrfAuthority before))
    (hexec : (∃ S', L.exec S i = .ok S') ↔ allowed) : BuiltRewrite L S i a before after allowed where
  executed_iff := hexec
  effect S' hS' := by
    have hdoes := (L.exec_refines hS').2.2
    rw [haction] at hdoes
    exact hdoes
  stale t S₁ S' hrun hS' := by
    have hen := (L.exec_refines hS').2.1
    rw [haction] at hen
    obtain ⟨-, -, hleaf⟩ := hen
    rw [Light.Run.authority_eq hrun hstored] at hleaf
    exact Account.vrfAuthority.inj (Option.some.inj hleaf)

/-- **What a built freeze and a built revocation do.** The freeze is executed exactly
when the authority is not frozen yet, the revocation always; each raises its flag and
changes nothing else, and is refused once a flag of the authority has changed. -/
theorem built_rewrites (h : HonestClient J R L) {S : Chain} {t : List (Executed Chain Invocation)}
    (hrun : L.Run Chain.empty t S) (input : FreezeAuthorityInput) (label : ByteVec 32)
    (hlabel : input.label.labelBytes = .ok label.1)
    (hfree : L.CollisionFree t (authoritySeeds input.owner label)) (slot : UInt64) :
    (∀ ix, buildFreezeAuthorityIx J R S.ledger ccVrfProgramId input = .ok ix → ∃ auth,
        fetchAuthority J R S.ledger ccVrfProgramId input.owner input.label = .ok (some auth) ∧
        BuiltRewrite L S (ix.signed slot) auth.authorityAddress auth.decoded
          { auth.decoded with frozen := true } (auth.decoded.frozen = false)) ∧
      ∀ ix, buildRevokeAuthorityIx J R S.ledger ccVrfProgramId input = .ok ix → ∃ auth,
        fetchAuthority J R S.ledger ccVrfProgramId input.owner input.label = .ok (some auth) ∧
        BuiltRewrite L S (ix.signed slot) auth.authorityAddress auth.decoded
          { auth.decoded with revoked := true } True := by
  -- the context of a fetched authority is accepted, whatever is written
  have hinvoke : ∀ auth ctx,
      fetchAuthority J R S.ledger ccVrfProgramId input.owner input.label = .ok (some auth) →
      buildMutateContext J R S.ledger ccVrfProgramId auth.account = .ok ctx →
      auth.decoded.owner = input.owner ∧ ctx.accountMeta.address = auth.authorityAddress ∧
        S.ledger auth.authorityAddress = some (.vrfAuthority auth.decoded) ∧
        ∀ after, ∃ S', L.rewriteAuthority S
          ⟨⟨input.owner, true, true⟩, ctx.remainingAccountMetas, slot⟩ ctx.proof auth.decoded after
            ctx.accountMeta = .ok S' := by
    intro auth ctx hf hctx
    let x : CommitProofInput := ⟨input.owner, input.label, .bytes [], [], []⟩
    have hx : fetchAuthority J R S.ledger ccVrfProgramId x.owner x.label = .ok (some auth) := hf
    obtain ⟨-, hstored, howner, -, haccount⟩ := stored_of_fetched h.library hrun hlabel hfree hx
    rw [haccount] at hctx
    have hmeta := (presents_rewrite h.library hstored hctx (.vrfAuthority auth.decoded) input.owner
      L.addressTreeV2).1
    refine ⟨howner, hmeta, hstored, fun after => ?_⟩
    obtain ⟨-, pr, hpresents⟩ := presents_rewrite h.library hstored hctx (.vrfAuthority after)
      input.owner L.addressTreeV2
    have hadm := admissible_rewrite (L := L) ctx.remainingAccountMetas ctx.proof
      (.vrfAuthority after) input.owner (hmeta.symm ▸ hstored)
    have hinvoke := (L.invoke_eq_ok_iff _ _ _).mpr ⟨hadm, h.calls _ _ _ _ _ hpresents, rfl⟩
    exact ⟨_, bind_eq_ok_iff.mpr ⟨_, hinvoke, rfl⟩⟩
  constructor
  · intro ix hix
    obtain ⟨auth, ctx, hf, hctx, rfl⟩ := buildRewriteIx_eq_ok hix
    obtain ⟨howner, hmeta, hstored, hok⟩ := hinvoke auth ctx hf hctx
    refine ⟨auth, hf, builtRewrite_of (hmeta ▸ rfl) hstored ?_⟩
    constructor
    · rintro ⟨S', hS'⟩
      exact Light.unfrozen_of_freeze hS'
    · intro hfrozen
      obtain ⟨S', hS'⟩ := hok { auth.decoded with frozen := true }
      refine ⟨S', bind_eq_ok_iff.mpr ⟨(), rfl, bind_eq_ok_iff.mpr ⟨(), ?_, ?_⟩⟩⟩
      · exact (require_eq_ok_iff _ _ _).mpr howner
      · exact bind_eq_ok_iff.mpr ⟨(), (require_eq_ok_iff _ _ _).mpr hfrozen, hS'⟩
  · intro ix hix
    obtain ⟨auth, ctx, hf, hctx, rfl⟩ := buildRewriteIx_eq_ok hix
    obtain ⟨howner, hmeta, hstored, hok⟩ := hinvoke auth ctx hf hctx
    refine ⟨auth, hf, builtRewrite_of (hmeta ▸ rfl) hstored (iff_of_true ?_ trivial)⟩
    obtain ⟨S', hS'⟩ := hok { auth.decoded with revoked := true }
    refine ⟨S', bind_eq_ok_iff.mpr ⟨(), rfl, bind_eq_ok_iff.mpr ⟨(), ?_, hS'⟩⟩⟩
    exact (require_eq_ok_iff _ _ _).mpr howner

end Built

/-! ### Concrete instructions -/

/-- The instances for concrete runs work together. -/
lemma HonestClient.sample : HonestClient LightJs.sample Rpc.sample Light.sample where
  library := LightJs.sample_agrees
  calls _ _ _ _ _ _ := rfl
  trees := Honest.sample.trees

namespace Sample

/-- The authority of the operator, to be created. -/
def initInput : InitAuthorityInput := ⟨key 1, operatorPk.1, 3, .bytes (key 2).1⟩

/-- The operator has created its authority. -/
def created : List Invocation := [initAuthority (key 1) operatorPk (key 2) 5]

/-- The state in which the operator can freeze its authority. -/
def createdState : Chain := runTx Light.sample.exec Chain.empty created

/-- The authority of the operator, to be frozen or revoked. -/
def freezeInput : FreezeAuthorityInput := ⟨key 1, .bytes (key 2).1⟩

end Sample

/-- The operator creates its authority with a built instruction. -/
theorem built_init_lifecycle_sample :
    ∃ ix address auth S', buildInitAuthorityIx LightJs.sample Rpc.sample Chain.empty.ledger
        ccVrfProgramId Sample.initInput = .ok (ix, address) ∧
      Sample.initInput.Describes 5 auth ∧
      Light.sample.exec Chain.empty (ix.signed 5) = .ok S' ∧
      ∀ t S'', Light.sample.Run S' t S'' →
        ∃ f, fetchAuthority LightJs.sample Rpc.sample S''.ledger ccVrfProgramId (Sample.key 1)
            (.bytes (Sample.key 2).1) = .ok (some f) ∧
          f.decoded = auth.raised (t.any fun e => e.input.freezes address)
            (t.any fun e => e.input.revokes address) := by
  have hbuilt : (buildInitAuthorityIx LightJs.sample Rpc.sample Chain.empty.ledger ccVrfProgramId
      Sample.initInput).isOk = true := by decide +kernel
  obtain ⟨⟨ix, address⟩, hix⟩ := ok_of_isOk hbuilt
  obtain ⟨auth, hdescribes, hexec, hlife⟩ := built_init_lifecycle HonestClient.sample hix 5
  obtain ⟨S', hS'⟩ := hexec.mpr rfl
  refine ⟨ix, address, auth, S', hix, hdescribes, hS', fun t S'' hrun => ?_⟩
  obtain ⟨f, hf, -, hflags⟩ := (hlife S' hS').2 t S'' hrun
  exact ⟨f, hf, hflags⟩

/-- The operator freezes or revokes its authority with a built instruction. -/
theorem built_rewrites_sample :
    (∃ (ix : TransactionInstruction) (auth : FetchedAuthority),
      buildFreezeAuthorityIx LightJs.sample Rpc.sample Sample.createdState.ledger
        ccVrfProgramId Sample.freezeInput = .ok ix ∧
      BuiltRewrite Light.sample Sample.createdState (ix.signed 6) auth.authorityAddress auth.decoded
        { auth.decoded with frozen := true } (auth.decoded.frozen = false)) ∧
    ∃ (ix : TransactionInstruction) (auth : FetchedAuthority),
      buildRevokeAuthorityIx LightJs.sample Rpc.sample Sample.createdState.ledger
        ccVrfProgramId Sample.freezeInput = .ok ix ∧
      BuiltRewrite Light.sample Sample.createdState (ix.signed 6) auth.authorityAddress auth.decoded
        { auth.decoded with revoked := true } True := by
  obtain ⟨t, ht, hrun⟩ : ∃ t, t.map Executed.input = Sample.created ∧
      Light.sample.Run Chain.empty t Sample.createdState :=
    runTx_history Light.sample.exec Chain.empty Sample.created (by decide +kernel)
  have hfree : Light.sample.CollisionFree t (authoritySeeds (Sample.key 1) (Sample.key 2)) := by
    intro e he
    have hinputs : ∀ i ∈ t.map Executed.input, ∀ seeds' ∈ i.derivedSeeds,
        Light.sample.address seeds' =
            Light.sample.address (authoritySeeds (Sample.key 1) (Sample.key 2)) →
          seeds' = authoritySeeds (Sample.key 1) (Sample.key 2) := by
      rw [ht]
      decide +kernel
    exact hinputs e.input (List.mem_map_of_mem he)
  obtain ⟨hfreeze, hrevoke⟩ := built_rewrites HonestClient.sample hrun Sample.freezeInput
    (Sample.key 2) rfl hfree 6
  have hbuilt : (buildFreezeAuthorityIx LightJs.sample Rpc.sample Sample.createdState.ledger
      ccVrfProgramId Sample.freezeInput).isOk = true := by decide +kernel
  have hbuilt' : (buildRevokeAuthorityIx LightJs.sample Rpc.sample Sample.createdState.ledger
      ccVrfProgramId Sample.freezeInput).isOk = true := by decide +kernel
  obtain ⟨ix, hix⟩ := ok_of_isOk hbuilt
  obtain ⟨ix', hix'⟩ := ok_of_isOk hbuilt'
  obtain ⟨auth, -, hdone⟩ := hfreeze ix hix
  obtain ⟨auth', -, hdone'⟩ := hrevoke ix' hix'
  exact ⟨⟨ix, auth, hix, hdone⟩, ix', auth', hix', hdone'⟩

end CcVrf
