import CcVrf.Library.GrowOnly
import CcVrf.Program.Instructions

/-!
What the program is for: a board on which the owner of a key creates it, freezes
and revokes it, and posts commitments under it while it is frozen and not revoked.

* `Action`, `Action.Enabled`, `Action.apply`: the board, with four guarded
  actions.
* `Invocation.action`: the action that an instruction asks for, read off its
  arguments and its signer.
* `exec_refines`: **an instruction that succeeds was signed by its owner, its
  action was enabled, and the new state is the action's.** Everything about runs
  of the program is proved from this theorem.
-/

namespace CcVrf

/-- The rule for commitments: the authority is frozen and not revoked. -/
def VrfAuthority.MayCommit (a : VrfAuthority) : Prop := a.frozen = true ∧ a.revoked = false

instance (a : VrfAuthority) : Decidable a.MayCommit := inferInstanceAs (Decidable (_ ∧ _))

/-- What a later state of an authority may differ in: the two flags, which are only
ever raised. -/
structure VrfAuthority.Later (before after : VrfAuthority) : Prop where
  owner : after.owner = before.owner
  pk : after.pk = before.pk
  suite : after.suite = before.suite
  label : after.label = before.label
  createdSlot : after.createdSlot = before.createdSlot
  frozen : before.frozen = true → after.frozen = true
  revoked : before.revoked = true → after.revoked = true

namespace VrfAuthority.Later

lemma refl (a : VrfAuthority) : a.Later a := ⟨rfl, rfl, rfl, rfl, rfl, id, id⟩

lemma trans {a b c : VrfAuthority} (h : a.Later b) (h' : b.Later c) : a.Later c :=
  ⟨h'.owner.trans h.owner, h'.pk.trans h.pk, h'.suite.trans h.suite, h'.label.trans h.label,
    h'.createdSlot.trans h.createdSlot, h'.frozen ∘ h.frozen, h'.revoked ∘ h.revoked⟩

/-- Raising `frozen`. -/
lemma freeze (a : VrfAuthority) : a.Later { a with frozen := true } :=
  ⟨rfl, rfl, rfl, rfl, rfl, fun _ => rfl, id⟩

/-- Raising `revoked`. -/
lemma revoke (a : VrfAuthority) : a.Later { a with revoked := true } :=
  ⟨rfl, rfl, rfl, rfl, rfl, id, fun _ => rfl⟩

end VrfAuthority.Later

/-! ### The board -/

/-- The actions of the board. -/
inductive Action where
  | create (auth : VrfAuthority)
  | raise (address : Pubkey) (before after : VrfAuthority)
  | record (authority : Pubkey) (auth : VrfAuthority) (acc : Account)
  | emit (authority : Pubkey) (auth : VrfAuthority) (ev : VrfProofCommitted)

/-- The guards of the actions. -/
def Action.Enabled (L : Light) (c : Chain) (signer : Pubkey) : Action → Prop
  | create auth =>
      auth.owner = signer ∧ auth.suite = suiteEdwards25519Sha512Tai ∧
        c.ledger (L.address (authoritySeeds auth.owner auth.label)) = none
  | raise address before after =>
      before.owner = signer ∧ before.Later after ∧
        c.ledger address = some (.vrfAuthority before)
  | record authority auth acc =>
      auth.owner = signer ∧ auth.MayCommit ∧ c.ledger authority = some (.vrfAuthority auth) ∧
        acc.commitKey.map Prod.fst = some authority ∧ c.ledger (L.address acc.seeds) = none
  | emit authority auth ev =>
      auth.owner = signer ∧ auth.MayCommit ∧ c.ledger authority = some (.vrfAuthority auth) ∧
        ev.owner = auth.owner ∧ ev.label = auth.label ∧
        authority = L.address (authoritySeeds ev.owner ev.label)

/-- The effects of the actions. -/
def Action.apply (L : Light) (c : Chain) : Action → Chain
  | create auth =>
      { c with
        ledger := Function.update c.ledger (L.address (authoritySeeds auth.owner auth.label))
          (some (.vrfAuthority auth)) }
  | raise address _ after =>
      { c with ledger := Function.update c.ledger address (some (.vrfAuthority after)) }
  | record _ _ acc =>
      { c with ledger := Function.update c.ledger (L.address acc.seeds) (some acc) }
  | emit _ _ ev => { c with events := c.events ++ [ev] }

/-! ### The action of an instruction -/

/-- The authority that an `init_authority` creates. -/
def Context.newAuthority (ctx : Context) (pk : ByteVec 32) (suite : UInt8) (label : ByteVec 32) :
    VrfAuthority :=
  { owner := ctx.owner.key
    pk := pk
    suite := suite
    frozen := false
    revoked := false
    label := label
    createdSlot := ctx.slot }

/-- The action that an instruction asks for. -/
def Invocation.action (i : Invocation) : Action :=
  match i.instruction with
  | .initAuthority _ _ _ _ pk suite label => .create (i.ctx.newAuthority pk suite label)
  | .freezeAuthority _ current accountMeta =>
      .raise accountMeta.address current { current with frozen := true }
  | .revokeAuthority _ current accountMeta =>
      .raise accountMeta.address current { current with revoked := true }
  | .commitProofEvent _ accountMeta current label memoHash proofHash alphaHash =>
      .emit accountMeta.address current
        ⟨i.ctx.owner.key, label, memoHash, proofHash, alphaHash, i.ctx.slot⟩
  | .commitProof _ accountMeta current _ _ memoHash proofHash alphaHash =>
      .record accountMeta.address current
        (.vrfProofCommit ⟨accountMeta.address, memoHash, proofHash, alphaHash, i.ctx.slot⟩)
  | .commitProofWithBeta _ accountMeta current _ _ memoHash proofHash alphaHash betaLo betaHi =>
      .record accountMeta.address current
        (.vrfProofCommitWithBeta
          ⟨accountMeta.address, memoHash, proofHash, alphaHash, betaLo, betaHi, i.ctx.slot⟩)

/-! ### Refinement -/

lemma Context.validate_eq_ok {ctx : Context} {u : Unit} (h : ctx.validate = .ok u) :
    ctx.owner.isSigner = true := by
  rw [validate] at h
  split at h
  next => cases h
  next hs => simpa using hs

lemma Context.validateInit_eq_ok {ctx : Context} {systemProgram : Pubkey} {u : Unit}
    (h : ctx.validateInit systemProgram = .ok u) : ctx.owner.isSigner = true := by
  rw [validateInit] at h
  split at h
  next => cases h
  next hs => simpa using hs

namespace Light

variable (L : Light)

lemma checkedAddressTree_eq_ok_iff (ctx : Context) (info : PackedAddressTreeInfo)
    (tree : Pubkey) :
    L.checkedAddressTree ctx info = .ok tree ↔
      tree = L.addressTreeV2 ∧
        L.treePubkey ctx.remainingAccounts info.addressMerkleTreePubkeyIndex =
          some L.addressTreeV2 := by
  rw [checkedAddressTree, bind_eq_ok_iff]
  constructor
  · rintro ⟨t, ht, h⟩
    rw [L.getTreePubkey_eq_ok_iff] at ht
    split at h
    next => cases h
    next htree =>
      cases h
      rw [not_not] at htree
      exact ⟨htree, htree ▸ ht⟩
  · rintro ⟨rfl, ht⟩
    exact ⟨L.addressTreeV2, (L.getTreePubkey_eq_ok_iff _ _ _).mpr ht, if_neg (by simp)⟩

/-- A call that creates one account at a derived address finds the address
unused. -/
lemma unused_of_admissible {ledger : Ledger} {cpi : LightSystemProgramCpi}
    {seeds : List Bytes} {info : PackedAddressTreeInfo} {i : Option ℕ}
    (htree : L.treePubkey cpi.remainingAccounts info.addressMerkleTreePubkeyIndex =
      some L.addressTreeV2)
    (hnew : cpi.newAddresses =
      [⟨(L.deriveAddress seeds L.addressTreeV2 programId).2, info, i⟩])
    (h : L.admissible ledger cpi = true) : ledger (L.address seeds) = none := by
  rw [admissible, Bool.and_eq_true, Bool.and_eq_true] at h
  have hok := h.1.2
  rw [hnew, List.all_cons, Bool.and_eq_true] at hok
  have hok := hok.1
  rw [newAddressOk, L.newAddress_derived htree seeds i] at hok
  exact beq_iff_eq.mp (Bool.and_eq_true_iff.mp hok).1

/-- A call that reads or rewrites an account finds it as the current leaf. -/
lemma isCurrent_of_admissible {ledger : Ledger} {cpi : LightSystemProgramCpi} {a : LightAccount}
    (h : L.admissible ledger cpi = true) (ha : a ∈ cpi.lightAccounts) :
    a.isCurrent ledger = true := by
  rw [admissible, Bool.and_eq_true, Bool.and_eq_true] at h
  exact List.all_eq_true.mp h.1.1 a ha

/-- A call reads or rewrites the leaf it names. -/
lemma leaf_of_admissible {ledger : Ledger} {cpi : LightSystemProgramCpi}
    (h : L.admissible ledger cpi = true) :
    (∀ m input output, .newMut m input output ∈ cpi.lightAccounts →
        ledger m.address = some input) ∧
      ∀ m input, .newReadOnly m input ∈ cpi.lightAccounts → ledger m.address = some input :=
  ⟨fun _ _ _ ha => beq_iff_eq.mp (L.isCurrent_of_admissible h ha),
    fun _ _ ha => beq_iff_eq.mp (L.isCurrent_of_admissible h ha)⟩

/-- What the handler does, when it succeeds. -/
def Does (c : Chain) (signer : Pubkey) (a : Action) (c' : Chain) : Prop :=
  a.Enabled L c signer ∧ c' = a.apply L c

lemma initAuthorityHandler_does {c c' : Chain} {ctx : Context} {proof : ValidityProof}
    {info : PackedAddressTreeInfo} {out : UInt8} {pk : ByteVec 32} {suite : UInt8}
    {label : ByteVec 32}
    (h : L.initAuthorityHandler c ctx proof info out pk suite label = .ok c') :
    L.Does c ctx.owner.key (.create (ctx.newAuthority pk suite label)) c' := by
  simp only [initAuthorityHandler, bind_eq_ok_iff, require_eq_ok_iff,
    checkedAddressTree_eq_ok_iff, invoke_eq_ok_iff] at h
  obtain ⟨-, hsuite, tree, ⟨rfl, htree⟩, ledger, ⟨hadm, -, rfl⟩, h⟩ := h
  cases h
  exact ⟨⟨rfl, hsuite, L.unused_of_admissible htree rfl hadm⟩, rfl⟩

lemma rewriteAuthority_does {c c' : Chain} {ctx : Context} {proof : ValidityProof}
    {before after : VrfAuthority} {accountMeta : CompressedAccountMeta} {signer : Pubkey}
    (howner : before.owner = signer) (hlater : before.Later after)
    (h : L.rewriteAuthority c ctx proof before after accountMeta = .ok c') :
    L.Does c signer (.raise accountMeta.address before after) c' := by
  simp only [rewriteAuthority, bind_eq_ok_iff, invoke_eq_ok_iff] at h
  obtain ⟨ledger, ⟨hadm, -, rfl⟩, h⟩ := h
  cases h
  exact ⟨⟨howner, hlater, (L.leaf_of_admissible hadm).1 _ _ _ (List.mem_singleton.mpr rfl)⟩, rfl⟩

lemma freezeAuthorityHandler_does {c c' : Chain} {ctx : Context} {proof : ValidityProof}
    {current : VrfAuthority} {accountMeta : CompressedAccountMeta}
    (h : L.freezeAuthorityHandler c ctx proof current accountMeta = .ok c') :
    L.Does c ctx.owner.key
      (.raise accountMeta.address current { current with frozen := true }) c' := by
  simp only [freezeAuthorityHandler, bind_eq_ok_iff, require_eq_ok_iff] at h
  obtain ⟨-, howner, -, -, h⟩ := h
  exact L.rewriteAuthority_does howner (.freeze current) h

lemma revokeAuthorityHandler_does {c c' : Chain} {ctx : Context} {proof : ValidityProof}
    {current : VrfAuthority} {accountMeta : CompressedAccountMeta}
    (h : L.revokeAuthorityHandler c ctx proof current accountMeta = .ok c') :
    L.Does c ctx.owner.key
      (.raise accountMeta.address current { current with revoked := true }) c' := by
  simp only [revokeAuthorityHandler, bind_eq_ok_iff, require_eq_ok_iff] at h
  obtain ⟨-, howner, h⟩ := h
  exact L.rewriteAuthority_does howner (.revoke current) h

lemma packedTreePubkeys_eq_ok_iff (ctx : Context) (trees : List Pubkey) :
    L.packedTreePubkeys ctx = .ok trees ↔ L.treePubkeys ctx.remainingAccounts = some trees := by
  rw [packedTreePubkeys]
  cases L.treePubkeys ctx.remainingAccounts with
  | none => simp
  | some t => simp

/-- The two registry handlers write a record whose own fields name the seeds of its
address. -/
lemma commitRecord_does {c c' : Chain} {ctx : Context} {proof : ValidityProof}
    {accountMeta : CompressedAccountMetaReadOnly} {current : VrfAuthority}
    {info : PackedAddressTreeInfo} {out : UInt8} {memoHash : Hash} {record : Pubkey → Account}
    (hrecord : ∀ A, (record A).commitKey = some (A, memoHash))
    (h : L.commitRecord c ctx proof accountMeta current info out VrfProofCommit.seedPrefix memoHash
      record = .ok c') :
    L.Does c ctx.owner.key (.record accountMeta.address current (record accountMeta.address)) c' := by
  simp only [commitRecord, bind_eq_ok_iff, require_eq_ok_iff, checkedAddressTree_eq_ok_iff,
    packedTreePubkeys_eq_ok_iff, newReadOnly_eq_ok_iff, invoke_eq_ok_iff] at h
  obtain ⟨-, howner, -, hfrozen, -, hrevoked, tree, ⟨rfl, htree⟩, trees, -, a, ⟨-, rfl⟩, ledger,
    ⟨hadm, -, rfl⟩, h⟩ := h
  cases h
  have hseeds := Account.seeds_of_commitKey (hrecord accountMeta.address)
  have hunused := L.unused_of_admissible htree rfl hadm
  refine ⟨⟨howner, ⟨hfrozen, hrevoked⟩, ?_, ?_, ?_⟩, ?_⟩
  · exact (L.leaf_of_admissible hadm).2 _ _ (List.mem_cons_self ..)
  · rw [hrecord]
    rfl
  · rw [hseeds]
    exact hunused
  · rw [Action.apply, hseeds]
    rfl

lemma commitProofEventHandler_does {c c' : Chain} {ctx : Context} {proof : ValidityProof}
    {accountMeta : CompressedAccountMetaReadOnly} {current : VrfAuthority} {label : ByteVec 32}
    {memoHash proofHash alphaHash : Hash}
    (h : L.commitProofEventHandler c ctx proof accountMeta current label memoHash proofHash
      alphaHash = .ok c') :
    L.Does c ctx.owner.key
      (.emit accountMeta.address current
        ⟨ctx.owner.key, label, memoHash, proofHash, alphaHash, ctx.slot⟩) c' := by
  simp only [commitProofEventHandler, bind_eq_ok_iff, require_eq_ok_iff,
    packedTreePubkeys_eq_ok_iff, newReadOnly_eq_ok_iff, invoke_eq_ok_iff] at h
  obtain ⟨-, howner, -, hlabel, -, hfrozen, -, hrevoked, -, haddress, trees, -, a, ⟨-, rfl⟩, ledger,
    ⟨hadm, -, rfl⟩, h⟩ := h
  cases h
  have hleaf := (L.leaf_of_admissible hadm).2 _ _ (List.mem_singleton.mpr rfl)
  exact ⟨⟨howner, ⟨hfrozen, hrevoked⟩, hleaf, howner.symm, hlabel.symm, haddress⟩, rfl⟩

/-- **Refinement**: an instruction that succeeds was signed, and did the enabled
action it asks for. -/
theorem exec_refines {c c' : Chain} {i : Invocation} (h : L.exec c i = .ok c') :
    i.ctx.owner.isSigner = true ∧ L.Does c i.ctx.owner.key i.action c' := by
  obtain ⟨ctx, instruction⟩ := i
  cases instruction with
  | initAuthority systemProgram proof info out pk suite label =>
      simp only [exec, bind_eq_ok_iff] at h
      obtain ⟨_, hsigner, h⟩ := h
      exact ⟨Context.validateInit_eq_ok hsigner, L.initAuthorityHandler_does h⟩
  | freezeAuthority proof current accountMeta =>
      simp only [exec, bind_eq_ok_iff] at h
      obtain ⟨_, hsigner, h⟩ := h
      exact ⟨Context.validate_eq_ok hsigner, L.freezeAuthorityHandler_does h⟩
  | revokeAuthority proof current accountMeta =>
      simp only [exec, bind_eq_ok_iff] at h
      obtain ⟨_, hsigner, h⟩ := h
      exact ⟨Context.validate_eq_ok hsigner, L.revokeAuthorityHandler_does h⟩
  | commitProofEvent proof accountMeta current label memoHash proofHash alphaHash =>
      simp only [exec, bind_eq_ok_iff] at h
      obtain ⟨_, hsigner, h⟩ := h
      exact ⟨Context.validate_eq_ok hsigner, L.commitProofEventHandler_does h⟩
  | commitProof proof accountMeta current info out memoHash proofHash alphaHash =>
      simp only [exec, bind_eq_ok_iff] at h
      obtain ⟨_, hsigner, h⟩ := h
      exact ⟨Context.validate_eq_ok hsigner, L.commitRecord_does (fun _ => rfl) h⟩
  | commitProofWithBeta proof accountMeta current info out memoHash proofHash alphaHash betaLo
      betaHi =>
      simp only [exec, bind_eq_ok_iff] at h
      obtain ⟨_, hsigner, h⟩ := h
      exact ⟨Context.validate_eq_ok hsigner, L.commitRecord_does (fun _ => rfl) h⟩

end Light

end CcVrf
