import Mathlib.Logic.Function.Basic
import CcVrf.Ecvrf.Suite
import CcVrf.Program.State

/-!
The parts of Solana, Anchor and the Light SDK that the handlers call.

* `Light`: the third-party functions, none of them fixed: address derivation, the
  layout of the remaining accounts, and what the Light system program checks of a
  proof beyond the state of the tree.
* `Light.invoke`: a call into the Light system program. It succeeds only if every
  input and read-only account is the current leaf at its address, every new
  address is derived from its seed and was never used, and every created account
  has a new address.
* `Light.address`: the address of seeds in the address tree that the program
  accepts.
* `Light.sample`: an instance, for concrete runs.
-/

namespace CcVrf

/-! ### Arguments of the Light SDK -/

/-- `CompressedProof`. -/
structure CompressedProof where
  a : ByteVec 32
  b : ByteVec 64
  c : ByteVec 32
deriving DecidableEq

/-- `ValidityProof`. -/
abbrev ValidityProof := Option CompressedProof

/-- `PackedStateTreeInfo`: where a leaf is. -/
structure PackedStateTreeInfo where
  rootIndex : UInt16
  proveByIndex : Bool
  merkleTreePubkeyIndex : UInt8
  queuePubkeyIndex : UInt8
  leafIndex : UInt32
deriving DecidableEq

/-- `CompressedAccountMeta`, of an account to be rewritten. -/
structure CompressedAccountMeta where
  treeInfo : PackedStateTreeInfo
  address : Pubkey
  outputStateTreeIndex : UInt8
deriving DecidableEq

/-- `CompressedAccountMetaReadOnly`. -/
structure CompressedAccountMetaReadOnly where
  treeInfo : PackedStateTreeInfo
  address : Pubkey
deriving DecidableEq

/-- `PackedAddressTreeInfo`. -/
structure PackedAddressTreeInfo where
  addressMerkleTreePubkeyIndex : UInt8
  addressQueuePubkeyIndex : UInt8
  rootIndex : UInt16
deriving DecidableEq

/-- `NewAddressParamsAssignedPacked`: the seed of a new address and the output
account it is assigned to. -/
structure NewAddressParams where
  seed : ByteVec 32
  addressTreeInfo : PackedAddressTreeInfo
  assignedAccountIndex : Option ℕ
deriving DecidableEq

/-- `LightAccount`: an account to create, to rewrite or to read. -/
inductive LightAccount where
  | newInit (address : Pubkey) (outputStateTreeIndex : UInt8) (output : Account)
  | newMut (accountMeta : CompressedAccountMeta) (input output : Account)
  | newReadOnly (accountMeta : CompressedAccountMetaReadOnly) (input : Account)
deriving DecidableEq

/-- `LightSystemProgramCpi` with the accounts of the call. -/
structure LightSystemProgramCpi where
  proof : ValidityProof
  lightAccounts : List LightAccount
  newAddresses : List NewAddressParams
  feePayer : Pubkey
  remainingAccounts : List Pubkey
deriving DecidableEq

/-- The compressed accounts of the program, by address. -/
abbrev Ledger := Pubkey → Option Account

/-- The errors an instruction fails with: those of the program, of Anchor's account
checks, of the Light SDK and of the Light system program. -/
inductive ProgramError where
  | vrf (e : VrfError)
  | invalidAccountData
  | accountNotSigner
  | constraintMut
  | invalidProgramId
  | lightSdk
  | lightSystemProgram
deriving DecidableEq

/-- The functions of the Light SDK and the Light system program. -/
structure Light where
  /-- The seed of an address, a hash of the seeds. -/
  deriveAddressSeed : List Bytes → ByteVec 32
  /-- The address of a seed in an address tree, for a program. -/
  deriveAddressFromSeed : ByteVec 32 → Pubkey → Pubkey → Pubkey
  /-- `ADDRESS_TREE_V2`. -/
  addressTreeV2 : Pubkey
  /-- `CpiAccounts::tree_pubkeys`: the tree accounts among the remaining
  accounts. -/
  treePubkeys : List Pubkey → Option (List Pubkey)
  /-- Whether `LightAccount::new_read_only` finds the tree accounts it needs. -/
  readOnlyTreesFound : CompressedAccountMetaReadOnly → List Pubkey → Bool
  /-- Whether the Light system program accepts the proof, the roots and the
  accounts of a call. -/
  accepts : Ledger → LightSystemProgramCpi → Bool

/-- `crate::ID`, the key `ccvrfu3fSpbnPLiUqdWAt85Zn9nq96ekwGTbHqGtdgQ`. -/
def programId : Pubkey :=
  ⟨[9, 31, 243, 239, 43, 92, 105, 229, 210, 61, 49, 119, 112, 104, 90, 149, 41, 127, 22, 243, 48,
    150, 140, 200, 89, 164, 67, 12, 166, 3, 50, 229], rfl⟩

namespace LightAccount

/-- An input or read-only account is the current leaf at its address, with its
discriminator and data. -/
def isCurrent (ledger : Ledger) : LightAccount → Bool
  | newInit _ _ _ => true
  | newMut accountMeta input _ => ledger accountMeta.address == some input
  | newReadOnly accountMeta input => ledger accountMeta.address == some input

/-- The account that the call writes, with its address. -/
def output? : LightAccount → Option (Pubkey × Account)
  | newInit address _ output => some (address, output)
  | newMut accountMeta _ output => some (accountMeta.address, output)
  | newReadOnly _ _ => none

/-- The address of an account that the call creates. -/
def created? : LightAccount → Option Pubkey
  | newInit address _ _ => some address
  | newMut _ _ _ => none
  | newReadOnly _ _ => none

end LightAccount

/-- The ledger after the outputs of a call. -/
def Ledger.write (ledger : Ledger) (outputs : List (Pubkey × Account)) : Ledger :=
  outputs.foldl (fun ledger out => Function.update ledger out.1 (some out.2)) ledger

namespace LightSystemProgramCpi

/-- The accounts that a call writes, in order. -/
def outputs (cpi : LightSystemProgramCpi) : List (Pubkey × Account) :=
  cpi.lightAccounts.filterMap LightAccount.output?

end LightSystemProgramCpi

namespace Light

variable (L : Light)

/-- `derive_address`: the address and its seed. -/
def deriveAddress (seeds : List Bytes) (addressTree programId : Pubkey) : Pubkey × ByteVec 32 :=
  (L.deriveAddressFromSeed (L.deriveAddressSeed seeds) addressTree programId,
    L.deriveAddressSeed seeds)

/-- The address of seeds in the accepted address tree. -/
def address (seeds : List Bytes) : Pubkey :=
  (L.deriveAddress seeds L.addressTreeV2 programId).1

/-- The tree account at an index of the packed accounts. -/
def treePubkey (remainingAccounts : List Pubkey) (index : UInt8) : Option Pubkey := do
  let trees ← L.treePubkeys remainingAccounts
  trees[index.toNat]?

/-- The address that a new-address parameter stands for. -/
def newAddress (remainingAccounts : List Pubkey) (p : NewAddressParams) : Option Pubkey := do
  let tree ← L.treePubkey remainingAccounts p.addressTreeInfo.addressMerkleTreePubkeyIndex
  return L.deriveAddressFromSeed p.seed tree programId

/-- A new address was never used, and the output it is assigned to has it. -/
def newAddressOk (ledger : Ledger) (cpi : LightSystemProgramCpi) (p : NewAddressParams) : Bool :=
  match L.newAddress cpi.remainingAccounts p with
  | none => false
  | some address =>
      ledger address == none &&
        p.assignedAccountIndex.all fun i => (cpi.outputs[i]?).map Prod.fst == some address

/-- What the Light system program checks of a call against the state of the
trees. -/
def admissible (ledger : Ledger) (cpi : LightSystemProgramCpi) : Bool :=
  cpi.lightAccounts.all (LightAccount.isCurrent ledger) &&
    cpi.newAddresses.all (L.newAddressOk ledger cpi) &&
    (cpi.lightAccounts.filterMap LightAccount.created?).all fun address =>
      cpi.newAddresses.any fun p => L.newAddress cpi.remainingAccounts p == some address

/-- `invoke`: the ledger after the call. -/
def invoke (ledger : Ledger) (cpi : LightSystemProgramCpi) : Except ProgramError Ledger :=
  if L.admissible ledger cpi && L.accepts ledger cpi then .ok (ledger.write cpi.outputs)
  else .error .lightSystemProgram

/-- `PackedAddressTreeInfo::get_tree_pubkey`. -/
def getTreePubkey (remainingAccounts : List Pubkey) (info : PackedAddressTreeInfo) :
    Except ProgramError Pubkey :=
  (L.treePubkey remainingAccounts info.addressMerkleTreePubkeyIndex).elim
    (.error .invalidAccountData) .ok

/-- `LightAccount::new_read_only`. -/
def newReadOnly (accountMeta : CompressedAccountMetaReadOnly) (account : Account)
    (treePubkeys : List Pubkey) : Except ProgramError LightAccount :=
  if L.readOnlyTreesFound accountMeta treePubkeys then .ok (.newReadOnly accountMeta account)
  else .error .lightSdk

/-! ### What a successful call says -/

/-- **A successful call** was admissible, and wrote its outputs. -/
lemma invoke_eq_ok_iff (ledger ledger' : Ledger) (cpi : LightSystemProgramCpi) :
    L.invoke ledger cpi = .ok ledger' ↔
      L.admissible ledger cpi = true ∧ L.accepts ledger cpi = true ∧
        ledger' = ledger.write cpi.outputs := by
  rw [invoke]
  split
  next h =>
    rw [Bool.and_eq_true] at h
    simp [h, eq_comm]
  next h =>
    rw [Bool.and_eq_true] at h
    constructor
    · intro h'
      cases h'
    · rintro ⟨h1, h2, -⟩
      exact absurd ⟨h1, h2⟩ h

lemma getTreePubkey_eq_ok_iff (accounts : List Pubkey) (info : PackedAddressTreeInfo)
    (tree : Pubkey) :
    L.getTreePubkey accounts info = .ok tree ↔
      L.treePubkey accounts info.addressMerkleTreePubkeyIndex = some tree := by
  rw [getTreePubkey]
  cases L.treePubkey accounts info.addressMerkleTreePubkeyIndex with
  | none => simp
  | some t => simp

lemma newReadOnly_eq_ok_iff (accountMeta : CompressedAccountMetaReadOnly) (account : Account)
    (trees : List Pubkey) (a : LightAccount) :
    L.newReadOnly accountMeta account trees = .ok a ↔
      L.readOnlyTreesFound accountMeta trees = true ∧ a = .newReadOnly accountMeta account := by
  rw [newReadOnly]
  split
  next h => simp [h, eq_comm]
  next h => simp [h]

/-- The seed of a derived address gives the address back in its tree. -/
lemma newAddress_derived {accounts : List Pubkey} {info : PackedAddressTreeInfo} {tree : Pubkey}
    (h : L.treePubkey accounts info.addressMerkleTreePubkeyIndex = some tree)
    (seeds : List Bytes) (i : Option ℕ) :
    L.newAddress accounts ⟨(L.deriveAddress seeds tree programId).2, info, i⟩ =
      some (L.deriveAddress seeds tree programId).1 := by
  simp [newAddress, h, deriveAddress]

end Light

/-! ### An instance -/

/-- The number of accounts of the Light system program that precede the tree
accounts. -/
def systemAccountCount : ℕ := 6

/-- A hash for the addresses of concrete runs: a polynomial in the input bytes,
modulo a prime. -/
def addressHash (b : Bytes) : ByteVec 32 :=
  ⟨(bigIntToBytesLE.loop 32 (b.foldl (fun a c => (257 * a + c.toNat + 1) % curveOrder) 0)).1,
    (bigIntToBytesLE.loop_spec 32 _).1⟩

/-- An instance for concrete runs: a small hash for addresses, and a proof check
that refuses nothing else than what `invoke` refuses. -/
def Light.sample : Light where
  deriveAddressSeed seeds := addressHash seeds.flatten
  deriveAddressFromSeed seed tree programId := addressHash (seed.1 ++ tree.1 ++ programId.1)
  addressTreeV2 := ⟨List.replicate 32 7, rfl⟩
  treePubkeys accounts :=
    if systemAccountCount ≤ accounts.length then some (accounts.drop systemAccountCount) else none
  readOnlyTreesFound accountMeta trees :=
    accountMeta.treeInfo.queuePubkeyIndex.toNat < trees.length
  accepts _ _ := true

end CcVrf
