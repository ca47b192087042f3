import CcVrf.Client.Records
import CcVrf.Program.Instructions

/-!
The third-party parts of the client: the JavaScript Light library and the RPC node.

* `LightJs`: address derivation and the packing of account lists. `LightJs.Agrees`
  says that it matches the library of the program.
* `Rpc`: what a node answers from the current state of the trees. Which accounts
  exist and what their data is comes from the ledger; proofs, hashes and positions
  of leaves are the node's.
* `HonestProofs`: the proof of a node is accepted when it is presented with the
  leaf and the new address that it was asked for.
* `LightJs.sample`, `Rpc.sample`: instances that match `Light.sample`.
-/

namespace CcVrf

/-- `@lightprotocol/stateless.js`. -/
structure LightJs where
  /-- `deriveAddressSeedV2`. -/
  deriveAddressSeedV2 : List Bytes → ByteVec 32
  /-- `deriveAddressV2`. -/
  deriveAddressV2 : ByteVec 32 → Pubkey → Pubkey → Pubkey
  /-- `batchAddressTree`. -/
  batchAddressTree : Pubkey
  /-- The account list of a `PackedAccounts` with the system accounts of a program,
  after `insertOrGet` of the given keys. -/
  remainingAccounts : Pubkey → List Pubkey → List Pubkey
  /-- The index that `insertOrGet` of a key returned. -/
  packedIndex : List Pubkey → Pubkey → UInt8

/-- `CompressedAccountWithMerkleContext`: a leaf and where it is. -/
structure CompressedAccount where
  hash : ℕ
  tree : Pubkey
  queue : Pubkey
  leafIndex : UInt32
  address : Pubkey
  data : Bytes
deriving DecidableEq

/-- The part of `CompressedAccount` that the node chooses. -/
structure LeafPosition where
  hash : ℕ
  tree : Pubkey
  queue : Pubkey
  leafIndex : UInt32
deriving DecidableEq

/-- A leaf that a validity proof is asked for. -/
structure HashWithTree where
  hash : ℕ
  tree : Pubkey
  queue : Pubkey
deriving DecidableEq

/-- A new address that a validity proof is asked for. -/
structure AddressWithTree where
  tree : Pubkey
  queue : Pubkey
  address : Pubkey
deriving DecidableEq

/-- `ValidityProofWithContext`. -/
structure ValidityProofWithContext where
  compressedProof : ValidityProof
  rootIndices : List UInt16
  proveByIndices : List Bool

/-- `TreeInfo`. -/
structure TreeInfo where
  tree : Pubkey
  queue : Pubkey
deriving DecidableEq

/-- A node, at one moment. -/
structure Rpc where
  /-- The position of a leaf. -/
  leafPosition : Ledger → Pubkey → LeafPosition
  /-- `getValidityProofV0`. -/
  getValidityProofV0 : Ledger → List HashWithTree → List AddressWithTree →
    Throws ValidityProofWithContext
  /-- `getStateTreeInfos`. -/
  getStateTreeInfos : Ledger → Throws (List TreeInfo)
  /-- `selectStateTreeInfo`, which picks one of the trees. -/
  selectStateTreeInfo : List TreeInfo → Throws TreeInfo

/-- `getCompressedAccount`: the current leaf at an address. -/
def Rpc.getCompressedAccount (R : Rpc) (ledger : Ledger) (a : Pubkey) : Option CompressedAccount :=
  (ledger a).map fun acc =>
    { hash := (R.leafPosition ledger a).hash
      tree := (R.leafPosition ledger a).tree
      queue := (R.leafPosition ledger a).queue
      leafIndex := (R.leafPosition ledger a).leafIndex
      address := a
      data := acc.data }

/-- The library of the client matches that of the program: equal seeds have equal
addresses, the address trees are the same, and a packed index finds its key. -/
structure LightJs.Agrees (J : LightJs) (L : Light) : Prop where
  seed : ∀ seeds, J.deriveAddressSeedV2 seeds = L.deriveAddressSeed seeds
  address : ∀ seed tree id, J.deriveAddressV2 seed tree id = L.deriveAddressFromSeed seed tree id
  tree : J.batchAddressTree = L.addressTreeV2
  packed : ∀ keys : List Pubkey, keys.length < 256 → ∀ key ∈ keys,
    L.treePubkey (J.remainingAccounts programId keys) (J.packedIndex keys key) = some key

/-- The parts of a call that reads one leaf and creates one account. -/
structure ReadAndCreate where
  accountMeta : CompressedAccountMetaReadOnly
  input : Account
  address : Pubkey
  outputStateTreeIndex : UInt8
  output : Account
  newAddressParams : NewAddressParams
  feePayer : Pubkey
  remainingAccounts : List Pubkey

/-- The call, with a proof. -/
def ReadAndCreate.cpi (x : ReadAndCreate) (proof : ValidityProof) : LightSystemProgramCpi where
  proof := proof
  lightAccounts :=
    [.newReadOnly x.accountMeta x.input, .newInit x.address x.outputStateTreeIndex x.output]
  newAddresses := [x.newAddressParams]
  feePayer := x.feePayer
  remainingAccounts := x.remainingAccounts

/-- The call presents the proof `pr` that the node gave in this state: it reads the
leaf and creates the address that the proof was asked for, and its metas name the
roots of the proof, the position of the leaf, the trees and an output queue. -/
structure Rpc.Presents (R : Rpc) (L : Light) (ledger : Ledger) (pr : ValidityProofWithContext)
    (addressTree : Pubkey) (x : ReadAndCreate) : Prop where
  leaf : ledger x.accountMeta.address = some x.input
  unused : ledger x.address = none
  asked :
    R.getValidityProofV0 ledger
      [⟨(R.leafPosition ledger x.accountMeta.address).hash,
        (R.leafPosition ledger x.accountMeta.address).tree,
        (R.leafPosition ledger x.accountMeta.address).queue⟩]
      [⟨addressTree, addressTree, x.address⟩] = .ok pr
  root : pr.rootIndices.head? = some x.accountMeta.treeInfo.rootIndex
  proveByIndex : pr.proveByIndices.head?.getD false = x.accountMeta.treeInfo.proveByIndex
  leafIndex :
    x.accountMeta.treeInfo.leafIndex = (R.leafPosition ledger x.accountMeta.address).leafIndex
  merkleTree : L.treePubkey x.remainingAccounts x.accountMeta.treeInfo.merkleTreePubkeyIndex =
    some (R.leafPosition ledger x.accountMeta.address).tree
  queue : L.treePubkey x.remainingAccounts x.accountMeta.treeInfo.queuePubkeyIndex =
    some (R.leafPosition ledger x.accountMeta.address).queue
  newRoot : pr.rootIndices.getLast? = some x.newAddressParams.addressTreeInfo.rootIndex
  addressTree :
    L.treePubkey x.remainingAccounts
      x.newAddressParams.addressTreeInfo.addressMerkleTreePubkeyIndex = some addressTree
  newAddress : L.newAddress x.remainingAccounts x.newAddressParams = some x.address
  outputQueue : ∃ infos info, R.getStateTreeInfos ledger = .ok infos ∧
    R.selectStateTreeInfo infos = .ok info ∧
    L.treePubkey x.remainingAccounts x.outputStateTreeIndex = some info.queue

/-- The proofs of the node are honest: a call that presents one is accepted. -/
def HonestProofs (R : Rpc) (L : Light) : Prop :=
  ∀ ledger pr addressTree x, R.Presents L ledger pr addressTree x →
    L.accepts ledger (x.cpi pr.compressedProof) = true

/-- The read-only constructor finds the trees that the packed accounts hold. -/
def TreesFound (L : Light) : Prop :=
  ∀ (accounts trees : List Pubkey) (accountMeta : CompressedAccountMetaReadOnly),
    L.treePubkeys accounts = some trees →
    (L.treePubkey accounts accountMeta.treeInfo.merkleTreePubkeyIndex).isSome = true →
    (L.treePubkey accounts accountMeta.treeInfo.queuePubkeyIndex).isSome = true →
    L.readOnlyTreesFound accountMeta trees = true

/-! ### An instance -/

/-- The library that matches `Light.sample`. -/
def LightJs.sample : LightJs where
  deriveAddressSeedV2 := Light.sample.deriveAddressSeed
  deriveAddressV2 := Light.sample.deriveAddressFromSeed
  batchAddressTree := Light.sample.addressTreeV2
  remainingAccounts programId keys :=
    List.replicate systemAccountCount programId ++ keys.eraseDups
  packedIndex keys key := UInt8.ofNat (keys.eraseDups.idxOf key)

/-- A node for concrete runs, with one state tree. -/
def Rpc.sample : Rpc where
  leafPosition _ _ := ⟨0, ⟨List.replicate 32 9, rfl⟩, ⟨List.replicate 32 8, rfl⟩, 0⟩
  getValidityProofV0 _ inputs addresses :=
    .ok ⟨none, (inputs.map fun _ => 0) ++ addresses.map fun _ => 0, inputs.map fun _ => false⟩
  getStateTreeInfos _ := .ok [⟨⟨List.replicate 32 9, rfl⟩, ⟨List.replicate 32 8, rfl⟩⟩]
  selectStateTreeInfo infos := infos.head?.elim (.error "no state tree") .ok

/-- Removing duplicates does not make a list longer. -/
lemma length_eraseDups_le : ∀ (n : ℕ) (keys : List Pubkey), keys.length ≤ n →
    keys.eraseDups.length ≤ keys.length
  | _, [], _ => le_rfl
  | n + 1, k :: keys, h => by
      have hfilter := List.length_filter_le (fun k' => !k' == k) keys
      rw [List.length_cons] at h
      have ih := length_eraseDups_le n (keys.filter fun k' => !k' == k) (by omega)
      rw [List.eraseDups_cons, List.length_cons, List.length_cons]
      omega

lemma LightJs.sample_agrees : LightJs.sample.Agrees Light.sample where
  seed _ := rfl
  address _ _ _ := rfl
  tree := rfl
  packed keys hlen key hkey := by
    have hmem : key ∈ keys.eraseDups := List.mem_eraseDups.mpr hkey
    have hidx := List.idxOf_lt_length_of_mem hmem
    have hle := length_eraseDups_le keys.length keys le_rfl
    have hsmall : (UInt8.ofNat (keys.eraseDups.idxOf key)).toNat = keys.eraseDups.idxOf key :=
      Nat.mod_eq_of_lt (by omega)
    simp [Light.treePubkey, Light.sample, LightJs.sample, hsmall, List.getElem?_idxOf hmem,
      List.drop_left' (List.length_replicate ..)]

end CcVrf
