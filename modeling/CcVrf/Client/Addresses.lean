import CcVrf.Client.LightJs
import CcVrf.Ecvrf.Noble
import CcVrf.Ecvrf.TextEncoder

/-!
The addresses and hashes of the client (`addresses.ts`, `constants.ts`).

* `deriveAuthorityAddress`, `deriveProofCommitAddress`,
  `deriveProofCommitWithBetaAddress`: with their length checks. The last two are
  one function of the same seeds.
* `encodeLabel`: a short label padded to 32 bytes.
* `memoHash`, `alphaHash`, `proofHash`.
-/

namespace CcVrf

/-- `CC_VRF_PROGRAM_ID`. -/
def ccVrfProgramId : Pubkey := programId

/-- `AUTHORITY_SEED`. -/
def authoritySeed : Bytes := "vrf_authority".toUTF8.toList

/-- `PROOF_COMMIT_SEED`. -/
def proofCommitSeed : Bytes := "vrf_proof".toUTF8.toList

/-- `PROOF_COMMIT_WITH_BETA_SEED`. -/
def proofCommitWithBetaSeed : Bytes := proofCommitSeed

/-- `SUITE_EDWARDS25519_SHA512_TAI`, a number in the client. -/
def suiteSupportedByClient : ℤ := 0x03

namespace LightJs

variable (J : LightJs)

/-- The address of seeds in the batch address tree. -/
def addressOf (seeds : List Bytes) (programId : Pubkey) : Pubkey :=
  J.deriveAddressV2 (J.deriveAddressSeedV2 seeds) J.batchAddressTree programId

/-- `deriveAuthorityAddress`. -/
def deriveAuthorityAddress (owner : Pubkey) (label : Bytes) (programId : Pubkey) :
    Throws Pubkey :=
  if label.length ≠ 32 then .error "label must be exactly 32 bytes"
  else .ok (J.addressOf [authoritySeed, owner.1, label] programId)

/-- `deriveProofCommitAddress`. -/
def deriveProofCommitAddress (authority : Pubkey) (memoHash : Bytes) (programId : Pubkey) :
    Throws Pubkey :=
  if memoHash.length ≠ 32 then .error "memoHash must be exactly 32 bytes"
  else .ok (J.addressOf [proofCommitSeed, authority.1, memoHash] programId)

/-- `deriveProofCommitWithBetaAddress`. -/
def deriveProofCommitWithBetaAddress (authority : Pubkey) (memoHash : Bytes)
    (programId : Pubkey) : Throws Pubkey :=
  if memoHash.length ≠ 32 then .error "memoHash must be exactly 32 bytes"
  else .ok (J.addressOf [proofCommitWithBetaSeed, authority.1, memoHash] programId)

@[simp] lemma deriveAuthorityAddress_eq (owner : Pubkey) (label : ByteVec 32) (id : Pubkey) :
    J.deriveAuthorityAddress owner label.1 id = .ok (J.addressOf (authoritySeeds owner label) id) :=
  if_neg (not_not.mpr label.2)

@[simp] lemma deriveProofCommitAddress_eq (authority : Pubkey) (m : Hash) (id : Pubkey) :
    J.deriveProofCommitAddress authority m.1 id =
      .ok (J.addressOf (proofCommitSeeds authority m) id) :=
  if_neg (not_not.mpr m.2)

/-- Both kinds of commit of one memo have one address. -/
lemma deriveProofCommitWithBetaAddress_eq (authority : Pubkey) (m : Bytes) (id : Pubkey) :
    J.deriveProofCommitWithBetaAddress authority m id = J.deriveProofCommitAddress authority m id :=
  rfl

variable {J}

/-- Where the libraries agree, the client finds the addresses of the program. -/
lemma Agrees.addressOf_eq {L : Light} (h : J.Agrees L) (seeds : List Bytes) :
    J.addressOf seeds ccVrfProgramId = L.address seeds := by
  rw [addressOf, h.seed, h.address, h.tree]
  rfl

end LightJs

/-- `encodeLabel`. -/
def encodeLabel (label : JsString) : Throws Bytes :=
  if 32 < (textEncode label).length then
    .error ("label \"" ++ label.show ++ "\" exceeds 32 bytes encoded")
  else .ok (textEncode label ++ List.replicate (32 - (textEncode label).length) 0)

/-- `typeof label === "string" ? encodeLabel(label) : label`. -/
def StringOrBytes.labelBytes : StringOrBytes → Throws Bytes
  | string text => encodeLabel text
  | bytes b => .ok b

namespace Noble

variable {Point : Type} [AddCommGroup Point] (N : Noble Point)

/-- `memoHash`. -/
def memoHash (memo : StringOrBytes) : Hash := N.sha256 memo.toBytes

/-- `alphaHash`. -/
def alphaHash (alpha : Bytes) : Hash := N.sha256 alpha

/-- `proofHash`. -/
def proofHash (proof : Bytes) : Hash := N.sha256 proof

end Noble

end CcVrf
