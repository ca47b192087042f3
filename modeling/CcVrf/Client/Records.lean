import CcVrf.Library.Codec
import CcVrf.Program.State

/-!
The bytes of the program's accounts and the decoders of the client
(`operations.ts`).

* `authorityCodec`, `proofCommitCodec`, `proofCommitWithBetaCodec`: the Borsh
  layouts, field by field in the order of the structs. The two kinds of commit
  begin with the same four fields, `commitHeaderCodec`.
* `Account.data`: the data of an account, which excludes its discriminator.
* `decodeAuthority`, `decodeProofCommit`, `decodeProofCommitWithBeta`: the Anchor
  coder on the data of a fetched account. Nothing in the data says which kind of
  account it is.
* `header_of_decodeProofCommit`, `header_of_decodeProofCommitWithBeta`: whichever
  decoder returns on whichever account, the four shared fields are those stored.
-/

namespace CcVrf

open Codec

/-- The value of eight little-endian bytes. -/
lemma bytesToBigIntLE_slot (v : UInt64) :
    bytesToBigIntLE (bigIntToBytesLE.loop 8 v.toNat).1 = v.toNat :=
  bigIntToBytesLE.loop_value v.toNat_lt

/-- Eight little-endian bytes. -/
def slotCodec : Codec UInt64 where
  size := 8
  encode v := (bigIntToBytesLE.loop 8 v.toNat).1
  decode b :=
    if b.length < 8 then none else some (UInt64.ofNat (bytesToBigIntLE (b.take 8)), b.drop 8)
  decode_encode v rest := by
    have hlen := (bigIntToBytesLE.loop_spec 8 v.toNat).1
    rw [if_neg (by rw [List.length_append, hlen]; omega), List.take_left' hlen,
      List.drop_left' hlen, bytesToBigIntLE_slot, UInt64.ofNat_toNat]
  decode_length b v h := by
    split at h
    next => cases h
    next hlen =>
      cases h
      rw [List.length_drop]
      omega

/-- The layout of `VrfAuthority`. -/
def authorityCodec : Codec VrfAuthority :=
  ((fixed 32).seq ((fixed 32).seq (byte.seq (bool.seq (bool.seq ((fixed 32).seq slotCodec)))))).map
    (fun (owner, pk, suite, frozen, revoked, label, createdSlot) =>
      ⟨owner, pk, suite, frozen, revoked, label, createdSlot⟩)
    (fun a => (a.owner, a.pk, a.suite, a.frozen, a.revoked, a.label, a.createdSlot))
    fun _ => rfl

/-- The fields that both kinds of commit begin with. -/
structure CommitHeader where
  authority : Pubkey
  memoHash : Hash
  proofHash : Hash
  alphaHash : Hash
deriving DecidableEq

/-- The layout of the shared fields. -/
def commitHeaderCodec : Codec CommitHeader :=
  ((fixed 32).seq ((fixed 32).seq ((fixed 32).seq (fixed 32)))).map
    (fun (authority, memoHash, proofHash, alphaHash) => ⟨authority, memoHash, proofHash, alphaHash⟩)
    (fun r => (r.authority, r.memoHash, r.proofHash, r.alphaHash))
    fun _ => rfl

/-- The shared fields of a record. -/
def VrfProofCommit.header (r : VrfProofCommit) : CommitHeader :=
  ⟨r.authority, r.memoHash, r.proofHash, r.alphaHash⟩

/-- The shared fields of a record. -/
def VrfProofCommitWithBeta.header (r : VrfProofCommitWithBeta) : CommitHeader :=
  ⟨r.authority, r.memoHash, r.proofHash, r.alphaHash⟩

/-- The layout of `VrfProofCommit`. -/
def proofCommitCodec : Codec VrfProofCommit :=
  (commitHeaderCodec.seq slotCodec).map
    (fun (h, committedSlot) => ⟨h.authority, h.memoHash, h.proofHash, h.alphaHash, committedSlot⟩)
    (fun r => (r.header, r.committedSlot))
    fun _ => rfl

/-- The layout of `VrfProofCommitWithBeta`. -/
def proofCommitWithBetaCodec : Codec VrfProofCommitWithBeta :=
  (commitHeaderCodec.seq ((fixed 32).seq ((fixed 32).seq slotCodec))).map
    (fun (h, betaLo, betaHi, committedSlot) =>
      ⟨h.authority, h.memoHash, h.proofHash, h.alphaHash, betaLo, betaHi, committedSlot⟩)
    (fun r => (r.header, r.betaLo, r.betaHi, r.committedSlot))
    fun _ => rfl

namespace Account

/-- The data of an account. -/
def data : Account → Bytes
  | vrfAuthority d => authorityCodec.encode d
  | vrfProofCommit d => proofCommitCodec.encode d
  | vrfProofCommitWithBeta d => proofCommitWithBetaCodec.encode d

/-- The shared fields of a registry record of either kind. -/
def header? : Account → Option CommitHeader
  | vrfAuthority _ => none
  | vrfProofCommit d => some d.header
  | vrfProofCommitWithBeta d => some d.header

end Account

/-- `coder.types.decode`, which throws on a buffer that holds no value. -/
def coderDecode {α : Type} (c : Codec α) (data : Bytes) : Throws α :=
  (c.read data).elim (.error "Trying to access beyond buffer length") .ok

/-- `decodeAuthority`. -/
def decodeAuthority (data : Bytes) : Throws VrfAuthority := coderDecode authorityCodec data

/-- `decodeProofCommit`. -/
def decodeProofCommit (data : Bytes) : Throws VrfProofCommit := coderDecode proofCommitCodec data

/-- `decodeProofCommitWithBeta`. -/
def decodeProofCommitWithBeta (data : Bytes) : Throws VrfProofCommitWithBeta :=
  coderDecode proofCommitWithBetaCodec data

/-! ### Decoding what the program stored -/

lemma coderDecode_eq_ok_iff {α : Type} (c : Codec α) (b : Bytes) (v : α) :
    coderDecode c b = .ok v ↔ c.read b = some v := by
  rw [coderDecode]
  cases c.read b with
  | none => simp
  | some w => simp

@[simp] lemma decodeAuthority_data (d : VrfAuthority) :
    decodeAuthority (Account.vrfAuthority d).data = .ok d :=
  (coderDecode_eq_ok_iff _ _ _).mpr (read_encode _ d)

@[simp] lemma decodeProofCommit_data (d : VrfProofCommit) :
    decodeProofCommit (Account.vrfProofCommit d).data = .ok d :=
  (coderDecode_eq_ok_iff _ _ _).mpr (read_encode _ d)

@[simp] lemma decodeProofCommitWithBeta_data (d : VrfProofCommitWithBeta) :
    decodeProofCommitWithBeta (Account.vrfProofCommitWithBeta d).data = .ok d :=
  (coderDecode_eq_ok_iff _ _ _).mpr (read_encode _ d)

/-- A decoder of commits that returns on an account of the program returns the
shared fields of that account, which is a registry record. -/
lemma header_of_decodeProofCommit {acc : Account} {d : VrfProofCommit}
    (h : decodeProofCommit acc.data = .ok d) : acc.header? = some d.header := by
  rw [decodeProofCommit, coderDecode_eq_ok_iff] at h
  cases acc with
  | vrfAuthority a =>
      rw [Account.data, read_encode_eq_none (show authorityCodec.size < proofCommitCodec.size by decide)] at h
      cases h
  | vrfProofCommit r =>
      rw [Account.data, read_encode] at h
      cases h
      rfl
  | vrfProofCommitWithBeta r =>
      -- the slot is read from the first bytes of the output
      have hdec := seq_decode_encode commitHeaderCodec slotCodec r.header
        (((fixed 32).seq ((fixed 32).seq slotCodec)).encode (r.betaLo, r.betaHi, r.committedSlot))
      obtain ⟨x, hx, rfl⟩ := Option.map_eq_some_iff.mp h
      obtain ⟨y, hy, rfl⟩ := Option.map_eq_some_iff.mp hx
      obtain ⟨z, -, rfl⟩ := Option.map_eq_some_iff.mp (hdec.symm.trans hy)
      rfl

lemma header_of_decodeProofCommitWithBeta {acc : Account} {d : VrfProofCommitWithBeta}
    (h : decodeProofCommitWithBeta acc.data = .ok d) : acc.header? = some d.header := by
  rw [decodeProofCommitWithBeta, coderDecode_eq_ok_iff] at h
  cases acc with
  | vrfAuthority a =>
      rw [Account.data, read_encode_eq_none (show authorityCodec.size < proofCommitWithBetaCodec.size by decide)] at h
      cases h
  | vrfProofCommit r =>
      rw [Account.data, read_encode_eq_none (show proofCommitCodec.size < proofCommitWithBetaCodec.size by decide)] at h
      cases h
  | vrfProofCommitWithBeta r =>
      rw [Account.data, read_encode] at h
      cases h
      rfl

end CcVrf
