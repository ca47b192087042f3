import CcVrf.Ecvrf.Noble

/-!
The VRF of `packages/ecvrf/src`: key derivation, hash to curve, nonce, challenge,
prover, verifier and output hash, function by function.

* `encodeToCurveTAIWith`, `verifyVRFWith`: the code of the search and of the verifier, over any
  implementation of the curve library's `multiply`, in any monad with exceptions.
  `encodeToCurveTAI` and `verifyVRF` are this code with that of the library.
* `encodeToCurveTAIWith.loop_spec`: what the search over the counter returns, a nonidentity
  point of the prime-order subgroup.
* `proveVRF_eq_ok`: a call of the prover that returns determines the scalar,
  the nonce and the proof it is made of.
* `encodeProof`: the 80 bytes of `(Γ, c, s)`; `encodeProof_slices` reads them
  back, and `eq_encodeProof_of_decoded` says that every string that decodes is of
  this form.
* `Accepts`: what it takes for a proof to be accepted, without the code's order
  of checks; `verifyVRF_eq_true_iff` is the equivalence with the code.
* `vrfProofToHash_encodeProof`: the output of an encoded proof.
-/

namespace CcVrf

namespace Noble

variable {Point : Type} [AddCommGroup Point] (N : Noble Point)

/-! ### Keys -/

/-- The scalar and the point that `deriveScalar` returns. -/
structure SecretScalar (Point : Type) where
  x : ℕ
  Y : Point

/-- The clamping of the first half of the hashed seed. -/
def clamp (h : Bytes) : Bytes :=
  (((slice h 0 32).modify 0 (· &&& 248)).modify 31 (· &&& 127)).modify 31 (· ||| 64)

/-- `deriveScalar(sk)`. -/
def deriveScalar (sk : Bytes) : Throws (SecretScalar Point) :=
  if sk.length ≠ 32 then .error "SK must be 32 bytes"
  else do
    let x := bytesToBigIntLE (clamp (N.sha512 sk).val) % curveOrder
    let Y ← N.multiply N.base x
    return { x, Y }

/-- `publicKeyFromSeed(sk)`. -/
def publicKeyFromSeed (sk : Bytes) : Throws Bytes := do
  let derived ← N.deriveScalar sk
  return N.toBytes derived.Y

/-! ### Hash to curve -/

/-- The string hashed for one counter. -/
def encodeToCurveInput (salt alpha : Bytes) (ctr : ℕ) : Bytes :=
  concatBytes [[suiteString], [encodeToCurveDstFront], salt, alpha, [UInt8.ofNat ctr],
    [encodeToCurveDstBack]]

/-- `MAX_CTR`. -/
def maxCtr : ℕ := 256

section With

variable {m : Type → Type} [Monad m] [MonadExceptOf String m] (multiply : Point → ℕ → m Point)

/-- The search from counter `ctr`, with `remaining` counters left. -/
def encodeToCurveTAIWith.loop (salt alpha : Bytes) : ℕ → ℕ → m Point
  | 0, _ => throw "encode_to_curve_TAI: exceeded max counter without finding valid point"
  | remaining + 1, ctr =>
      let hash := (N.sha512 (encodeToCurveInput salt alpha ctr)).val
      match N.fromBytes (slice hash 0 ptLen) with
      | .error _ => encodeToCurveTAIWith.loop salt alpha remaining (ctr + 1)
      | .ok point => do
          let cleared ← multiply point cofactor
          if N.equals cleared 0 then encodeToCurveTAIWith.loop salt alpha remaining (ctr + 1)
          else return cleared

/-- `encodeToCurveTAI(salt, alpha)`, over any implementation of `multiply`. -/
def encodeToCurveTAIWith (salt alpha : Bytes) : m Point :=
  encodeToCurveTAIWith.loop N multiply salt alpha maxCtr 0

end With

/-- `encodeToCurveTAI(salt, alpha)`. -/
def encodeToCurveTAI (salt alpha : Bytes) : Throws Point :=
  N.encodeToCurveTAIWith N.multiply salt alpha

/-- A point that the search returns is a nonidentity point of the prime-order
subgroup. -/
lemma encodeToCurveTAIWith.loop_spec {salt alpha : Bytes} {H : Point} (remaining ctr : ℕ)
    (h : encodeToCurveTAIWith.loop N N.multiply salt alpha remaining ctr = .ok H) :
    PrimeSubgroup H := by
  induction remaining generalizing ctr with
  | zero => cases h
  | succ remaining ih =>
      rw [encodeToCurveTAIWith.loop] at h
      split at h
      next => exact ih (ctr + 1) h
      next point hpoint =>
        obtain ⟨cleared, hclear, hres⟩ := bind_eq_ok_iff.mp h
        split at hres
        next => exact ih (ctr + 1) hres
        next h0 =>
          cases hres
          exact N.primeSubgroup_of_cleared hclear fun hz => h0 ((N.equals_iff _ _).mpr hz)

lemma primeSubgroup_of_encodeToCurveTAI {salt alpha : Bytes} {H : Point}
    (h : N.encodeToCurveTAI salt alpha = .ok H) : PrimeSubgroup H :=
  encodeToCurveTAIWith.loop_spec N maxCtr 0 h

/-! ### Nonce and challenge -/

/-- `generateNonce(sk, hString)`. -/
def generateNonce (sk hString : Bytes) : Throws ℕ :=
  if sk.length ≠ 32 then .error "SK must be 32 bytes"
  else
    let hashedSk := (N.sha512 sk).val
    let truncatedHashedSk := slice hashedSk 32 64
    let kString := (N.sha512 (concatBytes [truncatedHashedSk, hString])).val
    .ok (bytesToBigIntLE kString % curveOrder)

/-- The string hashed into a challenge. -/
def challengeInput (Y H Gamma U V : Point) : Bytes :=
  concatBytes [[suiteString], [challengeDstFront], N.toBytes Y, N.toBytes H, N.toBytes Gamma,
    N.toBytes U, N.toBytes V, [challengeDstBack]]

/-- `challengeGeneration(Y, H, Gamma, U, V)`. -/
def challengeGeneration (Y H Gamma U V : Point) : ℕ :=
  let cString := (N.sha512 (N.challengeInput Y H Gamma U V)).val
  let truncated := slice cString 0 cLen
  bytesToBigIntLE truncated

/-- A challenge fits in `cLen` bytes. -/
lemma challengeGeneration_lt (Y H Gamma U V : Point) :
    N.challengeGeneration Y H Gamma U V < 256 ^ cLen := by
  have hlong : cLen ≤ (N.sha512 (N.challengeInput Y H Gamma U V)).val.length := by
    rw [(N.sha512 _).property]
    decide
  exact bytesToBigIntLE_slice_lt 0 hlong

/-! ### Encoded proofs -/

/-- The challenge in a proof of the right length fits in `cLen` bytes. -/
lemma challenge_slice_lt {proof : Bytes} (hlen : proof.length = proofLen) :
    bytesToBigIntLE (slice proof ptLen (ptLen + cLen)) < 256 ^ cLen := by
  have hlong : ptLen + cLen ≤ proof.length := by
    rw [hlen]
    decide
  have hlt := bytesToBigIntLE_slice_lt ptLen hlong
  rwa [Nat.add_sub_cancel_left] at hlt

/-- The 80 bytes `Γ.toBytes() || LE16(c) || LE32(s)`. -/
def encodeProof (Gamma : Point) (c s : ℕ) : Bytes :=
  N.toBytes Gamma ++ (bigIntToBytesLE.loop cLen c).1 ++ (bigIntToBytesLE.loop qLen s).1

lemma encodeProof_length (Gamma : Point) (c s : ℕ) :
    (N.encodeProof Gamma c s).length = proofLen := by
  rw [encodeProof, List.length_append, List.length_append, N.toBytes_length,
    bigIntToBytesLE.length_loop, bigIntToBytesLE.length_loop, proofLen]

/-- The slices of an encoded proof decode to what was encoded. -/
lemma encodeProof_slices (Gamma : Point) {c s : ℕ} (hc : c < 256 ^ cLen) (hs : s < 256 ^ qLen) :
    slice (N.encodeProof Gamma c s) 0 ptLen = N.toBytes Gamma ∧
      bytesToBigIntLE (slice (N.encodeProof Gamma c s) ptLen (ptLen + cLen)) = c ∧
      bytesToBigIntLE (slice (N.encodeProof Gamma c s) (ptLen + cLen) proofLen) = s := by
  obtain ⟨h1, h2, h3⟩ := slice_concat (N.toBytes Gamma) (bigIntToBytesLE.loop cLen c).1
    (bigIntToBytesLE.loop qLen s).1
  rw [N.toBytes_length] at h1 h2 h3
  rw [bigIntToBytesLE.length_loop] at h2 h3
  rw [bigIntToBytesLE.length_loop] at h3
  refine ⟨h1, ?_, ?_⟩
  · rw [encodeProof, h2, bigIntToBytesLE.loop_value hc]
  · rw [encodeProof, proofLen, h3, bigIntToBytesLE.loop_value hs]

/-- Every string of the proof length whose first slice decodes is an encoded
proof: the code's decoding loses nothing. -/
lemma eq_encodeProof_of_decoded {proof : Bytes} {Gamma : Point} (hlen : proof.length = proofLen)
    (hGamma : N.fromBytes (slice proof 0 ptLen) = .ok Gamma) :
    proof = N.encodeProof Gamma (bytesToBigIntLE (slice proof ptLen (ptLen + cLen)))
      (bytesToBigIntLE (slice proof (ptLen + cLen) proofLen)) := by
  have hc := bigIntToBytesLE.loop_bytesToBigIntLE (slice proof ptLen (ptLen + cLen))
  have hs := bigIntToBytesLE.loop_bytesToBigIntLE (slice proof (ptLen + cLen) proofLen)
  rw [slice_length _ (by rw [hlen]; decide)] at hc
  rw [slice_length _ hlen.ge] at hs
  have hcut : slice proof 0 ptLen ++ slice proof ptLen (ptLen + cLen) ++
      slice proof (ptLen + cLen) proofLen = proof := slice_append_slice hlen
  rw [encodeProof, N.toBytes_of_fromBytes _ _ hGamma]
  conv_lhs => rw [← hcut, ← hc, ← hs]
  rfl

/-! ### The prover -/

/-- What `proveVRF` returns. -/
structure ProveResult where
  proof : Bytes
  gamma : Bytes
  deriving DecidableEq

/-- `proveVRF(sk, alpha)`. -/
def proveVRF (sk alpha : Bytes) : Throws ProveResult := do
  let ⟨x, Y⟩ ← N.deriveScalar sk
  let H ← N.encodeToCurveTAI (N.toBytes Y) alpha
  let hString := N.toBytes H
  let Gamma ← N.multiply H x
  let k ← N.generateNonce sk hString
  -- the nonce may be `0`, in which case the library throws here
  let U ← N.multiply N.base k
  let V ← N.multiply H k
  let c := N.challengeGeneration Y H Gamma U V
  let s := (k + c * x) % curveOrder
  let cBytes ← bigIntToBytesLE c cLen
  let sBytes ← bigIntToBytesLE s qLen
  let proof := concatBytes [N.toBytes Gamma, cBytes, sBytes]
  return { proof, gamma := N.toBytes Gamma }

/-- The proof made with secret scalar `x` and an arbitrary nonce `k` on the point
`H`: the honest prover and a key holder who picks his own nonce alike. -/
def proofWithNonce (x k : ℕ) (H : Point) : Bytes :=
  let c := N.challengeGeneration (x • N.base) H (x • H) (k • N.base) (k • H)
  N.encodeProof (x • H) c (PrimeOrder.response curveOrder x k c)

/-- **What the prover returns**: the proof with the derived scalar and the derived
nonce, both in `[1, q-1]`. -/
lemma proveVRF_eq_ok {sk alpha : Bytes} {r : ProveResult} (h : N.proveVRF sk alpha = .ok r) :
    ∃ (x k : ℕ) (H : Point), N.deriveScalar sk = .ok ⟨x, x • N.base⟩ ∧
      1 ≤ x ∧ x < curveOrder ∧ 1 ≤ k ∧ k < curveOrder ∧
      N.encodeToCurveTAI (N.toBytes (x • N.base)) alpha = .ok H ∧
      r = ⟨N.proofWithNonce x k H, N.toBytes (x • H)⟩ := by
  simp only [proveVRF, bind_eq_ok_iff] at h
  obtain ⟨⟨x, Y⟩, hderive, H, hH, Gamma, hGamma, k, -, U, hU, V, hV, cBytes, hc, sBytes, hs, h⟩ := h
  have hY : Y = x • N.base := by
    rw [deriveScalar] at hderive
    split at hderive
    next => cases hderive
    next =>
      obtain ⟨Y', hY', hret⟩ := bind_eq_ok_iff.mp hderive
      cases hret
      exact ((N.multiply_eq_ok_iff _ _ _).mp hY').2.2
  subst hY
  obtain ⟨hx1, hxq, rfl⟩ := (N.multiply_eq_ok_iff H x Gamma).mp hGamma
  obtain ⟨hk1, hkq, rfl⟩ := (N.multiply_eq_ok_iff N.base k U).mp hU
  obtain ⟨-, -, rfl⟩ := (N.multiply_eq_ok_iff H k V).mp hV
  obtain ⟨hclen, hcval⟩ := (bigIntToBytesLE_eq_ok_iff _ _ _).mp hc
  obtain ⟨hslen, hsval⟩ := (bigIntToBytesLE_eq_ok_iff _ _ _).mp hs
  refine ⟨x, k, H, hderive, hx1, hxq, hk1, hkq, hH, ?_⟩
  have hcloop := bigIntToBytesLE.loop_bytesToBigIntLE cBytes
  have hsloop := bigIntToBytesLE.loop_bytesToBigIntLE sBytes
  rw [hclen, hcval] at hcloop
  rw [hslen, hsval] at hsloop
  cases h
  simp only [proofWithNonce, encodeProof, PrimeOrder.response, hcloop, hsloop, concatBytes,
    List.flatten_cons, List.flatten_nil, List.append_nil, List.append_assoc]

/-! ### The verifier -/

section With

variable {m : Type → Type} [Monad m] [MonadExceptOf String m] (multiply : Point → ℕ → m Point)

/-- The guarded multiple `n === 0n ? ZERO : P.multiply(n)`. -/
def multiplyOrZeroWith (P : Point) (n : ℕ) : m Point :=
  if n = 0 then return 0 else multiply P n

/-- The points `U = s·B - c·Y` and `V = s·H - c·Γ`. -/
def recomputedWith (Y H Gamma : Point) (c s : ℕ) : m (Point × Point) := do
  let sB ← multiplyOrZeroWith multiply N.base s
  let cY ← multiplyOrZeroWith multiply Y c
  let U := sB - cY
  let sH ← multiplyOrZeroWith multiply H s
  let cGamma ← multiplyOrZeroWith multiply Gamma c
  let V := sH - cGamma
  return (U, V)

/-- `verifyVRF(pk, alpha, proof)`, over any implementation of `multiply`. -/
def verifyVRFWith (pk alpha proof : Bytes) : m Bool :=
  if proof.length ≠ proofLen then return false
  else if pk.length ≠ ptLen then return false
  else
    let gammaBytes := slice proof 0 ptLen
    let cBytes := slice proof ptLen (ptLen + cLen)
    let sBytes := slice proof (ptLen + cLen) proofLen
    let c := bytesToBigIntLE cBytes
    let s := bytesToBigIntLE sBytes
    if s ≥ curveOrder then return false
    else
      match N.fromBytes pk, N.fromBytes gammaBytes with
      | .ok Y, .ok Gamma =>
          if N.failsGate Y then return false
          else if N.failsGate Gamma then return false
          else do
            let H ← N.encodeToCurveTAIWith multiply pk alpha
            let (U, V) ← N.recomputedWith multiply Y H Gamma c s
            let cPrime := N.challengeGeneration Y H Gamma U V
            return c == cPrime
      | _, _ => return false

end With

/-- The guarded multiple of the library. -/
def multiplyOrZero (P : Point) (n : ℕ) : Throws Point := multiplyOrZeroWith N.multiply P n

/-- The points that the verifier recomputes. -/
def recomputed (Y H Gamma : Point) (c s : ℕ) : Throws (Point × Point) :=
  N.recomputedWith N.multiply Y H Gamma c s

/-- `verifyVRF(pk, alpha, proof)`. -/
def verifyVRF (pk alpha proof : Bytes) : Throws Bool := N.verifyVRFWith N.multiply pk alpha proof

/-- The guarded multiple is the multiple, without exception, below the order. -/
lemma multiplyOrZero_eq (P : Point) {n : ℕ} (hn : n < curveOrder) :
    N.multiplyOrZero P n = .ok (n • P) := by
  rw [multiplyOrZero, multiplyOrZeroWith]
  split
  next h0 =>
    rw [h0, zero_smul]
    rfl
  next h0 => exact N.multiply_eq P n (Nat.one_le_iff_ne_zero.mpr h0) hn

/-- With scalars in range the two points are computed, the zero scalars included. -/
lemma recomputed_eq (Y H Gamma : Point) {c s : ℕ} (hc : c < curveOrder) (hs : s < curveOrder) :
    N.recomputed Y H Gamma c s =
      .ok (PrimeOrder.commitment N.base Y c s, PrimeOrder.commitment H Gamma c s) := by
  have hmultiple : ∀ (P : Point) {n : ℕ}, n < curveOrder →
      multiplyOrZeroWith N.multiply P n = .ok (n • P) := fun P _ hn => N.multiplyOrZero_eq P hn
  simp only [recomputed, recomputedWith, hmultiple _ hs, hmultiple _ hc, ok_bind]
  rfl

/-- A public key that passes the gates of the verifier, decoded. -/
def ValidKey (pk : Bytes) (Y : Point) : Prop := N.fromBytes pk = .ok Y ∧ PrimeSubgroup Y

/-- **The verification equation** for the decoded values: the challenge is that of
the two recomputed points. -/
def Verifies (Y H Gamma : Point) (c s : ℕ) : Prop :=
  c = N.challengeGeneration Y H Gamma (PrimeOrder.commitment N.base Y c s)
    (PrimeOrder.commitment H Gamma c s)

/-- What it takes for a proof to be accepted: key and `Γ` pass the gates, the
scalars are in range, the string is the encoding, and the equation holds. -/
def Accepts (pk alpha proof : Bytes) : Prop :=
  ∃ (Y H Gamma : Point) (c s : ℕ), N.ValidKey pk Y ∧ N.encodeToCurveTAI pk alpha = .ok H ∧
    PrimeSubgroup Gamma ∧ c < 256 ^ cLen ∧ s < curveOrder ∧
    proof = N.encodeProof Gamma c s ∧ N.Verifies Y H Gamma c s

/-- On a key and a proof that pass the gates, the verifier compares the challenge of the
proof with that of the recomputed points. -/
lemma verifyVRF_eq_recomputed {pk : Bytes} {Y Gamma : Point} (alpha : Bytes) {c s : ℕ}
    (hY : N.ValidKey pk Y) (hGamma : PrimeSubgroup Gamma) (hc : c < 256 ^ cLen)
    (hs : s < curveOrder) :
    N.verifyVRF pk alpha (N.encodeProof Gamma c s) = do
      let H ← N.encodeToCurveTAI pk alpha
      let (U, V) ← N.recomputed Y H Gamma c s
      return c == N.challengeGeneration Y H Gamma U V := by
  obtain ⟨h1, h2, h3⟩ := N.encodeProof_slices Gamma hc (hs.trans curveOrder_lt_pow_qLen)
  have hlen := N.encodeProof_length Gamma c s
  have hpk := N.length_of_fromBytes hY.1
  simp only [verifyVRF, verifyVRFWith, hlen, hpk, ne_eq, not_true_eq_false, if_false, h1, h2, h3,
    hY.1, N.fromBytes_toBytes, ge_iff_le, not_le.mpr hs, (N.gates_iff _).mpr hY.2,
    (N.gates_iff _).mpr hGamma, Bool.false_eq_true]
  rfl

/-- On a key and an encoded proof that pass the gates the code computes the
verification equation; every scalar it multiplies by is in range. -/
lemma verifyVRF_encodeProof {pk : Bytes} {Y Gamma : Point} (alpha : Bytes) {c s : ℕ}
    (hY : N.ValidKey pk Y) (hGamma : PrimeSubgroup Gamma) (hc : c < 256 ^ cLen)
    (hs : s < curveOrder) :
    N.verifyVRF pk alpha (N.encodeProof Gamma c s) = (N.encodeToCurveTAI pk alpha).map fun H =>
      c == N.challengeGeneration Y H Gamma (PrimeOrder.commitment N.base Y c s)
        (PrimeOrder.commitment H Gamma c s) := by
  have hcq : c < curveOrder := hc.trans pow_cLen_lt_curveOrder
  rw [N.verifyVRF_eq_recomputed alpha hY hGamma hc hs]
  cases N.encodeToCurveTAI pk alpha with
  | error e => rfl
  | ok H =>
      rw [ok_bind, N.recomputed_eq Y H Gamma hcq hs]
      rfl

/-- The gates that the code checks before it hashes to the curve: whenever it does
not reject, the key is valid and the proof is an encoding with scalars in range. -/
lemma verifyVRF_gates {pk alpha proof : Bytes} (h : N.verifyVRF pk alpha proof ≠ .ok false) :
    ∃ (Y Gamma : Point) (c s : ℕ), N.ValidKey pk Y ∧ PrimeSubgroup Gamma ∧ c < 256 ^ cLen ∧
      s < curveOrder ∧ proof = N.encodeProof Gamma c s := by
  rw [verifyVRF, verifyVRFWith] at h
  split at h
  next => exact absurd rfl h
  next hlen =>
  rw [not_not] at hlen
  split at h
  next => exact absurd rfl h
  next hpk =>
  simp only at h
  split at h
  next => exact absurd rfl h
  next hs =>
  split at h
  next Y Gamma hY hGamma =>
    split at h
    next => exact absurd rfl h
    next hYgate =>
    split at h
    next => exact absurd rfl h
    next hGgate =>
    exact ⟨Y, Gamma, _, _, ⟨hY, (N.gates_iff Y).mp (Bool.eq_false_iff.mpr hYgate)⟩,
      (N.gates_iff Gamma).mp (Bool.eq_false_iff.mpr hGgate), challenge_slice_lt hlen, not_le.mp hs,
      N.eq_encodeProof_of_decoded hlen hGamma⟩
  next => exact absurd rfl h

/-- **The verifier decides acceptance.** -/
theorem verifyVRF_eq_true_iff (pk alpha proof : Bytes) :
    N.verifyVRF pk alpha proof = .ok true ↔ N.Accepts pk alpha proof := by
  constructor
  · intro h
    obtain ⟨Y, Gamma, c, s, hY, hGamma, hc, hs, rfl⟩ :=
      N.verifyVRF_gates (by rw [h]; simp : N.verifyVRF pk alpha proof ≠ .ok false)
    rw [N.verifyVRF_encodeProof alpha hY hGamma hc hs] at h
    cases hH : N.encodeToCurveTAI pk alpha with
    | error e => rw [hH] at h; cases h
    | ok H =>
        rw [hH] at h
        exact ⟨Y, H, Gamma, c, s, hY, hH, hGamma, hc, hs, rfl,
          beq_iff_eq.mp (Except.ok.inj h)⟩
  · rintro ⟨Y, H, Gamma, c, s, hY, hH, hGamma, hc, hs, rfl, heq⟩
    rw [N.verifyVRF_encodeProof alpha hY hGamma hc hs, hH]
    exact congrArg Except.ok (beq_iff_eq.mpr heq)

/-! ### The output -/

/-- The string hashed into the output. -/
def proofToHashInput (cofactorGamma : Point) : Bytes :=
  concatBytes [[suiteString], [proofToHashDstFront], N.toBytes cofactorGamma,
    [proofToHashDstBack]]

/-- `vrfProofToHash(proof)`. -/
def vrfProofToHash (proof : Bytes) : Throws Bytes :=
  if proof.length ≠ proofLen then
    .error ("proof must be " ++ toString proofLen ++ " bytes")
  else do
    let gammaBytes := slice proof 0 ptLen
    let Gamma ← N.fromBytes gammaBytes
    if N.failsGate Gamma then
      .error "proof Gamma must be a non-small-order prime-subgroup point"
    else
      let cofactorGamma ← N.multiply Gamma cofactor
      let beta := (N.sha512 (N.proofToHashInput cofactorGamma)).val
      if beta.length ≠ hashLen then .error "internal: unexpected sha512 output length"
      else return beta

/-- **The output of an encoded proof** whose `Γ` passes the gates is the hash of
`8·Γ`: the call returns. -/
lemma vrfProofToHash_encodeProof {Gamma : Point} (hGamma : PrimeSubgroup Gamma) {c s : ℕ}
    (hc : c < 256 ^ cLen) (hs : s < curveOrder) :
    N.vrfProofToHash (N.encodeProof Gamma c s) =
      .ok (N.sha512 (N.proofToHashInput (cofactor • Gamma))).val := by
  obtain ⟨h1, -, -⟩ := N.encodeProof_slices Gamma hc (hs.trans curveOrder_lt_pow_qLen)
  have hlen := (N.sha512 (N.proofToHashInput (cofactor • Gamma))).property
  simp only [vrfProofToHash, N.encodeProof_length, ne_eq, not_true_eq_false, if_false, h1,
    N.fromBytes_toBytes, (N.gates_iff _).mpr hGamma, Bool.false_eq_true, N.multiply_cofactor,
    ok_bind, hlen, hashLen]
  rfl

/-- An accepted proof has an output. -/
lemma Accepts.vrfProofToHash {pk alpha proof : Bytes} (h : N.Accepts pk alpha proof) :
    ∃ beta, N.vrfProofToHash proof = .ok beta := by
  obtain ⟨Y, H, Gamma, c, s, -, -, hGamma, hc, hs, rfl, -⟩ := h
  exact ⟨_, N.vrfProofToHash_encodeProof hGamma hc hs⟩

end Noble

end CcVrf
