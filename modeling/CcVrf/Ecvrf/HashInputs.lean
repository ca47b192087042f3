import CcVrf.Ecvrf.PathEncoding
import CcVrf.Ecvrf.Vrf

/-!
The strings that the four functions of the package feed to SHA-512 for their outputs.

* `HashCall`, `HashCall.input`: a call of one of the functions, and the string it hashes.
  `encodeToCurveTAI_loop_hash`, `challengeGeneration_hash`, `vrfProofToHash_hash`, `refill_hash`:
  each function in terms of the hashes of these strings.
* `hashes_only`: another hash function that agrees on the strings of a function's calls does not
  change the function, so these are all that it hashes.
* `HashCall.Valid`: the arguments that the functions are called with.
* `HashArguments`: what a call passes on: for the output hash the cleared point, for a block
  of a stream the bytes of the segments.
* `encodeToCurveInput_inj`, `challengeInput_inj`, `proofToHashInput_inj`, `refillInput_inj`: each
  function's strings determine its arguments.
* `hash_inputs_injective`: **a string determines the function that hashes it and all of its
  arguments.**
-/

namespace CcVrf

open Framing

namespace Noble

variable {Point : Type} [AddCommGroup Point] (N : Noble Point)

/-- A call that hashes a string. -/
inductive HashCall (Point : Type) where
  | encodeToCurveTAI (salt alpha : Bytes) (ctr : ℕ)
  | challengeGeneration (Y H Gamma U V : Point)
  | vrfProofToHash (Gamma : Point)
  | refill (beta : Bytes) (path : List JsString) (blockIndex : ℕ)

/-- The string of a call. -/
def HashCall.input : HashCall Point → Bytes
  | .encodeToCurveTAI salt alpha ctr => encodeToCurveInput salt alpha ctr
  | .challengeGeneration Y H Gamma U V => N.challengeInput Y H Gamma U V
  | .vrfProofToHash Gamma => N.proofToHashInput (cofactor • Gamma)
  | .refill beta path blockIndex => refillInput beta (encodePath path) blockIndex

/-- The hash of the string of a call. -/
def HashCall.hash (x : HashCall Point) : Bytes := (N.sha512 (x.input N)).val

/-- The arguments of the calls that are made. -/
def HashCall.Valid : HashCall Point → Prop
  | .encodeToCurveTAI salt _ ctr => salt.length = 32 ∧ ctr ≤ 255
  | .challengeGeneration .. => True
  | .vrfProofToHash _ => True
  | .refill beta path blockIndex => beta.length = hashLen ∧ path.length < 2 ^ 32 ∧
      (∀ b ∈ segments path, b.length < 2 ^ 32) ∧ blockIndex < 2 ^ 64

/-- What a call passes on. -/
inductive HashArguments (Point : Type) where
  | encodeToCurveTAI (salt alpha : Bytes) (ctr : ℕ)
  | challengeGeneration (Y H Gamma U V : Point)
  | vrfProofToHash (cofactorGamma : Point)
  | refill (beta : Bytes) (segments : List Bytes) (blockIndex : ℕ)

/-- The arguments of a call. -/
def HashCall.arguments : HashCall Point → HashArguments Point
  | .encodeToCurveTAI salt alpha ctr => .encodeToCurveTAI salt alpha ctr
  | .challengeGeneration Y H Gamma U V => .challengeGeneration Y H Gamma U V
  | .vrfProofToHash Gamma => .vrfProofToHash (cofactor • Gamma)
  | .refill beta path blockIndex => .refill beta (segments path) blockIndex

/-! ### What the functions hash -/

/-- A round of the search hashes the string of its counter. -/
lemma encodeToCurveTAI_loop_hash (salt alpha : Bytes) (remaining ctr : ℕ) :
    encodeToCurveTAIWith.loop N N.multiply salt alpha (remaining + 1) ctr =
      match N.fromBytes (slice ((HashCall.encodeToCurveTAI salt alpha ctr).hash N) 0 ptLen) with
      | .error _ => encodeToCurveTAIWith.loop N N.multiply salt alpha remaining (ctr + 1)
      | .ok point => do
          let cleared ← N.multiply point cofactor
          if N.equals cleared 0 then
            encodeToCurveTAIWith.loop N N.multiply salt alpha remaining (ctr + 1)
          else return cleared := rfl

lemma challengeGeneration_hash (Y H Gamma U V : Point) :
    N.challengeGeneration Y H Gamma U V =
      bytesToBigIntLE (slice ((HashCall.challengeGeneration Y H Gamma U V).hash N) 0 cLen) := rfl

/-- The output is the hash of the string of the decoded point. -/
lemma vrfProofToHash_hash (proof : Bytes) :
    N.vrfProofToHash proof =
      if proof.length ≠ proofLen then .error ("proof must be " ++ toString proofLen ++ " bytes")
      else do
        let Gamma ← N.fromBytes (slice proof 0 ptLen)
        if N.failsGate Gamma then
          .error "proof Gamma must be a non-small-order prime-subgroup point"
        else return (HashCall.vrfProofToHash Gamma).hash N := by
  have hlength : ∀ b, ((N.sha512 b).val.length ≠ hashLen) ↔ False := fun b =>
    iff_false_intro (not_not.mpr (N.sha512 b).property)
  simp only [vrfProofToHash, N.multiply_cofactor, ok_bind, hlength, if_false]
  rfl

/-- A block of a stream at a path is the hash of the string of its index. -/
lemma refill_hash {s : VrfStream} {path : List JsString} (hpath : s.encodedPath = encodePath path) :
    (s.refill N.sha512).buf = (HashCall.refill s.betaCopy path s.blockIndex : HashCall Point).hash N := by
  rw [HashCall.hash, HashCall.input, ← hpath]
  rfl

/-- The primitives with another hash function. -/
def withSha512 (sha512 : Bytes → ByteVec 64) : Noble Point := { N with sha512 := sha512 }

section Only

variable {sha512 : Bytes → ByteVec 64}

/-- The search from a counter depends on the hashes of the counters that are left. -/
lemma encodeToCurveTAI_loop_congr {salt alpha : Bytes} (remaining ctr : ℕ)
    (h : ∀ i, ctr ≤ i → i < ctr + remaining →
      (HashCall.encodeToCurveTAI salt alpha i).hash (N.withSha512 sha512) =
        (HashCall.encodeToCurveTAI salt alpha i).hash N) :
    encodeToCurveTAIWith.loop (N.withSha512 sha512) N.multiply salt alpha remaining ctr =
      encodeToCurveTAIWith.loop N N.multiply salt alpha remaining ctr := by
  induction remaining generalizing ctr with
  | zero => rfl
  | succ remaining ih =>
      have hnext := ih (ctr + 1) fun i hi hlt => h i (by omega) (by omega)
      rw [encodeToCurveTAI_loop_hash, ← h ctr le_rfl (by omega), ← hnext]
      rfl

/-- **The functions hash nothing else**: each is the same under every hash function that agrees
on the strings of its calls. -/
theorem hashes_only (sha512 : Bytes → ByteVec 64) :
    (∀ salt alpha, (∀ ctr ≤ 255, (HashCall.encodeToCurveTAI salt alpha ctr).hash
        (N.withSha512 sha512) = (HashCall.encodeToCurveTAI salt alpha ctr).hash N) →
      (N.withSha512 sha512).encodeToCurveTAI salt alpha = N.encodeToCurveTAI salt alpha) ∧
    (∀ Y H Gamma U V, (HashCall.challengeGeneration Y H Gamma U V).hash (N.withSha512 sha512) =
        (HashCall.challengeGeneration Y H Gamma U V).hash N →
      (N.withSha512 sha512).challengeGeneration Y H Gamma U V =
        N.challengeGeneration Y H Gamma U V) ∧
    (∀ proof, (∀ Gamma, N.fromBytes (slice proof 0 ptLen) = .ok Gamma →
        (HashCall.vrfProofToHash Gamma).hash (N.withSha512 sha512) =
          (HashCall.vrfProofToHash Gamma).hash N) →
      (N.withSha512 sha512).vrfProofToHash proof = N.vrfProofToHash proof) ∧
    ∀ (s : VrfStream) (path : List JsString), s.encodedPath = encodePath path →
      (HashCall.refill s.betaCopy path s.blockIndex : HashCall Point).hash (N.withSha512 sha512) =
        (HashCall.refill s.betaCopy path s.blockIndex : HashCall Point).hash N →
      s.refill sha512 = s.refill N.sha512 := by
  refine ⟨fun salt alpha h => ?_, fun Y H Gamma U V h => ?_, fun proof h => ?_,
    fun s path hpath h => ?_⟩
  · exact N.encodeToCurveTAI_loop_congr maxCtr 0 fun i _ hi => h i (by rw [maxCtr] at hi; omega)
  · rw [challengeGeneration_hash, challengeGeneration_hash, h]
  · rw [vrfProofToHash_hash, vrfProofToHash_hash]
    refine if_congr Iff.rfl rfl ?_
    have hbytes : (N.withSha512 sha512).fromBytes (slice proof 0 ptLen) =
        N.fromBytes (slice proof 0 ptLen) := rfl
    rw [hbytes]
    cases hGamma : N.fromBytes (slice proof 0 ptLen) with
    | error e => rfl
    | ok Gamma =>
        rw [ok_bind, ok_bind, h Gamma hGamma]
        rfl
  · have hbuf : (s.refill sha512).buf = (s.refill N.sha512).buf := by
      rw [N.refill_hash hpath, ← h]
      exact (N.withSha512 sha512).refill_hash hpath
    exact congrArg (fun buf => { s.refill N.sha512 with buf := buf }) hbuf

end Only

/-! ### One function -/

/-- The salt has a fixed length, and two bytes follow the message. -/
lemma encodeToCurveInput_inj {salt salt' alpha alpha' : Bytes} {ctr ctr' : ℕ}
    (hsalt : salt.length = salt'.length) (hctr : ctr ≤ 255) (hctr' : ctr' ≤ 255)
    (h : encodeToCurveInput salt alpha ctr = encodeToCurveInput salt' alpha' ctr') :
    salt = salt' ∧ alpha = alpha' ∧ ctr = ctr' := by
  simp only [encodeToCurveInput, concatBytes, List.flatten_cons, List.flatten_nil, List.append_nil,
    List.singleton_append, List.cons.injEq, true_and] at h
  obtain ⟨rfl, hrest⟩ := List.append_inj h hsalt
  obtain ⟨rfl, htail⟩ := List.append_inj' hrest rfl
  have hbyte : UInt8.ofNat ctr = UInt8.ofNat ctr' := (List.cons.inj htail).1
  have hval := congrArg UInt8.toNat hbyte
  rw [UInt8.toNat_ofNat', UInt8.toNat_ofNat'] at hval
  exact ⟨rfl, rfl, by omega⟩

/-- Encoded points have a fixed length. -/
lemma toBytes_append_inj {P Q : Point} {u v : Bytes} (h : N.toBytes P ++ u = N.toBytes Q ++ v) :
    P = Q ∧ u = v := by
  obtain ⟨hpoint, hrest⟩ := List.append_inj h ((N.toBytes_length P).trans (N.toBytes_length Q).symm)
  exact ⟨N.toBytes_injective hpoint, hrest⟩

lemma challengeInput_inj {Y H Gamma U V Y' H' Gamma' U' V' : Point}
    (h : N.challengeInput Y H Gamma U V = N.challengeInput Y' H' Gamma' U' V') :
    Y = Y' ∧ H = H' ∧ Gamma = Gamma' ∧ U = U' ∧ V = V' := by
  simp only [challengeInput, concatBytes, List.flatten_cons, List.flatten_nil, List.append_nil,
    List.singleton_append, List.cons.injEq, true_and] at h
  obtain ⟨hY, h⟩ := N.toBytes_append_inj h
  obtain ⟨hH, h⟩ := N.toBytes_append_inj h
  obtain ⟨hGamma, h⟩ := N.toBytes_append_inj h
  obtain ⟨hU, h⟩ := N.toBytes_append_inj h
  obtain ⟨hV, -⟩ := N.toBytes_append_inj h
  exact ⟨hY, hH, hGamma, hU, hV⟩

lemma proofToHashInput_inj {P Q : Point} (h : N.proofToHashInput P = N.proofToHashInput Q) :
    P = Q := by
  simp only [proofToHashInput, concatBytes, List.flatten_cons, List.flatten_nil, List.append_nil,
    List.singleton_append, List.cons.injEq, true_and] at h
  exact (N.toBytes_append_inj h).1

/-- The counter is at the end, the counts and lengths tell the segments apart. -/
lemma refillInput_inj {beta beta' : Bytes} {path path' : List JsString} {blockIndex blockIndex' : ℕ}
    (hbeta : beta.length = beta'.length) (hpath : path.length < 2 ^ 32)
    (hpath' : path'.length < 2 ^ 32) (hshort : ∀ b ∈ segments path, b.length < 2 ^ 32)
    (hshort' : ∀ b ∈ segments path', b.length < 2 ^ 32) (hindex : blockIndex < 2 ^ 64)
    (hindex' : blockIndex' < 2 ^ 64)
    (h : refillInput beta (encodePath path) blockIndex =
      refillInput beta' (encodePath path') blockIndex') :
    beta = beta' ∧ segments path = segments path' ∧ blockIndex = blockIndex' := by
  simp only [refillInput, concatBytes, List.flatten_cons, List.flatten_nil, List.append_nil] at h
  obtain ⟨hbytes, hrest⟩ := List.append_inj (List.append_cancel_left h) hbeta
  obtain ⟨hencoded, hcounter⟩ :=
    List.append_inj' hrest ((length_u64be _).trans (length_u64be _).symm)
  obtain ⟨hcount, hframes⟩ := (encodePath_eq_iff hpath hpath').mp hencoded
  exact ⟨hbytes, frames_injective_of_short (by simpa using hcount) hshort hshort' hframes,
    u64be_inj hindex hindex' hcounter⟩

/-! ### The four functions -/

lemma take_expandTag : expandTag.take 2 = [0x65, 0x63] := by decide +kernel

/-- The first two bytes of a call's string. -/
def HashCall.prefixBytes : HashCall Point → Bytes
  | .encodeToCurveTAI .. => [suiteString, encodeToCurveDstFront]
  | .challengeGeneration .. => [suiteString, challengeDstFront]
  | .vrfProofToHash _ => [suiteString, proofToHashDstFront]
  | .refill .. => [0x65, 0x63]

lemma take_input (x : HashCall Point) : (x.input N).take 2 = x.prefixBytes := by
  cases x with
  | encodeToCurveTAI salt alpha ctr => rfl
  | challengeGeneration Y H Gamma U V => rfl
  | vrfProofToHash Gamma => rfl
  | refill beta path blockIndex =>
      rw [HashCall.input, refillInput, concatBytes, List.flatten_cons, HashCall.prefixBytes,
        List.take_append_of_le_length (by decide +kernel), take_expandTag]

omit [AddCommGroup Point] in
/-- The first two bytes tell the functions apart. -/
lemma ctorIdx_of_prefixBytes {x y : HashCall Point} (h : x.prefixBytes = y.prefixBytes) :
    x.ctorIdx = y.ctorIdx := by
  have hsuite : suiteString ≠ 0x65 := by decide
  have hback : encodeToCurveDstFront ≠ challengeDstFront := by decide
  have hfront : encodeToCurveDstFront ≠ proofToHashDstFront := by decide
  have hproof : challengeDstFront ≠ proofToHashDstFront := by decide
  cases x <;> cases y <;> simp_all [HashCall.prefixBytes, HashCall.ctorIdx]

/-- **A string determines the function that hashes it and its arguments**, so no two calls
with different arguments hash the same string. -/
theorem hash_inputs_injective {x y : HashCall Point} (hx : x.Valid) (hy : y.Valid)
    (h : x.input N = y.input N) : x.arguments = y.arguments := by
  have hfunction : x.ctorIdx = y.ctorIdx :=
    ctorIdx_of_prefixBytes (by rw [← take_input N, ← take_input N, h])
  cases x with
  | encodeToCurveTAI salt alpha ctr =>
      cases y with
      | encodeToCurveTAI salt' alpha' ctr' =>
          obtain ⟨rfl, rfl, rfl⟩ := encodeToCurveInput_inj (hx.1.trans hy.1.symm) hx.2 hy.2 h
          rfl
      | challengeGeneration | vrfProofToHash | refill => simp [HashCall.ctorIdx] at hfunction
  | challengeGeneration Y H Gamma U V =>
      cases y with
      | challengeGeneration Y' H' Gamma' U' V' =>
          obtain ⟨rfl, rfl, rfl, rfl, rfl⟩ := N.challengeInput_inj h
          rfl
      | encodeToCurveTAI | vrfProofToHash | refill => simp [HashCall.ctorIdx] at hfunction
  | vrfProofToHash Gamma =>
      cases y with
      | vrfProofToHash Gamma' =>
          exact congrArg HashArguments.vrfProofToHash (N.proofToHashInput_inj h)
      | encodeToCurveTAI | challengeGeneration | refill => simp [HashCall.ctorIdx] at hfunction
  | refill beta path blockIndex =>
      cases y with
      | refill beta' path' blockIndex' =>
          obtain ⟨hbeta, hcount, hshort, hindex⟩ := hx
          obtain ⟨hbeta', hcount', hshort', hindex'⟩ := hy
          obtain ⟨rfl, hsegments, rfl⟩ := refillInput_inj (hbeta.trans hbeta'.symm) hcount hcount'
            hshort hshort' hindex hindex' h
          exact congrArg (HashArguments.refill beta · blockIndex) hsegments
      | encodeToCurveTAI | challengeGeneration | vrfProofToHash =>
          simp [HashCall.ctorIdx] at hfunction

/-- The lone surrogates of two paths have the same bytes, and are one segment. -/
theorem hash_inputs_injective_sample :
    (HashCall.refill (List.replicate 64 0) [[0xD800]] 7 : HashCall Residue).arguments =
      (HashCall.refill (List.replicate 64 0) [[0xDC00]] 7).arguments := by
  have hencoded : encodePath [[0xD800]] = encodePath [[0xDC00]] := by decide +kernel
  have hshort : ∀ path ∈ ([[[0xD800]], [[0xDC00]]] : List (List JsString)),
      path.length < 2 ^ 32 ∧ ∀ b ∈ segments path, b.length < 2 ^ 32 := by decide +kernel
  refine hash_inputs_injective sample ⟨rfl, (hshort _ (by simp)).1, (hshort _ (by simp)).2, ?_⟩
    ⟨rfl, (hshort _ (by simp)).1, (hshort _ (by simp)).2, ?_⟩ ?_
  · norm_num
  · norm_num
  · rw [HashCall.input, HashCall.input, hencoded]

end Noble

end CcVrf
