import CcVrf.Ecvrf.CountBytes
import CcVrf.Ecvrf.HashInputs
import CcVrf.Ecvrf.Soundness
import CcVrf.Library.AdaptiveQueries

/-!
One output for a key and an input, when challenges are answers of a random function.

A key has many accepted proofs for one input, and no hash function rules out that two of them
have different outputs. So the answers on the strings of challenges are taken at random, and
those on all other strings are kept: they fix the keys, the points that inputs hash to and the
outputs. The operator knows everything and asks for challenges one after the other.

* `ChallengeString`, `withChallenges`: the strings in question, and the primitives with other
  answers to them; the hash function of the code is one choice (`withChallenges_self`).
* `verifierString`: the string that the verifier hashes into the challenge.
* `badAnswers`, `badAnswers_ncard`: the answers that let a wrong `Γ` through. All of them start
  with the same 16 bytes.
* `Genuine`: an encoded proof with `Γ = x·H`. `genuine_or_bad`: **an accepted proof is genuine,
  or the challenge that accepts it was a bad answer.**
* `outputs_unique`: **whoever asks for `n` challenges has two accepted proofs of one key and
  one input with different outputs for at most a fraction `(n + 2) / 2 ^ 128` of the answers.**
-/

namespace CcVrf

namespace Noble

open AdaptiveQueries

variable {Point : Type} [AddCommGroup Point] (N : Noble Point)

/-! ### Strings of challenges -/

/-- A string with the length and the first bytes of those hashed into challenges. -/
def IsChallengeString (b : Bytes) : Prop :=
  b.length = 3 + 5 * ptLen ∧ b.take 2 = [suiteString, challengeDstFront]

instance (b : Bytes) : Decidable (IsChallengeString b) := inferInstanceAs (Decidable (_ ∧ _))

/-- The strings whose answers are taken at random. -/
abbrev ChallengeString := {b : Bytes // IsChallengeString b}

instance : Finite ChallengeString :=
  Finite.of_injective (fun d : ChallengeString => (⟨d.1, d.2.1⟩ : ByteVec (3 + 5 * ptLen)))
    fun _ _ h => Subtype.ext (congrArg (fun b : ByteVec _ => b.1) h)

/-- What `challengeGeneration` hashes is such a string. -/
lemma isChallengeString_challengeInput (Y H Gamma U V : Point) :
    IsChallengeString (N.challengeInput Y H Gamma U V) := by
  refine ⟨?_, rfl⟩
  simp only [challengeInput, concatBytes, List.flatten_cons, List.flatten_nil,
    List.length_append, List.length_cons, List.length_nil, N.toBytes_length]
  omega

/-- The string that `challengeGeneration` hashes. -/
def challengeString (Y H Gamma U V : Point) : ChallengeString :=
  ⟨N.challengeInput Y H Gamma U V, N.isChallengeString_challengeInput Y H Gamma U V⟩

/-- The primitives with the answers `f` to the strings of challenges. -/
def withChallenges (f : ChallengeString → ByteVec 64) : Noble Point :=
  { N with sha512 := fun b => if h : IsChallengeString b then f ⟨b, h⟩ else N.sha512 b }

/-- The hash function of the code is one choice of answers. -/
lemma withChallenges_self : N.withChallenges (fun d => N.sha512 d.1) = N := by
  rw [withChallenges]
  congr
  funext b
  exact dite_eq_right_iff.mpr fun _ => rfl

/-- The challenge in an answer. -/
def challengeOf (a : ByteVec 64) : ℕ := bytesToBigIntLE (slice a.1 0 cLen)

lemma challengeOf_lt (a : ByteVec 64) : challengeOf a < 256 ^ cLen :=
  bytesToBigIntLE_slice_lt 0 (by rw [a.2]; decide)

/-- The challenge determines the first bytes of the answer. -/
lemma take_eq_of_challengeOf {a b : ByteVec 64} (h : challengeOf a = challengeOf b) :
    a.1.take cLen = b.1.take cLen := by
  refine bytesToBigIntLE_inj ?_ h
  rw [List.length_take, List.length_take, a.2, b.2]

section WithChallenges

variable (f : ChallengeString → ByteVec 64)

lemma withChallenges_challengeGeneration (Y H Gamma U V : Point) :
    (N.withChallenges f).challengeGeneration Y H Gamma U V =
      challengeOf (f (N.challengeString Y H Gamma U V)) := by
  have hhash : (N.withChallenges f).sha512 (N.challengeInput Y H Gamma U V) =
      f (N.challengeString Y H Gamma U V) := dif_pos (N.challengeString Y H Gamma U V).2
  rw [challengeOf, ← hhash]
  rfl

/-- The strings of the search for a curve point are not those of challenges. -/
lemma withChallenges_encodeToCurveTAI (salt alpha : Bytes) :
    (N.withChallenges f).encodeToCurveTAI salt alpha = N.encodeToCurveTAI salt alpha := by
  have hhash : ∀ ctr, (N.withChallenges f).sha512 (encodeToCurveInput salt alpha ctr) =
      N.sha512 (encodeToCurveInput salt alpha ctr) := fun ctr => by
    refine dif_neg fun h => ?_
    have hfront : [suiteString, encodeToCurveDstFront] = [suiteString, challengeDstFront] := h.2
    exact absurd hfront (by decide)
  have hloop : ∀ remaining ctr,
      encodeToCurveTAIWith.loop (N.withChallenges f) N.multiply salt alpha remaining ctr =
        encodeToCurveTAIWith.loop N N.multiply salt alpha remaining ctr := by
    intro remaining
    induction remaining with
    | zero => exact fun _ => rfl
    | succ remaining ih =>
        intro ctr
        rw [encodeToCurveTAIWith.loop, encodeToCurveTAIWith.loop, hhash, ih]
        rfl
  exact hloop maxCtr 0

/-- Acceptance depends on the answer to one string, the one that the verifier hashes. -/
lemma verifyVRF_withChallenges_iff (pk alpha proof : Bytes) :
    (N.withChallenges f).verifyVRF pk alpha proof = .ok true ↔
      ∃ (Y H Gamma : Point) (c s : ℕ), N.ValidKey pk Y ∧ N.encodeToCurveTAI pk alpha = .ok H ∧
        PrimeSubgroup Gamma ∧ c < 256 ^ cLen ∧ s < curveOrder ∧
        proof = N.encodeProof Gamma c s ∧
        c = challengeOf (f (N.challengeString Y H Gamma (PrimeOrder.commitment N.base Y c s)
          (PrimeOrder.commitment H Gamma c s))) := by
  rw [verifyVRF_eq_true_iff]
  simp only [Accepts, Verifies, withChallenges_challengeGeneration,
    withChallenges_encodeToCurveTAI]
  rfl

end WithChallenges

/-! ### What the verifier hashes -/

/-- The string that the verifier hashes into the challenge, when it gets there. -/
def verifierString (pk alpha proof : Bytes) : Throws ChallengeString := do
  let c := bytesToBigIntLE (slice proof ptLen (ptLen + cLen))
  let s := bytesToBigIntLE (slice proof (ptLen + cLen) proofLen)
  let Y ← N.fromBytes pk
  let Gamma ← N.fromBytes (slice proof 0 ptLen)
  let H ← N.encodeToCurveTAI pk alpha
  return N.challengeString Y H Gamma (PrimeOrder.commitment N.base Y c s)
    (PrimeOrder.commitment H Gamma c s)

lemma verifierString_encodeProof {pk alpha : Bytes} {Y H Gamma : Point} {c s : ℕ}
    (hY : N.fromBytes pk = .ok Y) (hH : N.encodeToCurveTAI pk alpha = .ok H)
    (hc : c < 256 ^ cLen) (hs : s < curveOrder) :
    N.verifierString pk alpha (N.encodeProof Gamma c s) =
      .ok (N.challengeString Y H Gamma (PrimeOrder.commitment N.base Y c s)
        (PrimeOrder.commitment H Gamma c s)) := by
  obtain ⟨h1, h2, h3⟩ := N.encodeProof_slices Gamma hc (hs.trans curveOrder_lt_pow_qLen)
  rw [verifierString, hY, h1, h2, h3, N.fromBytes_toBytes, hH]
  rfl

/-! ### Bad answers -/

/-- The answers that accept a `Γ` other than `x·H`: the points in the string are recomputed
from the challenge in the answer. -/
def badAnswers (d : ChallengeString) : Set (ByteVec 64) :=
  {a | ∃ (x : ℕ) (H Gamma : Point) (s : ℕ), PrimeSubgroup H ∧ PrimeSubgroup Gamma ∧
    Gamma ≠ x • H ∧ d = N.challengeString (x • N.base) H Gamma
      (PrimeOrder.commitment N.base (x • N.base) (challengeOf a) s)
      (PrimeOrder.commitment H Gamma (challengeOf a) s)}

/-- **One challenge is bad at most**: a string determines its points, and two challenges for
one pair of recomputed points are the proof of `Γ = x·H`. -/
lemma challengeOf_eq_of_bad {d : ChallengeString} {a b : ByteVec 64} (ha : a ∈ N.badAnswers d)
    (hb : b ∈ N.badAnswers d) : challengeOf a = challengeOf b := by
  obtain ⟨x, H, Gamma, s, hH, hGamma, hne, rfl⟩ := ha
  obtain ⟨x', H', Gamma', s', -, -, -, hd⟩ := hb
  obtain ⟨hY, rfl, rfl, hU, hV⟩ := N.challengeInput_inj (congrArg Subtype.val hd)
  rw [← hY] at hU
  by_contra hcc
  exact hne (PrimeOrder.eq_nsmul_of_commitment_eq N.base_torsion N.base_ne_zero hH.torsion
    hGamma.torsion ((challengeOf_lt a).trans pow_cLen_lt_curveOrder)
    ((challengeOf_lt b).trans pow_cLen_lt_curveOrder) hcc hU hV)

/-- So the bad answers to a string differ in their last 48 bytes only. -/
lemma badAnswers_ncard (d : ChallengeString) : (N.badAnswers d).ncard ≤ 256 ^ 48 :=
  ncard_le_of_take (m := 16) (n := 48) fun _ ha _ hb =>
    take_eq_of_challengeOf (N.challengeOf_eq_of_bad ha hb)

/-! ### Genuine proofs -/

/-- The proof encodes `Γ = x·H` for the logarithm `x` of the key and the point `H` of the
input. -/
def Genuine (pk alpha proof : Bytes) : Prop :=
  ∃ (x : ℕ) (H : Point) (c s : ℕ), N.fromBytes pk = .ok (x • N.base) ∧
    N.encodeToCurveTAI pk alpha = .ok H ∧ PrimeSubgroup (x • H) ∧ c < 256 ^ cLen ∧
    s < curveOrder ∧ proof = N.encodeProof (x • H) c s

/-- **Genuine proofs have one output.** -/
lemma Genuine.vrfProofToHash_eq {pk alpha proof proof' : Bytes} (h : N.Genuine pk alpha proof)
    (h' : N.Genuine pk alpha proof') : N.vrfProofToHash proof = N.vrfProofToHash proof' := by
  obtain ⟨x, H, c, s, hY, hH, hGamma, hc, hs, rfl⟩ := h
  obtain ⟨x', H', c', s', hY', hH', hGamma', hc', hs', rfl⟩ := h'
  obtain rfl : H = H' := Except.ok.inj (hH.symm.trans hH')
  have hbase : x • N.base = x' • N.base := Except.ok.inj (hY.symm.trans hY')
  rw [N.vrfProofToHash_encodeProof hGamma hc hs, N.vrfProofToHash_encodeProof hGamma' hc' hs',
    N.nsmul_eq_of_base hbase (N.primeSubgroup_of_encodeToCurveTAI hH)]

/-- **Only a bad answer accepts a proof that is not genuine.** -/
lemma genuine_or_bad {f : ChallengeString → ByteVec 64} {pk alpha proof : Bytes}
    (h : (N.withChallenges f).verifyVRF pk alpha proof = .ok true) :
    (N.withChallenges f).Genuine pk alpha proof ∨
      ∃ d, N.verifierString pk alpha proof = .ok d ∧ f d ∈ N.badAnswers d := by
  obtain ⟨Y, H, Gamma, c, s, hY, hH, hGamma, hc, hs, rfl, heq⟩ :=
    (N.verifyVRF_withChallenges_iff f _ _ _).mp h
  obtain ⟨x, -, -, rfl⟩ := hY.2.exists_scalar N
  by_cases hne : Gamma = x • H
  · subst hne
    exact .inl ⟨x, H, c, s, hY.1, (N.withChallenges_encodeToCurveTAI f pk alpha).trans hH, hGamma,
      hc, hs, rfl⟩
  · -- the challenge of the proof is the one in the answer
    refine .inr ⟨_, N.verifierString_encodeProof hY.1 hH hc hs, x, H, Gamma, s,
      N.primeSubgroup_of_encodeToCurveTAI hH, hGamma, hne, ?_⟩
    rw [← heq]

/-! ### The bound -/

/-- What an operator puts forward: a key, an input and two proofs. -/
structure TwoProofs where
  pk : Bytes
  alpha : Bytes
  proof : Bytes
  proof' : Bytes

/-- Both proofs are accepted, and their outputs are different. -/
def Equivocates (p : TwoProofs) : Prop :=
  N.verifyVRF p.pk p.alpha p.proof = .ok true ∧ N.verifyVRF p.pk p.alpha p.proof' = .ok true ∧
    N.vrfProofToHash p.proof ≠ N.vrfProofToHash p.proof'

/-- The strings that the verifier hashes for the two proofs. -/
def TwoProofs.strings (p : TwoProofs) : List ChallengeString :=
  (N.verifierString p.pk p.alpha p.proof).toOption.toList ++
    (N.verifierString p.pk p.alpha p.proof').toOption.toList

lemma TwoProofs.strings_length (p : TwoProofs) : (p.strings N).length ≤ 2 := by
  have hone : ∀ o : Option ChallengeString, o.toList.length ≤ 1 := fun o => by cases o <;> simp
  rw [strings, List.length_append]
  exact Nat.add_le_add (hone _) (hone _)

/-- Whoever equivocates has asked, or the verifier asks, a question with a bad answer. -/
lemma meets_of_equivocates {f : ChallengeString → ByteVec 64}
    {T : Asks ChallengeString (ByteVec 64) TwoProofs}
    (h : (N.withChallenges f).Equivocates (T.run f)) :
    (T.alsoAsk (TwoProofs.strings N)).Meets N.badAnswers f := by
  obtain ⟨hproof, hproof', hne⟩ := h
  have hbad : ∃ d ∈ (T.run f).strings N, f d ∈ N.badAnswers d := by
    simp only [TwoProofs.strings, List.mem_append]
    rcases N.genuine_or_bad hproof with hgenuine | ⟨d, hd, hbad⟩
    · rcases N.genuine_or_bad hproof' with hgenuine' | ⟨d, hd, hbad⟩
      · exact absurd (hgenuine.vrfProofToHash_eq _ hgenuine') hne
      · exact ⟨d, .inr (by rw [hd]; exact List.mem_singleton.mpr rfl), hbad⟩
    · exact ⟨d, .inl (by rw [hd]; exact List.mem_singleton.mpr rfl), hbad⟩
  obtain ⟨d, hd, hbad⟩ := hbad
  refine ⟨d, ?_, hbad⟩
  rw [Asks.asked_alsoAsk]
  exact List.mem_append_right _ hd

/-- **One output for a key and an input.** An operator who asks for at most `n` challenges,
each chosen from the answers so far, puts forward two accepted proofs of one key and one input
with different outputs for at most a fraction `(n + 2) / 2 ^ 128` of all ways to answer. The
operator may know every secret key, and the key may be any that the verifier accepts. -/
theorem outputs_unique {n : ℕ} {T : Asks ChallengeString (ByteVec 64) TwoProofs}
    (hT : T.AtMost n) :
    {f | (N.withChallenges f).Equivocates (T.run f)}.ncard * 2 ^ 128 ≤
      (n + 2) * Nat.card (ChallengeString → ByteVec 64) := by
  have hle := ncard_meets_le N.badAnswers_ncard (hT.alsoAsk (TwoProofs.strings_length N))
  have hsub : {f | (N.withChallenges f).Equivocates (T.run f)}.ncard ≤
      {f | (T.alsoAsk (TwoProofs.strings N)).Meets N.badAnswers f}.ncard :=
    Set.ncard_le_ncard fun _ h => N.meets_of_equivocates h
  rw [card_byteVec] at hle
  refine Nat.le_of_mul_le_mul_right ?_ (show 0 < 256 ^ 48 by norm_num)
  calc {f | (N.withChallenges f).Equivocates (T.run f)}.ncard * 2 ^ 128 * 256 ^ 48
      = {f | (N.withChallenges f).Equivocates (T.run f)}.ncard * 256 ^ 64 := by
        rw [Nat.mul_assoc]
        norm_num
    _ ≤ {f | (T.alsoAsk (TwoProofs.strings N)).Meets N.badAnswers f}.ncard * 256 ^ 64 :=
        Nat.mul_le_mul_right _ hsub
    _ ≤ (n + 2) * Nat.card (ChallengeString → ByteVec 64) * 256 ^ 48 := by
        rwa [Nat.mul_right_comm]

/-- Under the key with scalar `5` and on the input `[7]`, an operator asks for the challenge of
the nonce `1`, and puts forward the proof with that nonce and one with another `Γ`. -/
def sampleOperator : Asks ChallengeString (ByteVec 64) TwoProofs :=
  .ask (sample.challengeString (5 • sample.base) samplePoint (5 • samplePoint) sample.base
      samplePoint) fun a =>
    let s := PrimeOrder.response curveOrder 5 1 (challengeOf a)
    .done {
      pk := sample.toBytes (5 • sample.base)
      alpha := [7]
      proof := sample.encodeProof (5 • samplePoint) (challengeOf a) s
      proof' := sample.encodeProof sample.base (challengeOf a) s }

/-- The operator's one question and the verifier's two make a bound of `3 / 2 ^ 128`. -/
theorem outputs_unique_sample :
    {f | (sample.withChallenges f).Equivocates (sampleOperator.run f)}.ncard * 2 ^ 128 ≤
      (1 + 2) * Nat.card (ChallengeString → ByteVec 64) :=
  sample.outputs_unique (n := 1) fun _ => trivial

end Noble

end CcVrf
