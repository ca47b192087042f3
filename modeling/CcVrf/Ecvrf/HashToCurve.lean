import CcVrf.Ecvrf.Vrf
import CcVrf.Library.BoundedSearch

/-!
What try-and-increment returns (`packages/ecvrf/src/hashToCurve.ts`).

* `Qualifies`: a counter qualifies with a point when the first half of its hash decodes
  to that point and the cofactor does not kill it.
* `tryCounter`: one round of the loop without its control flow;
  `encodeToCurveTAIWith.loop_eq_search`: the loop with its two ways to go on is the search
  for the first round that gives a point.
* `encodeToCurveTAI_spec`: **the function returns the cleared point of the least
  qualifying counter**, a point of the prime-order subgroup, and throws exactly when no
  counter qualifies.
-/

namespace CcVrf

namespace Noble

open BoundedSearch

variable {Point : Type} [AddCommGroup Point] (N : Noble Point)

/-- Counter `ctr` qualifies with the point `P`: the first 32 bytes of the hash of
`0x03 || 0x01 || salt || alpha || ctr || 0x00` decode to `P`, and `8·P` is not the
identity. -/
structure Qualifies (salt alpha : Bytes) (ctr : ℕ) (P : Point) : Prop where
  decodes : N.fromBytes
    ((N.sha512 ([0x03, 0x01] ++ salt ++ alpha ++ [UInt8.ofNat ctr, 0x00])).val.take 32) = .ok P
  cleared : 8 • P ≠ 0

/-- The point that one round of the loop returns, if it does. -/
def tryCounter (salt alpha : Bytes) (ctr : ℕ) : Option Point :=
  match N.fromBytes (slice (N.sha512 (encodeToCurveInput salt alpha ctr)).val 0 ptLen) with
  | .error _ => none
  | .ok point => if N.equals (cofactor • point) 0 then none else some (cofactor • point)

variable {N} {salt alpha : Bytes} {ctr : ℕ}

/-- The string that the source concatenates, written out. -/
lemma encodeToCurveInput_eq (salt alpha : Bytes) (ctr : ℕ) :
    encodeToCurveInput salt alpha ctr =
      [0x03, 0x01] ++ salt ++ alpha ++ [UInt8.ofNat ctr, 0x00] := by
  simp [encodeToCurveInput, concatBytes, suiteString, encodeToCurveDstFront, encodeToCurveDstBack]

/-- A round returns the cleared point of a counter that qualifies, and nothing else. -/
lemma tryCounter_eq_some_iff {H : Point} : N.tryCounter salt alpha ctr = some H ↔
    ∃ P, N.Qualifies salt alpha ctr P ∧ H = 8 • P := by
  rw [tryCounter, encodeToCurveInput_eq]
  constructor
  · intro h
    split at h
    next => cases h
    next point hpoint =>
      split_ifs at h with hzero
      cases h
      exact ⟨point, ⟨hpoint, fun h0 => hzero ((N.equals_iff _ _).mpr h0)⟩, rfl⟩
  · rintro ⟨P, hP, rfl⟩
    have hdecodes := hP.decodes
    have hzero : N.equals (cofactor • P) 0 ≠ true := fun h => hP.cleared ((N.equals_iff _ _).mp h)
    rw [slice, List.drop_zero, ptLen, hdecodes]
    exact if_neg hzero

/-- A round goes on to the next exactly when its counter does not qualify. -/
lemma tryCounter_eq_none_iff :
    N.tryCounter salt alpha ctr = none ↔ ∀ P, ¬N.Qualifies salt alpha ctr P := by
  constructor
  · intro h P hP
    have hsome := tryCounter_eq_some_iff.mpr ⟨P, hP, rfl⟩
    rw [h] at hsome
    cases hsome
  · intro h
    by_contra hne
    obtain ⟨H, hH⟩ := Option.ne_none_iff_exists'.mp hne
    obtain ⟨P, hP, -⟩ := tryCounter_eq_some_iff.mp hH
    exact h P hP

/-- **The loop is a search**: a failed decoding and a point that the cofactor kills alike
move on to the next counter. -/
lemma encodeToCurveTAIWith.loop_eq_search (remaining ctr : ℕ) :
    encodeToCurveTAIWith.loop N N.multiply salt alpha remaining ctr =
      (search (N.tryCounter salt alpha) ctr remaining).elim
        (.error "encode_to_curve_TAI: exceeded max counter without finding valid point") .ok := by
  induction remaining generalizing ctr with
  | zero => rfl
  | succ remaining ih =>
      simp only [encodeToCurveTAIWith.loop]
      split
      next e he =>
        have hnone : N.tryCounter salt alpha ctr = none := by rw [tryCounter, he]
        rw [search_succ_of_none hnone, ih]
      next point hpoint =>
        rw [N.multiply_cofactor, ok_bind]
        split_ifs with hzero
        · have hnone : N.tryCounter salt alpha ctr = none := by
            rw [tryCounter, hpoint]
            exact if_pos hzero
          rw [search_succ_of_none hnone, ih]
        · have hsome : N.tryCounter salt alpha ctr = some (cofactor • point) := by
            rw [tryCounter, hpoint]
            exact if_neg hzero
          rw [search_succ_of_some hsome]
          rfl

lemma encodeToCurveTAI_eq_ok_iff {H : Point} : N.encodeToCurveTAI salt alpha = .ok H ↔
    search (N.tryCounter salt alpha) 0 maxCtr = some H := by
  rw [encodeToCurveTAI, encodeToCurveTAIWith, encodeToCurveTAIWith.loop_eq_search]
  cases search (N.tryCounter salt alpha) 0 maxCtr with
  | none => simp
  | some K => simp

/-- The search throws exactly when no counter qualifies. -/
lemma encodeToCurveTAI_throws_iff : (∃ e, N.encodeToCurveTAI salt alpha = .error e) ↔
    ∀ ctr ≤ 255, ∀ P, ¬N.Qualifies salt alpha ctr P := by
  have hnone : (∃ e, N.encodeToCurveTAI salt alpha = .error e) ↔
      search (N.tryCounter salt alpha) 0 maxCtr = none := by
    rw [encodeToCurveTAI, encodeToCurveTAIWith, encodeToCurveTAIWith.loop_eq_search]
    cases search (N.tryCounter salt alpha) 0 maxCtr with
    | none => simp
    | some K => simp
  rw [hnone, search_eq_none_iff]
  simp only [tryCounter_eq_none_iff, Nat.zero_le, forall_const, Nat.zero_add, maxCtr,
    show ∀ k, k < 256 ↔ k ≤ 255 from fun k => Nat.lt_succ_iff]

/-- **Try-and-increment.** The result is the cleared point of the least counter up to 255
that qualifies; it is a nonidentity point of the prime-order subgroup; and the function
throws exactly when no counter up to 255 qualifies. -/
theorem encodeToCurveTAI_spec (N : Noble Point) (salt alpha : Bytes) :
    (∀ H, N.encodeToCurveTAI salt alpha = .ok H ↔
      ∃ ctr P, ctr ≤ 255 ∧ N.Qualifies salt alpha ctr P ∧
        (∀ earlier < ctr, ∀ Q, ¬N.Qualifies salt alpha earlier Q) ∧ H = 8 • P) ∧
    (∀ H, N.encodeToCurveTAI salt alpha = .ok H → H ≠ 0 ∧ curveOrder • H = 0) ∧
    ((∃ e, N.encodeToCurveTAI salt alpha = .error e) ↔
      ∀ ctr ≤ 255, ∀ P, ¬N.Qualifies salt alpha ctr P) := by
  refine ⟨fun H => ?_, fun H hH => ?_, encodeToCurveTAI_throws_iff⟩
  · rw [encodeToCurveTAI_eq_ok_iff, search_eq_some_iff]
    constructor
    · rintro ⟨ctr, hlt, hfirst⟩
      obtain ⟨P, hP, rfl⟩ := tryCounter_eq_some_iff.mp hfirst.succeeds
      rw [maxCtr] at hlt
      exact ⟨ctr, P, by omega, hP,
        fun j hj => tryCounter_eq_none_iff.mp (hfirst.before j (Nat.zero_le j) hj), rfl⟩
    · rintro ⟨ctr, P, hle, hP, hbefore, rfl⟩
      rw [maxCtr]
      exact ⟨ctr, by omega, Nat.zero_le ctr, tryCounter_eq_some_iff.mpr ⟨P, hP, rfl⟩,
        fun j _ hj => tryCounter_eq_none_iff.mpr (hbefore j hj)⟩
  · have hsub := N.primeSubgroup_of_encodeToCurveTAI hH
    exact ⟨hsub.ne_zero, hsub.torsion⟩

end Noble

end CcVrf
