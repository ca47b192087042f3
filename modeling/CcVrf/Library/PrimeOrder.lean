import Mathlib.Tactic
import Mathlib.GroupTheory.OrderOfElement

/-!
Multiples in the `q`-torsion of a commutative group, `q` prime, and the algebra
of a proof that two points have the same discrete logarithm to two bases.

* `nsmul_congr`, `nsmul_mod`: on a `q`-torsion point a multiple depends on the
  scalar modulo `q` only.
* `nsmul_eq_zero_iff`, `nsmul_ne_zero`: a nonzero `q`-torsion point has order exactly
  `q`, so the scalars from `1` to `q - 1` do not kill it.
* `eq_zero_of_coprime`, `nsmul_inj_of_coprime`: the `q`-torsion meets the torsion of a
  coprime order in `0` only, the reason why clearing a cofactor loses nothing.
* `response`, `commitment`: the prover's answer `k + c·x` and the point
  `s·B - c·Y` which the verifier recomputes; `commitment_response` is
  completeness for every nonce `k`, and `response_inj` and `exists_nonce` say that
  nonces and answers correspond one to one.
* `eq_nsmul_of_commitment_eq` is special soundness: the recomputed points leave room
  for one challenge only, unless the second point has the right logarithm.
-/

namespace PrimeOrder

variable {G : Type*} [AddCommGroup G] {q : ℕ}

/-! ### Multiples of torsion points -/

/-- Scalars that agree modulo `q` give the same multiple of a `q`-torsion
point. -/
lemma nsmul_congr {P : G} (hP : q • P = 0) {m n : ℕ} (h : m ≡ n [MOD q]) : m • P = n • P := by
  rw [nsmul_eq_mod_nsmul m hP, nsmul_eq_mod_nsmul n hP, h]

/-- Reducing the scalar modulo `q` keeps the multiple. -/
lemma nsmul_mod {P : G} (hP : q • P = 0) (n : ℕ) : (n % q) • P = n • P :=
  nsmul_congr hP (Nat.mod_modEq n q)

/-- The torsion is closed under multiples. -/
lemma nsmul_torsion {P : G} (hP : q • P = 0) (n : ℕ) : q • (n • P) = 0 := by
  rw [smul_comm, hP, smul_zero]

/-- The torsion is closed under differences. -/
lemma sub_torsion {P Q : G} (hP : q • P = 0) (hQ : q • Q = 0) : q • (P - Q) = 0 := by
  rw [smul_sub, hP, hQ, sub_zero]

/-- The `q`-torsion and the torsion of a coprime order meet in `0`. -/
lemma eq_zero_of_coprime {m : ℕ} (h : Nat.Coprime m q) {P : G} (hm : m • P = 0)
    (hq : q • P = 0) : P = 0 := by
  have hdvd : addOrderOf P ∣ 1 := h ▸ Nat.dvd_gcd (addOrderOf_dvd_of_nsmul_eq_zero hm)
    (addOrderOf_dvd_of_nsmul_eq_zero hq)
  rwa [Nat.dvd_one, AddMonoid.addOrderOf_eq_one_iff] at hdvd

/-- On the `q`-torsion multiplication by a coprime scalar is injective. -/
lemma nsmul_inj_of_coprime {m : ℕ} (h : Nat.Coprime m q) {P Q : G} (hP : q • P = 0)
    (hQ : q • Q = 0) (hPQ : m • P = m • Q) : P = Q := by
  have hm : m • (P - Q) = 0 := by rw [smul_sub, hPQ, sub_self]
  exact sub_eq_zero.mp (eq_zero_of_coprime h hm (sub_torsion hP hQ))

section Prime

variable [hq : Fact q.Prime]

/-- A nonzero `q`-torsion point is killed exactly by the multiples of `q`. -/
lemma nsmul_eq_zero_iff {P : G} (hP : q • P = 0) (h0 : P ≠ 0) (n : ℕ) : n • P = 0 ↔ q ∣ n := by
  rw [← addOrderOf_dvd_iff_nsmul_eq_zero, addOrderOf_eq_prime hP h0]

/-- Scalars in `[1, q-1]` do not kill a nonzero `q`-torsion point. -/
lemma nsmul_ne_zero {P : G} (hP : q • P = 0) (h0 : P ≠ 0) {n : ℕ} (h1 : 1 ≤ n) (hn : n < q) :
    n • P ≠ 0 := by
  rw [Ne, nsmul_eq_zero_iff hP h0]
  exact Nat.not_dvd_of_pos_of_lt h1 hn

end Prime

/-! ### Equality of discrete logarithms -/

/-- The answer `k + c·x` modulo `q` of a prover with secret `x` and nonce `k` to
the challenge `c`. -/
def response (q x k c : ℕ) : ℕ := (k + c * x) % q

/-- The point `s·B - c·Y` recomputed from a challenge and an answer. -/
def commitment (B Y : G) (c s : ℕ) : G := s • B - c • Y

lemma response_lt (hq : 0 < q) (x k c : ℕ) : response q x k c < q := Nat.mod_lt _ hq

/-- **Completeness**: the recomputed point is the nonce's multiple of the base,
for every nonce and every challenge, `0` included. -/
theorem commitment_response {B : G} (hB : q • B = 0) (x k c : ℕ) :
    commitment B (x • B) c (response q x k c) = k • B := by
  rw [commitment, response, nsmul_mod hB, add_smul, mul_smul, add_sub_cancel_right]

/-- Two nonces below `q` that lead to the same challenge and the same answer are
equal. -/
lemma response_inj {x k k' c : ℕ} (hk : k < q) (hk' : k' < q)
    (h : response q x k c = response q x k' c) : k = k' := by
  have hmod : k ≡ k' [MOD q] := Nat.ModEq.add_right_cancel' (c * x) h
  rwa [Nat.ModEq, Nat.mod_eq_of_lt hk, Nat.mod_eq_of_lt hk'] at hmod

/-- Every answer below `q` belongs to a nonce: `s - c·x` modulo `q`, written with
`q - 1` for `-1`. -/
lemma exists_nonce (hq : 0 < q) (x c : ℕ) {s : ℕ} (hs : s < q) :
    ∃ k < q, response q x k c = s := by
  refine ⟨(s + c * x * (q - 1)) % q, Nat.mod_lt _ hq, ?_⟩
  have hsum : s + c * x * (q - 1) + c * x = s + q * (c * x) := by
    obtain ⟨m, rfl⟩ := Nat.exists_eq_add_of_lt hq
    rw [Nat.add_sub_cancel]
    ring
  rw [response, Nat.mod_add_mod, hsum, Nat.add_mul_mod_self_left, Nat.mod_eq_of_lt hs]

/-- **Special soundness**: two different challenges below `q` that lead to the same pair
of recomputed points show that `Γ` has the discrete logarithm of the key. -/
theorem eq_nsmul_of_commitment_eq [hq : Fact q.Prime] {B H Γ : G} (hB : q • B = 0) (hB0 : B ≠ 0)
    (hH : q • H = 0) (hΓ : q • Γ = 0) {x c c' s s' : ℕ} (hc : c < q) (hc' : c' < q) (hne : c ≠ c')
    (hU : commitment B (x • B) c s = commitment B (x • B) c' s')
    (hV : commitment H Γ c s = commitment H Γ c' s') : Γ = x • H := by
  -- the first equation fixes the difference of the answers modulo `q`
  have hdvd : (q : ℤ) ∣ ((s : ℤ) - s') - ((c : ℤ) - c') * x := by
    rw [← addOrderOf_eq_prime hB hB0, addOrderOf_dvd_iff_zsmul_eq_zero]
    have hzero : ((s : ℤ) - s') • B - ((c : ℤ) - c') • (x : ℤ) • B =
        commitment B (x • B) c s - commitment B (x • B) c' s' := by
      simp only [commitment, sub_smul, natCast_zsmul]
      abel
    rw [sub_smul, mul_smul, hzero, hU, sub_self]
  have hqH : (((s : ℤ) - s') - ((c : ℤ) - c') * x) • H = 0 := by
    obtain ⟨m, hm⟩ := hdvd
    rw [hm, mul_comm, mul_smul, natCast_zsmul, hH, smul_zero]
  -- with the second one, the difference of the challenges kills `Γ - x·H`
  have hkill : ((c : ℤ) - c') • (Γ - x • H) = 0 := by
    have hdiff : ((c : ℤ) - c') • (Γ - x • H) = (((s : ℤ) - s') - ((c : ℤ) - c') * x) • H -
        (commitment H Γ c s - commitment H Γ c' s') := by
      simp only [commitment, sub_smul, mul_smul, smul_sub, natCast_zsmul]
      abel
    rw [hdiff, hqH, hV, sub_self, sub_self]
  by_contra hΓH
  have htorsion : q • (Γ - x • H) = 0 := sub_torsion hΓ (nsmul_torsion hH x)
  rw [← addOrderOf_dvd_iff_zsmul_eq_zero, addOrderOf_eq_prime htorsion (sub_ne_zero.mpr hΓH)] at hkill
  have hlt : |(c : ℤ) - c'| < q := by
    rw [abs_lt]
    omega
  have hzero := Int.eq_zero_of_abs_lt_dvd hkill hlt
  exact hne (by omega)

end PrimeOrder
