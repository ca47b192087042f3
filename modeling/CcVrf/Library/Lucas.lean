import Mathlib.Tactic
import Mathlib.NumberTheory.LucasPrimality

/-!
Primality by Lucas witnesses, in a form the kernel evaluates.

* `powMod`: modular powers by repeated squaring; `powMod_eq` says that they are
  the powers once the exponent fits in the fuel.
* `lucasTest`: the test of one number `p` against a base `a` and the list of the
  prime factors of `p - 1`, with multiplicity.
* `prime_of_lucasTest`: a number that passes, with prime factors, is prime.
* `Certificate`, `certified`: a chain of such tests, in which the factors of each
  number are known primes or were certified before it; `prime_of_certified` says
  that it certifies primes.
-/

namespace Lucas

/-- `acc · a^n` modulo `m`, by repeated squaring with one squaring per unit of
fuel. -/
def powMod (m : ℕ) : ℕ → ℕ → ℕ → ℕ → ℕ
  | 0, acc, _, _ => acc % m
  | fuel + 1, acc, a, n =>
      powMod m fuel (if n % 2 = 1 then acc * a % m else acc) (a * a % m) (n / 2)

/-- Repeated squaring computes the power of every exponent below `2^fuel`. -/
lemma powMod_eq (m : ℕ) : ∀ fuel acc a n, n < 2 ^ fuel →
    powMod m fuel acc a n = acc * a ^ n % m := by
  intro fuel
  induction fuel with
  | zero =>
      intro acc a n hn
      have h0 : n = 0 := by simpa using hn
      simp [powMod, h0]
  | succ fuel ih =>
      intro acc a n hn
      have hlt : n / 2 < 2 ^ fuel := by rw [pow_succ] at hn; omega
      have hsq : (a * a % m) ^ (n / 2) ≡ a ^ (2 * (n / 2)) [MOD m] := by
        rw [pow_mul, pow_two]
        exact (Nat.mod_modEq (a * a) m).pow (n / 2)
      rw [powMod, ih _ _ _ hlt]
      by_cases hodd : n % 2 = 1
      · have hn' : n = 2 * (n / 2) + 1 := by omega
        rw [if_pos hodd]
        calc acc * a % m * (a * a % m) ^ (n / 2) ≡ acc * a * a ^ (2 * (n / 2)) [MOD m] :=
              (Nat.mod_modEq _ m).mul hsq
          _ = acc * a ^ n := by conv_rhs => rw [hn', pow_succ]
                                ring
      · have hn' : n = 2 * (n / 2) := by omega
        rw [if_neg hodd]
        conv_rhs => rw [hn']
        exact hsq.mul_left acc

/-- Lucas's test of `p`: the listed factors multiply to `p - 1`, the base `a` has
`a^(p-1) = 1`, and no `a^((p-1)/f)` is `1`. -/
def lucasTest (bits p a : ℕ) (factors : List ℕ) : Bool :=
  2 ≤ p && p ≤ 2 ^ bits && factors.prod == p - 1 && powMod p bits 1 a (p - 1) == 1 &&
    factors.all fun f => powMod p bits 1 a ((p - 1) / f) != 1

/-- A power of a residue is `1` in `ZMod p` exactly when its remainder is. -/
lemma natCast_pow_eq_one_iff {p : ℕ} (hp : 2 ≤ p) (a n : ℕ) :
    (a : ZMod p) ^ n = 1 ↔ a ^ n % p = 1 := by
  rw [← Nat.cast_pow, ← Nat.cast_one, ZMod.natCast_eq_natCast_iff, Nat.ModEq,
    Nat.mod_eq_of_lt (show 1 < p by omega)]

/-- **Lucas's test is sound**: a number that passes it with prime factors is
prime. -/
theorem prime_of_lucasTest {p : ℕ} (bits a : ℕ) (factors : List ℕ)
    (h : lucasTest bits p a factors = true) (hf : ∀ f ∈ factors, f.Prime) : p.Prime := by
  simp only [lucasTest, Bool.and_eq_true, decide_eq_true_eq, beq_iff_eq, List.all_eq_true,
    bne_iff_ne, ne_eq] at h
  obtain ⟨⟨⟨⟨hp, hbits⟩, hprod⟩, hone⟩, hall⟩ := h
  have hpow : ∀ n ≤ p - 1, powMod p bits 1 a n = a ^ n % p := fun n hn => by
    rw [powMod_eq p bits 1 a n (by omega), one_mul]
  refine lucas_primality p (a : ZMod p) ?_ ?_
  · rw [natCast_pow_eq_one_iff hp, ← hpow _ le_rfl]
    exact hone
  · intro r hr hdvd
    rw [← hprod] at hdvd
    -- a prime factor of the product is one of the listed primes
    have hmem : r ∈ factors :=
      mem_list_primes_of_dvd_prod hr.prime (fun f hfm => (hf f hfm).prime) hdvd
    rw [ne_eq, natCast_pow_eq_one_iff hp, ← hpow _ (Nat.div_le_self _ _)]
    exact hall r hmem

/-- A Lucas test to be made: a number with at most `bits` bits, a base and the prime
factors of its predecessor. -/
structure Certificate where
  number : ℕ
  bits : ℕ
  base : ℕ
  factors : List ℕ

/-- A chain of certificates over known primes. -/
def certified : List ℕ → List Certificate → Bool
  | _, [] => true
  | known, c :: cs =>
      lucasTest c.bits c.number c.base c.factors && c.factors.all known.contains &&
        certified (c.number :: known) cs

/-- **A chain certifies primes.** -/
theorem prime_of_certified {known : List ℕ} {cs : List Certificate}
    (hknown : ∀ p ∈ known, p.Prime) (h : certified known cs = true) :
    ∀ c ∈ cs, c.number.Prime := by
  induction cs generalizing known with
  | nil => exact fun c hc => nomatch hc
  | cons c cs ih =>
      simp only [certified, Bool.and_eq_true, List.all_eq_true, List.contains_iff_mem] at h
      obtain ⟨⟨htest, hfactors⟩, hrest⟩ := h
      have hc : c.number.Prime :=
        prime_of_lucasTest _ _ _ htest fun f hf => hknown f (hfactors f hf)
      have hknown' : ∀ p ∈ c.number :: known, p.Prime :=
        List.forall_mem_cons.mpr ⟨hc, hknown⟩
      exact List.forall_mem_cons.mpr ⟨hc, ih hknown' hrest⟩

end Lucas
