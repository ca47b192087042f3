import Mathlib.Data.Fintype.Perm
import Mathlib.Data.Fintype.BigOperators
import Mathlib.Algebra.BigOperators.Fin
import Mathlib.Tactic

/-!
The permutations of the Fisher–Yates shuffle of `n` positions.

* `Choices`: for each position but the first an index up to it.
* `permTo`, `perm`: the swap of each position with the index chosen for it, from a
  position down to the second one, and from the last position down.
* `perm_bijective`: **every permutation comes from exactly one row of choices.**
* `indices`: the choices in the order in which the shuffle makes them;
  `exists_choices` is that every row of indices that are small enough is one.
-/

namespace FisherYates

open Equiv

variable {n : ℕ}

/-- An index up to `i + 1` for each position `i + 1`. -/
abbrev Choices (n : ℕ) := (i : Fin (n - 1)) → Fin (i + 2)

/-- Position `i + 1`. -/
def position (i : Fin (n - 1)) : Fin n := ⟨i + 1, by omega⟩

/-- The position that is swapped with it. -/
def target (c : Choices n) (i : Fin (n - 1)) : Fin n := (c i).castLE (by omega)

/-- The swaps of the positions from `k` down to `1`, the highest one first. -/
def permTo (c : Choices n) : (k : ℕ) → k ≤ n - 1 → Perm (Fin n)
  | 0, _ => 1
  | k + 1, h => swap (position ⟨k, h⟩) (target c ⟨k, h⟩) * permTo c k (Nat.le_of_succ_le h)

/-- The permutation of a row of choices. -/
def perm (c : Choices n) : Perm (Fin n) := permTo c (n - 1) le_rfl

/-- Positions above `k` stay where they are. -/
lemma permTo_of_lt (c : Choices n) {k : ℕ} (h : k ≤ n - 1) {i : Fin n} (hi : k < i) :
    permTo c k h i = i := by
  induction k with
  | zero => rfl
  | succ k ih =>
      rw [permTo, Perm.mul_apply, ih (Nat.le_of_succ_le h) (by omega)]
      refine swap_apply_of_ne_of_ne (fun heq => ?_) (fun heq => ?_)
      · rw [heq] at hi
        exact absurd hi (lt_irrefl (k + 1))
      · have hlt : (target c ⟨k, h⟩ : ℕ) < k + 2 := (c ⟨k, h⟩).isLt
        rw [← heq] at hlt
        omega

/-- The highest position is sent to the index chosen for it. -/
lemma permTo_succ_apply (c : Choices n) {k : ℕ} (h : k + 1 ≤ n - 1) :
    permTo c (k + 1) h (position ⟨k, h⟩) = target c ⟨k, h⟩ := by
  rw [permTo, Perm.mul_apply, permTo_of_lt c _ (show k < k + 1 from Nat.lt_succ_self k),
    swap_apply_left]

/-- The swaps depend on the choices for their positions only, and determine them. -/
lemma permTo_eq_iff {c c' : Choices n} {k : ℕ} (h : k ≤ n - 1) :
    permTo c k h = permTo c' k h ↔ ∀ i : Fin (n - 1), (i : ℕ) < k → c i = c' i := by
  induction k with
  | zero =>
      constructor
      · intro _ i hi
        exact absurd hi (Nat.not_lt_zero i)
      · intro _
        rfl
  | succ k ih =>
      constructor
      · intro heq
        have htop : target c ⟨k, h⟩ = target c' ⟨k, h⟩ := by
          rw [← permTo_succ_apply c h, heq, permTo_succ_apply c' h]
        rw [permTo, permTo, htop] at heq
        have hbelow := (ih (Nat.le_of_succ_le h)).mp (mul_left_cancel heq)
        intro i hi
        rcases Nat.lt_succ_iff_lt_or_eq.mp hi with hlt | rfl
        · exact hbelow i hlt
        · exact Fin.castLE_injective _ htop
      · intro hc
        have htop : target c ⟨k, h⟩ = target c' ⟨k, h⟩ := by
          rw [target, target, hc ⟨k, h⟩ (Nat.lt_succ_self k)]
        rw [permTo, permTo, htop,
          (ih (Nat.le_of_succ_le h)).mpr fun i hi => hc i (Nat.lt_succ_of_lt hi)]

/-- The first position has no choice. -/
lemma factorial_pred_add_one (n : ℕ) : (n - 1 + 1).factorial = n.factorial := by
  cases n with
  | zero => rfl
  | succ n => rfl

/-- There are as many rows of choices as permutations. -/
lemma card_choices (n : ℕ) : Fintype.card (Choices n) = n.factorial := by
  have hprod : ∀ m, ∏ i ∈ Finset.range m, (i + 2) = (m + 1).factorial := fun m => by
    rw [← Finset.prod_range_add_one_eq_factorial, Finset.prod_range_succ', zero_add, mul_one]
  rw [Fintype.card_pi, Finset.prod_congr rfl fun i _ => Fintype.card_fin _,
    Fin.prod_univ_eq_prod_range (fun i => i + 2) (n - 1), hprod, factorial_pred_add_one]

/-- **Each permutation comes from exactly one row of choices.** -/
theorem perm_bijective (n : ℕ) : Function.Bijective (perm : Choices n → Perm (Fin n)) := by
  rw [Fintype.bijective_iff_injective_and_card]
  constructor
  · intro c c' h
    funext i
    exact (permTo_eq_iff le_rfl).mp h i i.isLt
  · rw [card_choices, Fintype.card_perm, Fintype.card_fin]

/-! ### The choices in their order -/

/-- The indices chosen for the positions from `k` down to `1`. -/
def indices (c : Choices n) : (k : ℕ) → k ≤ n - 1 → List ℕ
  | 0, _ => []
  | k + 1, h => c ⟨k, h⟩ :: indices c k (Nat.le_of_succ_le h)

/-- All indices, from the last position down. -/
abbrev allIndices (c : Choices n) : List ℕ := indices c (n - 1) le_rfl

/-- The indices depend on the choices for their positions only. -/
lemma indices_congr {c c' : Choices n} {k : ℕ} (h : k ≤ n - 1)
    (hc : ∀ i : Fin (n - 1), (i : ℕ) < k → c i = c' i) : indices c k h = indices c' k h := by
  induction k with
  | zero => rfl
  | succ k ih =>
      rw [indices, indices, hc ⟨k, h⟩ (Nat.lt_succ_self k),
        ih (Nat.le_of_succ_le h) fun i hi => hc i (Nat.lt_succ_of_lt hi)]

/-- How many indices there are for the positions from `k` down to `1`. -/
def bounds : ℕ → List ℕ
  | 0 => []
  | k + 1 => (k + 1 + 1) :: bounds k

lemma indices_lt (c : Choices n) {k : ℕ} (h : k ≤ n - 1) :
    List.Forall₂ (· < ·) (indices c k h) (bounds k) := by
  induction k with
  | zero => exact .nil
  | succ k ih => exact .cons (c ⟨k, h⟩).isLt (ih (Nat.le_of_succ_le h))

/-- Every row of indices below the bounds is a row of choices. -/
lemma exists_choices {k : ℕ} (h : k ≤ n - 1) {js : List ℕ}
    (hjs : List.Forall₂ (· < ·) js (bounds k)) : ∃ c : Choices n, indices c k h = js := by
  induction k generalizing js with
  | zero =>
      cases hjs
      exact ⟨fun _ => 0, rfl⟩
  | succ k ih =>
      cases hjs with
      | @cons j _ js _ hj hjs =>
          obtain ⟨c, rfl⟩ := ih (Nat.le_of_succ_le h) hjs
          refine ⟨Function.update c ⟨k, h⟩ ⟨j, hj⟩, ?_⟩
          rw [indices, Function.update_self]
          refine congrArg (j :: ·) (indices_congr _ fun i hi => Function.update_of_ne ?_ _ _)
          rintro rfl
          exact absurd hi (lt_irrefl k)

/-- The product of the bounds. -/
lemma prod_bounds (k : ℕ) : (bounds k).prod = (k + 1).factorial := by
  induction k with
  | zero => rfl
  | succ k ih => rw [bounds, List.prod_cons, ih, Nat.factorial_succ (k + 1)]

end FisherYates
