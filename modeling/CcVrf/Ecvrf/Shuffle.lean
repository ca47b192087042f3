import CcVrf.Ecvrf.NextRange
import CcVrf.Library.FisherYates

/-!
`shuffle`: an unbiased permutation.

* `JsArray.permute`: the elements of an array in the order of a permutation;
  `swapAll_indices` carries out the swaps of the loop one by one.
* `exists_indices`: for at most `2^31` elements the indices drawn are a row of choices of
  the Fisher–Yates shuffle.
* `shuffle_permutes`, `shuffleTapes`: what a shuffle does for a list of words, and the lists
  of words that lead to a permutation.
* `shuffle_unbiased`: **the shuffle returns a new array with a permutation of the elements,
  and with independent uniform words each permutation has the same probability.**
-/

namespace CcVrf

open RejectionSampling FisherYates

variable {α : Type}

/-! ### The swaps of the loop -/

namespace JsArray

/-- The elements of an array in the order of a permutation of its positions. -/
def permute (arr : JsArray α) (σ : Equiv.Perm (Fin arr.length)) : JsArray α :=
  { arr with
    get := fun i =>
      if h : 0 ≤ i ∧ i < arr.length then arr.get (σ ⟨i.toNat, by omega⟩ : ℕ) else none }

variable {arr : JsArray α} {σ : Equiv.Perm (Fin arr.length)}

@[ext] lemma ext {a b : JsArray α} (hlen : a.length = b.length) (hget : ∀ i, a.get i = b.get i) :
    a = b := by
  obtain ⟨n, get, hn⟩ := a
  obtain ⟨m, get', hm⟩ := b
  obtain rfl : n = m := hlen
  obtain rfl : get = get' := funext hget
  rfl

/-- The element at a position. -/
lemma permute_get (i : Fin arr.length) : (arr.permute σ).get (i : ℕ) = arr.get (σ i : ℕ) := by
  have hi : (0 : ℤ) ≤ (i : ℕ) ∧ ((i : ℕ) : ℤ) < arr.length := by omega
  rw [permute]
  simp only [dif_pos hi, Int.toNat_natCast]

/-- There are no other properties. -/
lemma permute_get_of_not {i : ℤ} (hi : ¬(0 ≤ i ∧ i < arr.length)) :
    (arr.permute σ).get i = none := by
  rw [permute]
  simp only [dif_neg hi]

/-- A slice is the array in its own order. -/
lemma slice_eq_permute (arr : JsArray α) : arr.slice = arr.permute 1 := by
  refine ext rfl fun i => ?_
  rw [slice, permute]
  by_cases hi : 0 ≤ i ∧ i < arr.length
  · simp only [if_pos hi, dif_pos hi, Equiv.Perm.one_apply, Int.toNat_of_nonneg hi.1]
  · simp only [if_neg hi, dif_neg hi]

/-- **One round of the loop** swaps two positions of the permutation. -/
lemma swapElements_permute (i j : Fin arr.length) :
    swapElements (arr.permute σ) (i : ℕ) (j : ℕ) = arr.permute (σ * Equiv.swap i j) := by
  refine ext rfl fun k => ?_
  by_cases hk : 0 ≤ k ∧ k < arr.length
  · obtain ⟨m, rfl⟩ : ∃ m : Fin arr.length, ((m : ℕ) : ℤ) = k := ⟨⟨k.toNat, by omega⟩, by
      show (k.toNat : ℤ) = k
      omega⟩
    rw [permute_get, Equiv.Perm.mul_apply]
    simp only [swapElements, set]
    by_cases hj : m = j
    · subst hj
      rw [Function.update_self, Equiv.swap_apply_right, permute_get]
    · have hjk : ((m : ℕ) : ℤ) ≠ (j : ℕ) := fun h => hj (Fin.ext (by exact_mod_cast h))
      rw [Function.update_of_ne hjk]
      by_cases hi : m = i
      · subst hi
        rw [Function.update_self, Equiv.swap_apply_left, permute_get]
      · have hik : ((m : ℕ) : ℤ) ≠ (i : ℕ) := fun h => hi (Fin.ext (by exact_mod_cast h))
        rw [Function.update_of_ne hik, Equiv.swap_apply_of_ne_of_ne hi hj, permute_get]
  · rw [permute_get_of_not hk]
    have hjk : k ≠ (j : ℕ) := fun h => hk (by omega)
    have hik : k ≠ (i : ℕ) := fun h => hk (by omega)
    simp only [swapElements, set]
    rw [Function.update_of_ne hjk, Function.update_of_ne hik, permute_get_of_not hk]

end JsArray

/-- **The rounds of the loop** carry out the permutation of the choices. -/
lemma swapAll_indices {arr : JsArray α} (σ : Equiv.Perm (Fin arr.length)) (c : Choices arr.length)
    {k : ℕ} (hk : k ≤ arr.length - 1) :
    swapAll (arr.permute σ) k ((indices c k hk).map Nat.cast) =
      arr.permute (σ * permTo c k hk) := by
  induction k generalizing σ with
  | zero => rw [swapAll, permTo, mul_one]
  | succ k ih =>
      rw [indices, List.map_cons, swapAll, permTo, ← mul_assoc, ← ih]
      exact congrArg (fun out => swapAll out k _)
        (JsArray.swapElements_permute (position ⟨k, hk⟩) (target c ⟨k, hk⟩))

/-! ### The indices that are drawn -/

/-- The draw of an index is uniform. -/
lemma uniform_index {n : ℕ} (h0 : n ≠ 0) (hn : n ≤ 2 ^ 31) :
    Uniform (acceptWord 0 n) (Finset.Ico 0 (n : ℤ)) := by
  have hmax : |(0 : ℤ) + n| ≤ 2 ^ 53 - 1 := by
    rw [zero_add, abs_of_nonneg (Int.natCast_nonneg n)]
    omega
  have h := uniform_acceptWord h0 hn (by norm_num) hmax
  rwa [zero_add] at h

/-- The indices drawn are small enough for their positions. -/
lemma exists_indices {i : ℕ} (hi : i < 2 ^ 31) {ws : List ℕ} (hws : ∀ w ∈ ws, w < 2 ^ 32)
    {js : List ℤ} (h : consume (shuffleDraws i) ws = some js) :
    ∃ ks : List ℕ, js = ks.map Nat.cast ∧ List.Forall₂ (· < ·) ks (bounds i) := by
  induction i generalizing ws js with
  | zero =>
      obtain ⟨-, rfl⟩ := consume_nil_iff.mp h
      exact ⟨[], rfl, .nil⟩
  | succ i ih =>
      obtain ⟨rejected, w, rest, j, js, rfl, -, hw, hrest, rfl⟩ := consume_cons_iff.mp h
      obtain ⟨ks, rfl, hks⟩ := ih (by omega) (fun x hx => hws x (by simp [hx])) hrest
      have hj := (uniform_index (n := i + 1 + 1) (by omega) (by omega)).inside
        ⟨w, hws w (by simp)⟩ j hw
      rw [Finset.mem_Ico] at hj
      exact ⟨j.toNat :: ks, by rw [List.map_cons, Int.toNat_of_nonneg hj.1], .cons (by omega) hks⟩

/-- The indices of a row of choices, as the loop draws them. -/
abbrev choiceList {n : ℕ} (c : Choices n) : List ℤ := (allIndices c).map Nat.cast

/-- What is returned for a row of choices. -/
lemma shuffled_choiceList (heap : Heap α) (arr : ℕ) (c : Choices (heap.read arr).length) :
    shuffled heap arr (choiceList c) =
      (heap ++ [(heap.read arr).permute (perm c)], heap.length) := by
  rw [shuffled, JsArray.slice_eq_permute, swapAll_indices, one_mul]
  rfl

section Shuffle

variable {σ : Type} {nextU32 : Draw σ ℤ} {s s' : σ} (heap : Heap α) (arr : ℕ)

/-- **A shuffle that returns** has drawn a row of choices, and returns the elements in the
order of its permutation. -/
theorem shuffle_permutes (hsource : IsWordSource nextU32) (hn : (heap.read arr).length ≤ 2 ^ 31)
    {rounds : ℕ} {r : Except String (Heap α × ℕ)}
    (h : (shuffle nextU32 rounds heap arr).call s = some (r, s')) :
    ∃ (ws : List ℕ) (c : Choices (heap.read arr).length),
      r = .ok (heap ++ [(heap.read arr).permute (perm c)], heap.length) ∧
      Draws nextU32 s ws s' ∧
      consume (shuffleDraws ((heap.read arr).length - 1)) ws = some (choiceList c) := by
  obtain ⟨ws, js, rfl, hws, hjs⟩ := shuffle_returns hsource h
  obtain ⟨ks, rfl, hks⟩ := exists_indices (by omega) (hws.words_lt hsource) hjs
  obtain ⟨c, rfl⟩ := exists_choices le_rfl hks
  exact ⟨ws, c, by rw [shuffled_choiceList], hws, hjs⟩

/-- **A shuffle whose words are accepted returns.** -/
theorem shuffle_of_choices {ws : List ℕ} {c : Choices (heap.read arr).length}
    (hws : Draws nextU32 s ws s')
    (hc : consume (shuffleDraws ((heap.read arr).length - 1)) ws = some (choiceList c))
    {rounds : ℕ} (hlen : ws.length ≤ rounds) :
    (shuffle nextU32 rounds heap arr).call s =
      some (.ok (heap ++ [(heap.read arr).permute (perm c)], heap.length), s') := by
  rw [shuffle_of_consume hlen hws hc, shuffled_choiceList]

end Shuffle

/-! ### Uniform words -/

/-- The array of the first `n` numbers. -/
def positions (n : ℕ) (hn : n ≤ 2 ^ 31) : JsArray ℕ where
  length := n
  get i := if 0 ≤ i ∧ i < n then some i.toNat else none
  length_lt := by omega

section Tapes

variable {n : ℕ} (hn : n ≤ 2 ^ 31)

/-- The lists of `m` words for which the shuffle of `n` positions returns a given
permutation, after the last of the words. -/
def shuffleTapes (σ : Equiv.Perm (Fin n)) (m : ℕ) : Set (Fin m → Fin (2 ^ 32)) :=
  {tape | (shuffle tapeWord m [positions n hn] 0).call (List.ofFn tape) =
    some (.ok ([positions n hn, (positions n hn).permute σ], 1), [])}

lemma positions_permute_injective :
    Function.Injective ((positions n hn).permute : Equiv.Perm (Fin n) → JsArray ℕ) := by
  have hget : ∀ (σ : Equiv.Perm (Fin n)) (i : Fin n),
      ((positions n hn).permute σ).get (i : ℕ) = some (σ i : ℕ) := fun σ i => by
    refine (@JsArray.permute_get _ (positions n hn) σ i).trans ?_
    have hi : (0 : ℤ) ≤ (σ i : ℕ) ∧ ((σ i : ℕ) : ℤ) < n := by omega
    show (if (0 : ℤ) ≤ (σ i : ℕ) ∧ ((σ i : ℕ) : ℤ) < n then some ((σ i : ℕ) : ℤ).toNat else none) = _
    rw [if_pos hi, Int.toNat_natCast]
  intro σ τ h
  refine Equiv.ext fun i => Fin.ext ?_
  have hi := (hget σ i).symm.trans ((congrArg (fun a => a.get (i : ℕ)) h).trans (hget τ i))
  exact Option.some.inj hi

/-- The draws of a shuffle, on words of 32 bits. -/
def shuffleWords (i : ℕ) : List (Fin (2 ^ 32) → Option ℤ) :=
  (shuffleDraws i).map fun draw => draw ∘ Fin.val

/-- The lists of words are those that its row of choices uses up. -/
lemma mem_shuffleTapes_iff (c : Choices n) {m : ℕ} (tape : Fin m → Fin (2 ^ 32)) :
    tape ∈ shuffleTapes hn (perm c) m ↔
      consume (shuffleWords (n - 1)) (List.ofFn tape) = some (choiceList c) := by
  rw [shuffleWords, ← consume_map]
  constructor
  · intro h
    obtain ⟨ws, c', hr, hws, hc'⟩ :=
      shuffle_permutes [positions n hn] 0 tapeWord_isWordSource hn h
    rw [draws_tape_iff] at hws
    have harrays : (positions n hn).permute (perm c) = (positions n hn).permute (perm c') :=
      (List.cons.inj (List.cons.inj (Prod.mk.inj (Except.ok.inj hr)).1).2).1
    obtain rfl : c = c' := (perm_bijective n).1 (positions_permute_injective hn harrays)
    rwa [← hws]
  · intro h
    exact shuffle_of_choices [positions n hn] 0 (draws_tape_iff.mpr rfl) h (by simp)

lemma accept_comp_val (minInclusive range : ℤ) :
    accept minInclusive range ∘ Fin.val = acceptWord minInclusive range :=
  funext fun _ => Function.comp_apply

/-- The values of the draws. -/
lemma uniform_shuffleWords {i : ℕ} (hi : i < 2 ^ 31) : List.Forall₂ Uniform (shuffleWords i)
    ((bounds i).map fun b : ℕ => Finset.Ico 0 (b : ℤ)) := by
  induction i with
  | zero => exact .nil
  | succ i ih =>
      rw [shuffleWords, shuffleDraws, List.map_cons, accept_comp_val, bounds, List.map_cons]
      exact .cons (uniform_index (Nat.succ_ne_zero (i + 1)) (by omega)) (ih (by omega))

lemma choiceList_mem (c : Choices n) : List.Forall₂ (· ∈ ·) (choiceList c)
    ((bounds (n - 1)).map fun b : ℕ => Finset.Ico 0 (b : ℤ)) := by
  rw [List.forall₂_map_left_iff, List.forall₂_map_right_iff]
  refine (indices_lt c le_rfl).imp fun j b hj => ?_
  rw [Finset.mem_Ico]
  omega

/-- The lists of words are counted by the row of choices. -/
lemma ncard_shuffleTapes (c : Choices n) (m : ℕ) :
    (shuffleTapes hn (perm c) m).ncard = count (shuffleWords (n - 1)) (choiceList c) m := by
  rw [count, ← Set.ncard_coe_finset]
  congr 1
  ext tape
  rw [mem_shuffleTapes_iff, Finset.coe_filter, Set.mem_ofPred_eq]
  simp only [Finset.mem_univ, true_and]

/-- **Every permutation has the same probability.** -/
theorem hasSum_shuffleTapes (σ : Equiv.Perm (Fin n)) :
    HasSum (fun m => ((shuffleTapes hn σ m).ncard : ℝ) / (2 ^ 32) ^ m) (1 / (n.factorial : ℝ)) := by
  obtain ⟨c, rfl⟩ := (perm_bijective n).2 σ
  have hsum := hasSum_probability (uniform_shuffleWords (show n - 1 < 2 ^ 31 by omega))
    (choiceList_mem c)
  have hterm : probability (shuffleWords (n - 1)) (choiceList c) =
      fun m => ((shuffleTapes hn (perm c) m).ncard : ℝ) / (2 ^ 32) ^ m := by
    funext m
    rw [probability, ncard_shuffleTapes, Fintype.card_fin, Nat.cast_pow, Nat.cast_ofNat]
  have hprod : ∀ l : List ℕ, ((l.map fun b : ℕ => Finset.Ico 0 (b : ℤ)).map
      fun v => ((v.card : ℝ))⁻¹).prod = 1 / (l.prod : ℝ) := fun l => by
    induction l with
    | nil => simp
    | cons b l ih =>
        rw [List.map_cons, List.map_cons, List.prod_cons, ih, List.prod_cons, Int.card_Ico, sub_zero,
          Int.toNat_natCast]
        push_cast
        rw [one_div, one_div, mul_inv]
  rwa [hterm, hprod, prod_bounds, factorial_pred_add_one] at hsum

end Tapes

/-- **The shuffle is an unbiased permutation** of an array of at most `2^31` elements: a
call that returns leaves the arrays there were and returns a new one with the elements in
the order of the permutation of the indices it has drawn, and a call whose words are
accepted returns; the rows of indices and the permutations correspond; each index of a draw
has the same number of words; with independent uniform words each permutation has the
probability `1 / n!`. -/
theorem shuffle_unbiased (sha512 : Bytes → ByteVec 64) (heap : Heap α) (arr : ℕ)
    (hn : (heap.read arr).length ≤ 2 ^ 31) :
    (∀ rounds s r s', (shuffle (VrfStream.nextU32 sha512) rounds heap arr).call s = some (r, s') →
      ∃ (ws : List ℕ) (c : Choices (heap.read arr).length),
        r = .ok (heap ++ [(heap.read arr).permute (perm c)], heap.length) ∧
        Draws (VrfStream.nextU32 sha512) s ws s' ∧
        consume (shuffleDraws ((heap.read arr).length - 1)) ws = some (choiceList c)) ∧
    (∀ (ws : List ℕ) (c : Choices (heap.read arr).length) s s' rounds,
      Draws (VrfStream.nextU32 sha512) s ws s' →
      consume (shuffleDraws ((heap.read arr).length - 1)) ws = some (choiceList c) →
      ws.length ≤ rounds → (shuffle (VrfStream.nextU32 sha512) rounds heap arr).call s =
        some (.ok (heap ++ [(heap.read arr).permute (perm c)], heap.length), s')) ∧
    Function.Bijective (perm : Choices (heap.read arr).length → _) ∧
    (∀ i : ℕ, i < (heap.read arr).length →
      (∀ w j, acceptWord 0 (i + 1 : ℕ) w = some j → 0 ≤ j ∧ j ≤ i) ∧
      ∀ j : ℤ, 0 ≤ j → j ≤ i →
        hits (acceptWord 0 (i + 1 : ℕ)) (some j) = hits (acceptWord 0 (i + 1 : ℕ)) (some 0)) ∧
    ∀ σ : Equiv.Perm (Fin (heap.read arr).length),
      HasSum (fun m => ((shuffleTapes hn σ m).ncard : ℝ) / (2 ^ 32) ^ m)
        (1 / ((heap.read arr).length.factorial : ℝ)) := by
  refine ⟨?_, ?_, perm_bijective _, ?_, hasSum_shuffleTapes hn⟩
  · intro rounds s r s' h
    exact shuffle_permutes heap arr (VrfStream.nextU32_isWordSource sha512) hn h
  · intro ws c s s' rounds hws hc hlen
    exact shuffle_of_choices heap arr hws hc hlen
  · intro i hi
    have hunif := uniform_index (Nat.succ_ne_zero i) (show i + 1 ≤ 2 ^ 31 by omega)
    refine ⟨fun w j hw => ?_, fun j hj hji => hunif.same j ?_ 0 ?_⟩
    · have hmem := Finset.mem_Ico.mp (hunif.inside w j hw)
      omega
    · rw [Finset.mem_Ico]
      omega
    · rw [Finset.mem_Ico]
      omega

lemma three_le : 3 ≤ 2 ^ 31 := by norm_num

/-- A swap of two of three elements. -/
theorem shuffle_unbiased_sample :
    HasSum (fun m => ((shuffleTapes three_le (Equiv.swap 0 1) m).ncard : ℝ) / (2 ^ 32) ^ m)
      (1 / (Nat.factorial 3 : ℝ)) := by
  have hevery : ∀ σ : Equiv.Perm (Fin 3),
      HasSum (fun m => ((shuffleTapes three_le σ m).ncard : ℝ) / (2 ^ 32) ^ m)
        (1 / (Nat.factorial 3 : ℝ)) :=
    (shuffle_unbiased (polyHash 64) [positions 3 three_le] 0 three_le).2.2.2.2
  exact hevery (Equiv.swap 0 1)

end CcVrf
