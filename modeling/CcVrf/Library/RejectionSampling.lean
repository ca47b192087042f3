import Mathlib.Analysis.SpecificLimits.Basic
import Mathlib.Tactic

/-!
Rejection sampling from a source of words, by several draws one after the other.

* `consume`: what a row of draws makes of a list of words. Each draw takes the value of
  the first word it accepts, and the list must end with the last accepted word.
* `consume_prefix`: a source has at most one such beginning.
* `Uniform`: every value of a draw is hit by equally many words.
* `count`: the number of lists of `m` words that give a row of values, and
  `count_cons_succ`, its recursion over the first word.
* `hasSum_probability`: **with independent uniform words every row of values has the same
  probability**, the inverse of the number of rows.
-/

namespace RejectionSampling

open Finset

variable {W β : Type}

/-- The values that a row of draws takes from a list of words, when the list ends with
the word that the last draw accepts. -/
def consume : List (W → Option β) → List W → Option (List β)
  | [], [] => some []
  | [], _ :: _ => none
  | _ :: _, [] => none
  | draw :: draws, w :: ws =>
      match draw w with
      | some b => (consume draws ws).map (b :: ·)
      | none => consume (draw :: draws) ws

section Lists

variable {draw : W → Option β} {draws : List (W → Option β)} {w : W} {ws : List W} {b : β}
  {bs : List β}

lemma consume_cons_of_some (h : draw w = some b) :
    consume (draw :: draws) (w :: ws) = (consume draws ws).map (b :: ·) := by
  rw [consume, h]

lemma consume_cons_of_none (h : draw w = none) :
    consume (draw :: draws) (w :: ws) = consume (draw :: draws) ws := by
  rw [consume, h]

@[simp] lemma consume_nil_iff :
    consume ([] : List (W → Option β)) ws = some bs ↔ ws = [] ∧ bs = [] := by
  cases ws with
  | nil => simp [consume, eq_comm]
  | cons w ws => simp [consume]

/-- The first draw uses up the words to the first one it accepts. -/
lemma consume_cons_iff : consume (draw :: draws) ws = some bs ↔
    ∃ rejected w rest b bs', ws = rejected ++ w :: rest ∧ (∀ x ∈ rejected, draw x = none) ∧
      draw w = some b ∧ consume draws rest = some bs' ∧ bs = b :: bs' := by
  induction ws with
  | nil => simp [consume]
  | cons x ws ih =>
      cases hx : draw x with
      | some b =>
          rw [consume_cons_of_some hx, Option.map_eq_some_iff]
          constructor
          · rintro ⟨bs', hbs', rfl⟩
            exact ⟨[], x, ws, b, bs', rfl, by simp, hx, hbs', rfl⟩
          · rintro ⟨rejected, w, rest, b', bs', hws, hrej, hw, hrest, rfl⟩
            cases rejected with
            | nil =>
                obtain ⟨rfl, rfl⟩ : x = w ∧ ws = rest := by simpa using hws
                obtain rfl : b = b' := Option.some.inj (hx.symm.trans hw)
                exact ⟨bs', hrest, rfl⟩
            | cons y rejected =>
                obtain ⟨rfl, -⟩ : x = y ∧ _ := by simpa using hws
                have hnone := hrej x (by simp)
                rw [hx] at hnone
                cases hnone
      | none =>
          rw [consume_cons_of_none hx, ih]
          constructor
          · rintro ⟨rejected, w, rest, b, bs', rfl, hrej, hrest⟩
            exact ⟨x :: rejected, w, rest, b, bs', rfl, List.forall_mem_cons.mpr ⟨hx, hrej⟩, hrest⟩
          · rintro ⟨rejected, w, rest, b, bs', hws, hrej, hw, hrest⟩
            cases rejected with
            | nil =>
                obtain ⟨rfl, -⟩ : x = w ∧ _ := by simpa using hws
                rw [hx] at hw
                cases hw
            | cons y rejected =>
                obtain ⟨rfl, rfl⟩ : x = y ∧ ws = rejected ++ w :: rest := by simpa using hws
                exact ⟨rejected, w, rest, b, bs', rfl, (List.forall_mem_cons.mp hrej).2, hw, hrest⟩

/-- A single draw: some rejected words, and one that is accepted. -/
lemma consume_singleton_iff : consume [draw] ws = some bs ↔
    ∃ rejected w b, ws = rejected ++ [w] ∧ (∀ x ∈ rejected, draw x = none) ∧
      draw w = some b ∧ bs = [b] := by
  rw [consume_cons_iff]
  constructor
  · rintro ⟨rejected, w, rest, b, bs', rfl, hrej, hw, hrest, rfl⟩
    obtain ⟨rfl, rfl⟩ := consume_nil_iff.mp hrest
    exact ⟨rejected, w, b, rfl, hrej, hw, rfl⟩
  · rintro ⟨rejected, w, b, rfl, hrej, hw, rfl⟩
    exact ⟨rejected, w, [], b, [], rfl, hrej, hw, rfl, rfl⟩

/-- The first draw and the others, one after the other. -/
lemma consume_cons_split : consume (draw :: draws) ws = some bs ↔
    ∃ first rest b bs', ws = first ++ rest ∧ consume [draw] first = some [b] ∧
      consume draws rest = some bs' ∧ bs = b :: bs' := by
  rw [consume_cons_iff]
  constructor
  · rintro ⟨rejected, w, rest, b, bs', rfl, hrej, hw, hrest, rfl⟩
    exact ⟨rejected ++ [w], rest, b, bs', by simp,
      consume_singleton_iff.mpr ⟨rejected, w, b, rfl, hrej, hw, rfl⟩, hrest, rfl⟩
  · rintro ⟨first, rest, b, bs', rfl, hfirst, hrest, rfl⟩
    obtain ⟨rejected, w, b', rfl, hrej, hw, hb⟩ := consume_singleton_iff.mp hfirst
    obtain rfl : b = b' := by simpa using hb
    exact ⟨rejected, w, rest, b, bs', by simp, hrej, hw, hrest, rfl⟩

/-- **No beginning of a list that is used up is used up.** -/
lemma consume_prefix {more : List W} {bs' : List β} (h : consume draws ws = some bs)
    (h' : consume draws (ws ++ more) = some bs') : more = [] ∧ bs = bs' := by
  induction ws generalizing draws bs bs' with
  | nil =>
      cases draws with
      | nil =>
          obtain ⟨hmore, rfl⟩ := consume_nil_iff.mp h'
          exact ⟨hmore, (consume_nil_iff.mp h).2⟩
      | cons draw draws => simp [consume] at h
  | cons w ws ih =>
      cases draws with
      | nil => simp [consume] at h
      | cons draw draws =>
          rw [List.cons_append] at h'
          cases hw : draw w with
          | some b =>
              rw [consume_cons_of_some hw, Option.map_eq_some_iff] at h h'
              obtain ⟨cs, hcs, rfl⟩ := h
              obtain ⟨cs', hcs', rfl⟩ := h'
              obtain ⟨hmore, rfl⟩ := ih hcs hcs'
              exact ⟨hmore, rfl⟩
          | none =>
              rw [consume_cons_of_none hw] at h h'
              exact ih h h'

/-- Draws from the images of words. -/
lemma consume_map {V : Type} (f : V → W) (draws : List (W → Option β)) (vs : List V) :
    consume draws (vs.map f) = consume (draws.map fun draw => draw ∘ f) vs := by
  induction vs generalizing draws with
  | nil => cases draws <;> rfl
  | cons v vs ih =>
      cases draws with
      | nil => rfl
      | cons draw draws =>
          rw [List.map_cons, List.map_cons]
          cases hv : draw (f v) with
          | some b =>
              have hv' : (draw ∘ f) v = some b := hv
              rw [consume_cons_of_some hv, consume_cons_of_some hv', ih]
          | none =>
              have hv' : (draw ∘ f) v = none := hv
              rw [consume_cons_of_none hv, consume_cons_of_none hv', ih, List.map_cons]

end Lists

/-! ### Counting -/

section Counting

variable [Fintype W] [DecidableEq β]

/-- The number of words with a given value. -/
def hits (draw : W → Option β) (b : Option β) : ℕ := #{w | draw w = b}

/-- The number of lists of `m` words that give a row of values. -/
def count (draws : List (W → Option β)) (bs : List β) (m : ℕ) : ℕ :=
  #{tape : Fin m → W | consume draws (List.ofFn tape) = some bs}

/-- A word is rejected or accepted. -/
lemma hits_none_add (draw : W → Option β) :
    hits draw none + #{w | draw w ≠ none} = Fintype.card W :=
  card_filter_add_card_filter_not fun w => draw w = none

/-- A draw hits each of its values, and no others, with equally many words. -/
structure Uniform (draw : W → Option β) (values : Finset β) : Prop where
  inside : ∀ w b, draw w = some b → b ∈ values
  same : ∀ b ∈ values, ∀ b' ∈ values, hits draw (some b) = hits draw (some b')
  some_hit : ∃ w, draw w ≠ none

variable {draw : W → Option β} {draws : List (W → Option β)} {b : β} {bs : List β}

@[simp] lemma count_nil (m : ℕ) :
    count ([] : List (W → Option β)) [] m = if m = 0 then 1 else 0 := by
  rw [count]
  cases m with
  | zero => simp
  | succ m => simp

lemma count_cons_zero : count (draw :: draws) bs 0 = 0 := by
  simp [count, consume]

/-- Lists of one more word, by their first word. -/
lemma count_succ (m : ℕ) : count draws bs (m + 1) =
    ∑ w : W, #{tape : Fin m → W | consume draws (w :: List.ofFn tape) = some bs} := by
  simp only [count, card_filter]
  rw [← Fintype.sum_prod_type' fun (w : W) (tape : Fin m → W) =>
    if consume draws (w :: List.ofFn tape) = some bs then 1 else 0]
  refine Fintype.sum_equiv (Fin.consEquiv fun _ => W).symm _ _ fun tape => ?_
  rw [List.ofFn_succ]
  rfl

/-- The step of a row of draws: the first word is accepted with the first value, or it is
rejected. -/
lemma count_cons_succ (m : ℕ) : count (draw :: draws) (b :: bs) (m + 1) =
    hits draw (some b) * count draws bs m + hits draw none * count (draw :: draws) (b :: bs) m := by
  have hword : ∀ w, #{tape : Fin m → W |
      consume (draw :: draws) (w :: List.ofFn tape) = some (b :: bs)} =
      (if draw w = some b then count draws bs m else 0) +
        (if draw w = none then count (draw :: draws) (b :: bs) m else 0) := fun w => by
    cases hw : draw w with
    | none =>
        simp only [consume_cons_of_none hw, reduceCtorEq, if_false, if_true, Nat.zero_add]
        rfl
    | some c =>
        simp only [consume_cons_of_some hw, Option.map_eq_some_iff, reduceCtorEq, if_false,
          Nat.add_zero, Option.some.injEq]
        by_cases hc : c = b
        · subst hc
          simp [count]
        · simp [hc]
  rw [count_succ, sum_congr rfl fun w _ => hword w, sum_add_distrib, ← sum_filter, ← sum_filter,
    sum_const, sum_const, smul_eq_mul, smul_eq_mul]
  rfl

/-- Every word hits a value or is rejected. -/
lemma Uniform.card_eq {values : Finset β} (h : Uniform draw values) (hb : b ∈ values) :
    Fintype.card W = hits draw none + values.card * hits draw (some b) := by
  have hmaps : ∀ w ∈ (univ : Finset W), draw w ∈ insertNone values := fun w _ => by
    cases hw : draw w with
    | none => exact none_mem_insertNone
    | some c => exact some_mem_insertNone.mpr (h.inside w c hw)
  have hsame : ∀ c ∈ values, hits draw (some c) = hits draw (some b) := fun c hc => h.same c hc b hb
  rw [← card_univ, card_eq_sum_card_fiberwise hmaps, sum_insertNone]
  show hits draw none + ∑ c ∈ values, hits draw (some c) = _
  rw [sum_congr rfl hsame, sum_const, smul_eq_mul]

/-- Not all words are rejected. -/
lemma Uniform.hits_none_lt {values : Finset β} (h : Uniform draw values) :
    hits draw none < Fintype.card W := by
  obtain ⟨w, hw⟩ := h.some_hit
  exact card_lt_univ_of_notMem (x := w) fun hmem => hw (mem_filter.mp hmem).2

end Counting

/-! ### Probabilities -/

/-- The sums of a sequence that starts at `0` and takes in another one at each step. -/
lemma hasSum_of_step {f g : ℕ → ℝ} {p q a : ℝ} (hf : HasSum f a) (hf0 : ∀ m, 0 ≤ f m) (hp : 0 ≤ p)
    (hq0 : 0 ≤ q) (hq1 : q < 1) (hzero : g 0 = 0) (hstep : ∀ m, g (m + 1) = p * f m + q * g m) :
    HasSum g (p * a / (1 - q)) := by
  have hpos : 0 < 1 - q := sub_pos.mpr hq1
  have hg0 : ∀ m, 0 ≤ g m := fun m => by
    induction m with
    | zero => exact hzero.ge
    | succ m ih =>
        rw [hstep]
        exact add_nonneg (mul_nonneg hp (hf0 m)) (mul_nonneg hq0 ih)
  have hbound : ∀ n, ∑ i ∈ range n, g i ≤ p * a / (1 - q) := fun n => by
    induction n with
    | zero =>
        rw [sum_range_zero]
        exact div_nonneg (mul_nonneg hp (hf.nonneg hf0)) hpos.le
    | succ n ih =>
        have hle : ∑ i ∈ range n, f i ≤ a := sum_le_hasSum _ (fun i _ => hf0 i) hf
        calc ∑ i ∈ range (n + 1), g i
            = p * ∑ i ∈ range n, f i + q * ∑ i ∈ range n, g i := by
              rw [sum_range_succ', hzero, add_zero, sum_congr rfl fun i _ => hstep i,
                sum_add_distrib, mul_sum, mul_sum]
          _ ≤ p * a + q * (p * a / (1 - q)) :=
              add_le_add (mul_le_mul_of_nonneg_left hle hp) (mul_le_mul_of_nonneg_left ih hq0)
          _ = p * a / (1 - q) := by
              field_simp
              ring
  have hsum : Summable g := summable_of_sum_range_le hg0 hbound
  have htsum : tsum g = p * a + q * tsum g := by
    calc tsum g = g 0 + tsum (fun m => g (m + 1)) := hsum.tsum_eq_zero_add
      _ = tsum (fun m => p * f m + q * g m) := by rw [hzero, zero_add, tsum_congr hstep]
      _ = p * a + q * tsum g := by
          rw [(hf.summable.mul_left p).tsum_add (hsum.mul_left q), tsum_mul_left, tsum_mul_left,
            hf.tsum_eq]
  have hval : p * a / (1 - q) = tsum g := by
    rw [div_eq_iff hpos.ne']
    linarith
  rw [hval]
  exact hsum.hasSum

section Probability

variable [Fintype W] [DecidableEq β] {draws : List (W → Option β)} {values : List (Finset β)}
  {bs : List β}

/-- The probability that a row of draws ends after `m` words with given values. -/
noncomputable def probability (draws : List (W → Option β)) (bs : List β) (m : ℕ) : ℝ :=
  count draws bs m / (Fintype.card W : ℝ) ^ m

/-- The step of a row of draws, in probabilities. -/
lemma probability_cons_succ [Nonempty W] {draw : W → Option β} {b : β} (m : ℕ) :
    probability (draw :: draws) (b :: bs) (m + 1) =
      hits draw (some b) / Fintype.card W * probability draws bs m +
        hits draw none / Fintype.card W * probability (draw :: draws) (b :: bs) m := by
  have hW : (Fintype.card W : ℝ) ≠ 0 := by exact_mod_cast Fintype.card_ne_zero
  rw [probability, count_cons_succ, probability, probability, pow_succ]
  push_cast
  field_simp

/-- The accepted words are shared equally between the values. -/
lemma Uniform.share {draw : W → Option β} {v : Finset β} (h : Uniform draw v) {b : β} (hb : b ∈ v) :
    (Fintype.card W : ℝ) - hits draw none = v.card * hits draw (some b) := by
  rw [h.card_eq hb]
  push_cast
  ring

/-- **Every row of values is equally likely.** -/
theorem hasSum_probability (hdraws : List.Forall₂ Uniform draws values)
    (hbs : List.Forall₂ (· ∈ ·) bs values) :
    HasSum (probability draws bs) (values.map fun v => (v.card : ℝ)⁻¹).prod := by
  induction hdraws generalizing bs with
  | nil =>
      cases hbs
      have hval : probability ([] : List (W → Option β)) [] =
          fun m => if m = 0 then (1 : ℝ) else 0 := by
        funext m
        rw [probability, count_nil]
        split_ifs with hm
        · rw [hm, Nat.cast_one, pow_zero, div_one]
        · rw [Nat.cast_zero, zero_div]
      rw [hval]
      exact hasSum_ite_eq 0 1
  | @cons draw v draws values hdraw _ ih =>
      cases hbs with
      | @cons b _ bs _ hb hbs =>
          have hlt : (hits draw none : ℝ) < Fintype.card W := by exact_mod_cast hdraw.hits_none_lt
          have hW : (0 : ℝ) < Fintype.card W := (Nat.cast_nonneg _).trans_lt hlt
          have hne : Nonempty W := Fintype.card_pos_iff.mp (by exact_mod_cast hW)
          have hsum := hasSum_of_step (ih hbs) (fun m => by rw [probability]; positivity)
            (p := hits draw (some b) / Fintype.card W) (by positivity)
            (q := hits draw none / Fintype.card W) (by positivity) ((div_lt_one hW).mpr hlt)
            (by rw [probability, count_cons_zero, Nat.cast_zero, zero_div]) probability_cons_succ
          have hshare := hdraw.share hb
          have hshare0 : (v.card : ℝ) * hits draw (some b) ≠ 0 := by
            rw [← hshare]
            exact (sub_pos.mpr hlt).ne'
          have hv0 := left_ne_zero_of_mul hshare0
          have hh0 := right_ne_zero_of_mul hshare0
          convert hsum using 1
          rw [List.map_cons, List.prod_cons, one_sub_div hW.ne', hshare]
          field_simp

end Probability

end RejectionSampling
