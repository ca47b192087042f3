import Mathlib.Algebra.BigOperators.Ring.Finset
import Mathlib.Algebra.Order.BigOperators.Group.Finset
import Mathlib.Data.Fintype.BigOperators
import Mathlib.Data.Set.Card
import Mathlib.Tactic

/-!
How often a computation that asks a random function meets a bad answer.

The computation chooses each question from the answers so far. The function is one of all
functions from a finite type of questions to a finite type of answers, so a probability is a
count of functions.

* `Asks`: a computation as the tree of its questions. `run`, `asked`: its result and its
  questions against a given function; `AtMost n`: no branch asks more than `n` times.
* `alsoAsk`: the computation followed by questions that depend on its result.
* `extending`: the functions that agree with the answers known so far. A further answer keeps
  one in `card A` of them (`card_extending_update`).
* `Meets`, `card_meets_le`: **if every question has at most `β` bad answers, a computation with
  `n` questions meets one for at most a fraction `n·β / card A` of the functions.** The
  induction is on the tree, over all sets of known answers; `ncard_meets_le` is the same for
  sets.
-/

namespace AdaptiveQueries

/-- A computation with result `α` that asks questions `D` and goes on with the answers `A`. -/
inductive Asks (D A α : Type*) where
  | done (result : α)
  | ask (d : D) (next : A → Asks D A α)

namespace Asks

variable {D A α : Type*}

/-- The result against the function `f`. -/
def run (f : D → A) : Asks D A α → α
  | done result => result
  | ask d next => (next (f d)).run f

/-- The questions asked of `f`, in order. -/
def asked (f : D → A) : Asks D A α → List D
  | done _ => []
  | ask d next => d :: (next (f d)).asked f

/-- No branch asks more than `n` questions. -/
def AtMost : ℕ → Asks D A α → Prop
  | _, done _ => True
  | 0, ask _ _ => False
  | n + 1, ask _ next => ∀ a, AtMost n (next a)

/-- Some answer of `f` to a question of the computation is bad. -/
def Meets (bad : D → Set A) (f : D → A) (T : Asks D A α) : Prop :=
  ∃ d ∈ T.asked f, f d ∈ bad d

/-! ### Further questions at the end -/

/-- Questions whose answers are not used. -/
def askAll (result : α) : List D → Asks D A α
  | [] => done result
  | d :: ds => ask d fun _ => askAll result ds

/-- The computation, and then the questions that belong to its result. -/
def alsoAsk (extra : α → List D) : Asks D A α → Asks D A α
  | done result => askAll result (extra result)
  | ask d next => ask d fun a => (next a).alsoAsk extra

@[simp] lemma asked_askAll (f : D → A) (result : α) (ds : List D) :
    (askAll result ds).asked f = ds := by
  induction ds with
  | nil => rfl
  | cons d ds ih => rw [askAll, asked, ih]

/-- The questions come after those of the computation, which goes on as before. -/
lemma asked_alsoAsk (f : D → A) (extra : α → List D) (T : Asks D A α) :
    (T.alsoAsk extra).asked f = T.asked f ++ extra (T.run f) := by
  induction T with
  | done result => rw [alsoAsk, asked_askAll, asked, run, List.nil_append]
  | ask d next ih => rw [alsoAsk, asked, ih, asked, run, List.cons_append]

lemma atMost_askAll (result : α) {n : ℕ} {ds : List D} (h : ds.length ≤ n) :
    (askAll result ds : Asks D A α).AtMost n := by
  induction ds generalizing n with
  | nil => simp [askAll, AtMost]
  | cons d ds ih =>
      obtain ⟨n, rfl⟩ := Nat.exists_eq_add_of_le' (Nat.one_le_of_lt h)
      exact fun _ => ih (Nat.le_of_succ_le_succ h)

/-- The numbers of questions add up. -/
lemma AtMost.alsoAsk {extra : α → List D} {m : ℕ} (hextra : ∀ result, (extra result).length ≤ m)
    {T : Asks D A α} {n : ℕ} (h : T.AtMost n) : (T.alsoAsk extra).AtMost (n + m) := by
  induction T generalizing n with
  | done result => exact atMost_askAll result ((hextra result).trans (Nat.le_add_left m n))
  | ask d next ih =>
      cases n with
      | zero => exact h.elim
      | succ n =>
          rw [Nat.add_right_comm]
          exact fun a => ih a (h a)

end Asks

open Finset

variable {D A α : Type*} [Fintype D] [DecidableEq D] [Fintype A]

/-! ### Known answers -/

/-- The functions that give the known answers. -/
def extending (known : D → Option A) : Finset (D → A) :=
  Fintype.piFinset fun d => (known d).elim univ singleton

lemma mem_extending {known : D → Option A} {f : D → A} :
    f ∈ extending known ↔ ∀ d a, known d = some a → f d = a := by
  rw [extending, Fintype.mem_piFinset]
  refine forall_congr' fun d => ?_
  cases known d <;> simp

@[simp] lemma extending_none : extending (fun _ : D => (none : Option A)) = univ := by
  ext f
  simp [mem_extending]

section Update

variable {known : D → Option A} {d : D}

/-- One more answer is one more condition. -/
lemma mem_extending_update (hd : known d = none) {a : A} {f : D → A} :
    f ∈ extending (Function.update known d (some a)) ↔ f ∈ extending known ∧ f d = a := by
  rw [mem_extending, mem_extending]
  constructor
  · intro h
    refine ⟨fun d' a' hd' => h d' a' ?_, h d a (Function.update_self d _ known)⟩
    have hne : d' ≠ d := by
      rintro rfl
      rw [hd] at hd'
      cases hd'
    rwa [Function.update_of_ne hne]
  · rintro ⟨h, rfl⟩ d' a' hd'
    by_cases hne : d' = d
    · subst hne
      rw [Function.update_self] at hd'
      exact Option.some.inj hd'
    · rw [Function.update_of_ne hne] at hd'
      exact h d' a' hd'

/-- **A new answer keeps its share of the functions**, the same for every answer. -/
lemma card_extending_update (hd : known d = none) (a : A) :
    #(extending (Function.update known d (some a))) * Fintype.card A = #(extending known) := by
  rw [extending, extending, Fintype.card_piFinset, Fintype.card_piFinset,
    ← mul_prod_erase univ _ (mem_univ d), ← mul_prod_erase univ _ (mem_univ d)]
  have hrest : ∏ x ∈ univ.erase d,
      #((Function.update known d (some a) x).elim univ singleton : Finset A) =
        ∏ x ∈ univ.erase d, #((known x).elim univ singleton : Finset A) :=
    prod_congr rfl fun x hx => by rw [Function.update_of_ne (ne_of_mem_erase hx)]
  rw [hrest, Function.update_self, hd]
  simp [Nat.mul_comm]

/-- The functions can be counted by their answer to a new question. -/
lemma card_filter_extending [DecidableEq A] (hd : known d = none) (p : (D → A) → Prop)
    [DecidablePred p] : #{f ∈ extending known | p f} =
      ∑ a, #{f ∈ extending (Function.update known d (some a)) | p f} := by
  rw [card_eq_sum_card_fiberwise (f := fun f => f d) (t := univ) fun _ _ => mem_univ _]
  refine sum_congr rfl fun a _ => congrArg card ?_
  ext f
  rw [mem_filter, mem_filter, mem_filter, mem_extending_update hd, and_right_comm]

end Update

/-! ### The bound -/

section Bound

open Classical Asks

variable {bad : D → Set A} {known : D → Option A} {d : D}

/-- After a known answer that is not bad, the computation is the rest of its tree. -/
lemma filter_meets_ask (next : A → Asks D A α) {a : A} (hd : known d = some a) (ha : a ∉ bad d) :
    ({f ∈ extending known | (ask d next).Meets bad f} : Finset (D → A)) =
      {f ∈ extending known | (next a).Meets bad f} := by
  refine filter_congr fun f hf => ?_
  obtain rfl := mem_extending.mp hf d a hd
  rw [Meets, asked, List.exists_mem_cons_iff]
  exact or_iff_right ha

omit [Fintype D] [Fintype A] in
/-- A further answer that is not bad keeps all known answers so. -/
lemma harmless_update (hknown : ∀ d a, known d = some a → a ∉ bad d) {a : A} (ha : a ∉ bad d) :
    ∀ d' a', Function.update known d (some a) d' = some a' → a' ∉ bad d' := by
  intro d' a' hd'
  by_cases hne : d' = d
  · subst hne
    rw [Function.update_self] at hd'
    exact Option.some.inj hd' ▸ ha
  · rw [Function.update_of_ne hne] at hd'
    exact hknown d' a' hd'

/-- **Bad answers are rare**: with `n` questions, and with at most `β` bad answers to each, the
functions that give a bad one are at most a fraction `n·β / card A` of those that extend any
known answers that are not bad themselves. -/
theorem card_meets_le {β : ℕ} (hbad : ∀ d, #{a | a ∈ bad d} ≤ β) (T : Asks D A α) {n : ℕ}
    (hT : T.AtMost n) (known : D → Option A) (hknown : ∀ d a, known d = some a → a ∉ bad d) :
    #{f ∈ extending known | T.Meets bad f} * Fintype.card A ≤ n * β * #(extending known) := by
  induction T generalizing n known with
  | done result => simp [Meets, asked]
  | ask d next ih =>
      obtain ⟨n, rfl⟩ : ∃ m, n = m + 1 := by
        cases n with
        | zero => exact hT.elim
        | succ m => exact ⟨m, rfl⟩
      cases hd : known d with
      | some a =>
          -- the question was asked before, so it costs nothing
          have hle := ih a (hT a) known hknown
          rw [filter_meets_ask next hd (hknown d a hd)]
          refine hle.trans ?_
          gcongr
          exact Nat.le_succ n
      | none =>
          -- a bad answer costs its whole share, any other one what the rest costs
          have hshare : ∀ a, #{f ∈ extending (Function.update known d (some a)) |
              (ask d next).Meets bad f} * Fintype.card A ≤
                (if a ∈ bad d then #(extending known) else 0) +
                  n * β * #(extending (Function.update known d (some a))) := by
            intro a
            by_cases ha : a ∈ bad d
            · rw [if_pos ha, ← card_extending_update hd a]
              exact le_add_right (Nat.mul_le_mul_right _ (card_filter_le _ _))
            · rw [if_neg ha, Nat.zero_add, filter_meets_ask next (Function.update_self ..) ha]
              exact ih a (hT a) _ (harmless_update hknown ha)
          have hall : ∑ a, #(extending (Function.update known d (some a))) = #(extending known) := by
            simpa using (card_filter_extending hd fun _ => True).symm
          calc #{f ∈ extending known | (ask d next).Meets bad f} * Fintype.card A
              = ∑ a, #{f ∈ extending (Function.update known d (some a)) |
                  (ask d next).Meets bad f} * Fintype.card A := by
                rw [card_filter_extending hd, sum_mul]
            _ ≤ ∑ a, ((if a ∈ bad d then #(extending known) else 0) +
                  n * β * #(extending (Function.update known d (some a)))) :=
                sum_le_sum fun a _ => hshare a
            _ = (#{a | a ∈ bad d} + n * β) * #(extending known) := by
                rw [sum_add_distrib, ← mul_sum, hall, ← sum_filter, sum_const, smul_eq_mul, add_mul]
            _ ≤ (n + 1) * β * #(extending known) := by
                rw [add_mul n, one_mul, Nat.add_comm (n * β)]
                gcongr
                exact hbad d

end Bound

open Classical in
/-- The bound over all functions, for sets. -/
theorem ncard_meets_le {D A : Type*} [Finite D] [Finite A] {bad : D → Set A} {β : ℕ}
    (hbad : ∀ d, (bad d).ncard ≤ β) {T : Asks D A α} {n : ℕ} (hT : T.AtMost n) :
    {f | T.Meets bad f}.ncard * Nat.card A ≤ n * β * Nat.card (D → A) := by
  have := Fintype.ofFinite D
  have := Fintype.ofFinite A
  have hcard : ∀ d, #{a | a ∈ bad d} ≤ β := fun d => by
    rw [← Set.ncard_coe_finset, coe_filter_univ]
    exact hbad d
  have hle := card_meets_le hcard T hT (fun _ => none) fun _ _ h => nomatch h
  rw [extending_none, card_univ] at hle
  rw [Nat.card_eq_fintype_card, Nat.card_eq_fintype_card, ← coe_filter_univ, Set.ncard_coe_finset]
  exact hle

end AdaptiveQueries
