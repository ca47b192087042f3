import Mathlib.Tactic

/-!
A search over counters: try them one after the other and stop at the first success.

* `search`: at most `n` trials, from the counter `start` on; `search_succ_of_none` and
  `search_succ_of_some` are its first trial.
* `FirstAt`: a counter succeeds and every one before it fails; `firstAt_of_some` and
  `firstAt_of_none` follow the search by one trial.
* `search_eq_some_iff`: **the search gives what the least successful counter gives.**
* `search_eq_none_iff`: it gives nothing exactly when every trial fails.
-/

namespace BoundedSearch

variable {β : Type} {f : ℕ → Option β} {start n : ℕ} {b : β}

/-- The result of the first of `n` trials, from `start` on, that succeeds. -/
def search (f : ℕ → Option β) (start n : ℕ) : Option β := (List.range' start n).findSome? f

lemma search_succ_of_none (h : f start = none) :
    search f start (n + 1) = search f (start + 1) n := by
  rw [search, List.range'_succ, List.findSome?_cons, h, search]

lemma search_succ_of_some (h : f start = some b) : search f start (n + 1) = some b := by
  rw [search, List.range'_succ, List.findSome?_cons, h]

/-- The trial at `k` gives `b`, and every one before it, from `start` on, fails. -/
structure FirstAt (f : ℕ → Option β) (start k : ℕ) (b : β) : Prop where
  le : start ≤ k
  succeeds : f k = some b
  before : ∀ j, start ≤ j → j < k → f j = none

/-- A first trial that succeeds is the first success. -/
lemma firstAt_of_some {c : β} {k : ℕ} (h : f start = some c) :
    FirstAt f start k b ↔ k = start ∧ b = c := by
  constructor
  · intro hk
    rcases hk.le.eq_or_lt with rfl | hlt
    · exact ⟨rfl, Option.some.inj (hk.succeeds.symm.trans h)⟩
    · have hnone := hk.before start le_rfl hlt
      rw [h] at hnone
      cases hnone
  · rintro ⟨rfl, rfl⟩
    exact ⟨le_rfl, h, fun j hj hlt => by omega⟩

/-- A first trial that fails can be left out. -/
lemma firstAt_of_none {k : ℕ} (h : f start = none) :
    FirstAt f start k b ↔ FirstAt f (start + 1) k b := by
  constructor
  · intro hk
    rcases hk.le.eq_or_lt with rfl | hlt
    · have hsome := hk.succeeds
      rw [h] at hsome
      cases hsome
    · exact ⟨hlt, hk.succeeds, fun j hj => hk.before j (by omega)⟩
  · intro hk
    refine ⟨by have := hk.le; omega, hk.succeeds, fun j hj hlt => ?_⟩
    rcases hj.eq_or_lt with rfl | hj'
    · exact h
    · exact hk.before j hj' hlt

/-- **The least success**: the search gives the value of the first successful counter in
range. -/
theorem search_eq_some_iff :
    search f start n = some b ↔ ∃ k < start + n, FirstAt f start k b := by
  induction n generalizing start with
  | zero =>
      constructor
      · intro h
        cases h
      · rintro ⟨k, hlt, hk⟩
        exact absurd hk.le (by omega)
  | succ n ih =>
      cases hstart : f start with
      | some c =>
          simp only [search_succ_of_some hstart, firstAt_of_some hstart, Option.some.injEq]
          constructor
          · rintro rfl
            exact ⟨start, by omega, rfl, rfl⟩
          · rintro ⟨k, -, -, rfl⟩
            rfl
      | none =>
          simp only [search_succ_of_none hstart, ih, firstAt_of_none hstart]
          rw [Nat.add_right_comm, Nat.add_assoc]

/-- The search gives nothing exactly when every trial fails. -/
theorem search_eq_none_iff : search f start n = none ↔
    ∀ k, start ≤ k → k < start + n → f k = none := by
  rw [search, List.findSome?_eq_none_iff]
  simp only [List.mem_range'_1, and_imp]

end BoundedSearch
