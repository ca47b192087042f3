import CcVrf.Library.Runs

/-!
Stores whose entries are never removed and only move up a relation.

* `Grows R m m'`: every entry of `m` is still in `m'`, with a value above the old
  one. `Grows.update_new` and `Grows.update_old` are the two writes that a store
  allows: a value under an unused key, and a larger value under a used one.
* `History.countP_creations_le_one`: along such a run a key is created at most
  once.
-/

namespace Runs

variable {S I ε K V : Type} {R : V → V → Prop}

/-- Every entry of `m` is in `m'` with a value above the old one. -/
def Grows (R : V → V → Prop) (m m' : K → Option V) : Prop :=
  ∀ k v, m k = some v → ∃ v', m' k = some v' ∧ R v v'

namespace Grows

variable {m m' m'' : K → Option V}

lemma refl (hR : ∀ v, R v v) (m : K → Option V) : Grows R m m :=
  fun _ v hv => ⟨v, hv, hR v⟩

lemma trans (hR : ∀ u v w, R u v → R v w → R u w) (h : Grows R m m') (h' : Grows R m' m'') :
    Grows R m m'' := by
  intro k v hv
  obtain ⟨v', hv', hR₁⟩ := h k v hv
  obtain ⟨v'', hv'', hR₂⟩ := h' k v' hv'
  exact ⟨v'', hv'', hR _ _ _ hR₁ hR₂⟩

/-- A used key stays used. -/
lemma ne_none (h : Grows R m m') {k : K} (hk : m k ≠ none) : m' k ≠ none := by
  obtain ⟨v, hv⟩ := Option.ne_none_iff_exists'.mp hk
  obtain ⟨v', hv', -⟩ := h k v hv
  rw [hv']
  exact Option.some_ne_none v'

variable [DecidableEq K]

/-- Writing under an unused key. -/
lemma update_new (hR : ∀ v, R v v) {k : K} (hk : m k = none) (v : V) :
    Grows R m (Function.update m k (some v)) := by
  intro k' v' hv'
  have hne : k' ≠ k := by
    rintro rfl
    rw [hk] at hv'
    cases hv'
  exact ⟨v', by rw [Function.update_of_ne hne, hv'], hR v'⟩

/-- Writing a larger value under a used key. -/
lemma update_old (hR : ∀ v, R v v) {k : K} {v w : V} (hk : m k = some v) (hvw : R v w) :
    Grows R m (Function.update m k (some w)) := by
  intro k' v' hv'
  by_cases hkk : k' = k
  · subst hkk
    rw [hk] at hv'
    cases hv'
    exact ⟨w, Function.update_self _ _ _, hvw⟩
  · exact ⟨v', by rw [Function.update_of_ne hkk, hv'], hR v'⟩

end Grows

namespace History

variable {step : S → I → Except ε S} {s s' : S} {t : List (Executed S I)}

/-- **A key is created at most once**: of the executed steps, at most one finds the
key unused and leaves it used. -/
theorem countP_creations_le_one (store : S → K → Option V)
    (hstep : ∀ s i s', step s i = .ok s' → Grows R (store s) (store s'))
    (h : History step s t s') (k : K) (creates : Executed S I → Bool)
    (hcreates : ∀ e, step e.pre e.input = .ok e.post → creates e = true →
      store e.pre k = none ∧ store e.post k ≠ none) :
    t.countP creates ≤ 1 := by
  -- while the key is unused nothing has created it
  have hcount : t.countP creates ≤ if store s' k = none then 0 else 1 := by
    induction h with
    | nil => exact Nat.zero_le _
    | @snoc s' s'' t i hist hs ih =>
        rw [List.countP_append, List.countP_singleton]
        by_cases hc : creates ⟨s', i, s''⟩ = true
        · obtain ⟨hpre, hpost⟩ := hcreates _ hs hc
          rw [if_pos hpre] at ih
          rw [if_pos hc, if_neg hpost]
          omega
        · rw [if_neg hc, Nat.add_zero]
          by_cases hk : store s' k = none
          · rw [if_pos hk] at ih
            exact ih.trans (Nat.zero_le _)
          · rw [if_neg hk] at ih
            rwa [if_neg ((hstep _ _ _ hs).ne_none hk)]
  exact hcount.trans (by split <;> omega)

end History

end Runs
