import CcVrf.Library.Runs

/-!
The view that one party has of a run.

* `Path`: a sequence of labelled steps of a relation.
* `Path.unique`: where a label and the state before determine the state after, so does a
  list of labels.
* `Runs.History.project`: **the projection rule.** If every step of a run either leaves
  the view of the state as it is or is a labelled step of the views, then the views
  follow the path of the labels.
-/

namespace Runs

variable {V A : Type*}

/-- The labelled steps `as` in order lead from `v` to `v'`. -/
inductive Path (step : V → A → V → Prop) : V → List A → V → Prop where
  | nil (v : V) : Path step v [] v
  | snoc {v v' v'' : V} {as : List A} {a : A} :
      Path step v as v' → step v' a v'' → Path step v (as ++ [a]) v''

namespace Path

variable {step : V → A → V → Prop} {v v' v'' : V} {as : List A}

lemma eq_of_nil (h : Path step v [] v') : v' = v := by
  generalize hu : ([] : List A) = u at h
  cases h with
  | nil => rfl
  | snoc hp hs => exact absurd hu.symm (List.append_ne_nil_of_right_ne_nil _ (by simp))

lemma of_concat {a : A} (h : Path step v (as ++ [a]) v'') :
    ∃ v', Path step v as v' ∧ step v' a v'' := by
  generalize hu : as ++ [a] = u at h
  cases h with
  | nil => exact absurd hu (List.append_ne_nil_of_right_ne_nil _ (by simp))
  | snoc hp hs =>
      obtain ⟨rfl, ha⟩ := List.append_inj' hu rfl
      obtain rfl := (List.cons.inj ha).1
      exact ⟨_, hp, hs⟩

/-- **Labels determine a path** where they determine a step. -/
lemma unique (hstep : ∀ v a v₁ v₂, step v a v₁ → step v a v₂ → v₁ = v₂) (h : Path step v as v')
    (h' : Path step v as v'') : v' = v'' := by
  induction h generalizing v'' with
  | nil => exact h'.eq_of_nil.symm
  | snoc _ hs ih =>
      obtain ⟨u, hp, hs'⟩ := h'.of_concat
      obtain rfl := ih hp
      exact hstep _ _ _ _ hs hs'

end Path

variable {S I ε : Type} {step : S → I → Except ε S} {s s' : S} {t : List (Executed S I)}

/-- **The projection rule.** The step may use an invariant of the earlier state. -/
theorem History.project {P : S → Prop} (view : S → V) (vstep : V → A → V → Prop)
    (label : I → Option A) (h : History step s t s') (h0 : P s)
    (hinv : ∀ s i s', P s → step s i = .ok s' → P s')
    (hown : ∀ s i s' a, P s → step s i = .ok s' → label i = some a → vstep (view s) a (view s'))
    (hother : ∀ s i s', P s → step s i = .ok s' → label i = none → view s' = view s) :
    Path vstep (view s) (t.filterMap fun e => label e.input) (view s') := by
  induction h with
  | nil => exact .nil _
  | @snoc s' s'' t i hist hs ih =>
      have hP := hist.invariant h0 hinv
      simp only [List.filterMap_append, List.filterMap_cons, List.filterMap_nil]
      cases hl : label i with
      | none =>
          rw [hother _ _ _ hP hs hl]
          simpa only [List.append_nil] using ih
      | some a => exact ih.snoc (hown _ _ _ _ hP hs hl)

end Runs
