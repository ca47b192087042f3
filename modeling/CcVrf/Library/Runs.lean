import Mathlib.Tactic

/-!
Runs of a system whose steps may be refused, with the history of what was
executed.

* `Executed`, `History`: the executed steps of a run in order, each with the state
  before and after it.
* `History.invariant`, `History.relation`: the two induction rules, for a
  predicate that every step keeps and for a reflexive and transitive relation that
  every step respects.
* `History.split`: the run before and after a given executed step.
* `History.exists_step`: what holds at the end and not at the start was made true
  by a step.
* `atomically`, `runTx`, `run`: transactions, lists of steps that take effect together
  or not at all; `run_history` and `History.eq_run` say that the runs of transactions
  and the histories lead to the same states.
-/

namespace Runs

variable {S I ε : Type}

/-- An executed step with the states around it. -/
structure Executed (S I : Type) where
  pre : S
  input : I
  post : S

/-- `History step s t s'`: executing the steps `t` in order leads from `s` to
`s'`. -/
inductive History (step : S → I → Except ε S) : S → List (Executed S I) → S → Prop where
  | nil (s : S) : History step s [] s
  | snoc {s s' s'' : S} {t : List (Executed S I)} {i : I} :
      History step s t s' → step s' i = .ok s'' → History step s (t ++ [⟨s', i, s''⟩]) s''

namespace History

variable {step : S → I → Except ε S} {s s' s'' : S} {t t' : List (Executed S I)}

/-- Two runs, the second from where the first ended. -/
lemma append (h : History step s t s') (h' : History step s' t' s'') :
    History step s (t ++ t') s'' := by
  induction h' with
  | nil => rwa [List.append_nil]
  | snoc _ hstep ih =>
      rw [← List.append_assoc]
      exact ih.snoc hstep

/-- **The induction rule for invariants.** -/
lemma invariant {P : S → Prop} (h : History step s t s') (h0 : P s)
    (hstep : ∀ s i s', P s → step s i = .ok s' → P s') : P s' := by
  induction h with
  | nil => exact h0
  | snoc _ hs ih => exact hstep _ _ _ ih hs

/-- **The induction rule for relations between an earlier and a later state.** The
step may use an invariant of the earlier state. -/
lemma relation {P : S → Prop} {R : S → S → Prop} (h : History step s t s') (h0 : P s)
    (hinv : ∀ s i s', P s → step s i = .ok s' → P s') (hrefl : ∀ s, R s s)
    (htrans : ∀ s s' s'', R s s' → R s' s'' → R s s'')
    (hstep : ∀ s i s', P s → step s i = .ok s' → R s s') : R s s' := by
  induction h with
  | nil => exact hrefl _
  | snoc hist hs ih => exact htrans _ _ _ ih (hstep _ _ _ (hist.invariant h0 hinv) hs)

/-- The run before and after one of its steps. -/
lemma split {e : Executed S I} (h : History step s t s') (he : e ∈ t) :
    ∃ t₁ t₂, t = t₁ ++ e :: t₂ ∧ History step s t₁ e.pre ∧ step e.pre e.input = .ok e.post ∧
      History step e.post t₂ s' := by
  induction h with
  | nil => cases he
  | @snoc s' s'' t i hist hs ih =>
      rcases List.mem_append.mp he with he | he
      · obtain ⟨t₁, t₂, rfl, h₁, hstep, h₂⟩ := ih he
        exact ⟨t₁, t₂ ++ [⟨s', i, s''⟩], by simp, h₁, hstep, h₂.snoc hs⟩
      · rw [List.mem_singleton.mp he]
        exact ⟨t, [], rfl, hist, hs, .nil _⟩

/-- A run without steps stays where it is. -/
lemma eq_of_nil (h : History step s [] s') : s' = s := by
  generalize hu : ([] : List (Executed S I)) = u at h
  cases h with
  | nil => rfl
  | snoc hist hs => exact absurd hu.symm (List.append_ne_nil_of_right_ne_nil _ (by simp))

/-- The last step of a run. -/
lemma of_concat {e : Executed S I} (h : History step s (t ++ [e]) s') :
    History step s t e.pre ∧ step e.pre e.input = .ok e.post ∧ s' = e.post := by
  generalize hu : t ++ [e] = u at h
  cases h with
  | nil => exact absurd hu (List.append_ne_nil_of_right_ne_nil _ (by simp))
  | snoc hist hs =>
      obtain ⟨rfl, he⟩ := List.append_inj' hu rfl
      obtain rfl := (List.cons.inj he).1
      exact ⟨hist, hs, rfl⟩

/-- The run before and after the step at a given place. -/
lemma split_at {e : Executed S I} (h : History step s (t ++ e :: t') s') :
    History step s t e.pre ∧ step e.pre e.input = .ok e.post ∧ History step e.post t' s' := by
  induction t' using List.reverseRecOn generalizing s' with
  | nil =>
      obtain ⟨h₁, hs, rfl⟩ := h.of_concat
      exact ⟨h₁, hs, .nil _⟩
  | append_singleton t' e' ih =>
      rw [← List.cons_append, ← List.append_assoc] at h
      obtain ⟨h₁, hs', rfl⟩ := h.of_concat
      obtain ⟨h₁, hs, h₂⟩ := ih h₁
      exact ⟨h₁, hs, h₂.snoc hs'⟩

/-- **Provenance**: what holds at the end of a run and not at its start was made
true by one of its steps. -/
lemma exists_step {P : S → Prop} (h : History step s t s') (h0 : ¬P s) (h1 : P s') :
    ∃ e ∈ t, ¬P e.pre ∧ P e.post ∧ step e.pre e.input = .ok e.post := by
  induction h with
  | nil => exact absurd h1 h0
  | @snoc s' s'' t i hist hs ih =>
      by_cases hP : P s'
      · obtain ⟨e, he, hpre, hpost, hstep⟩ := ih hP
        exact ⟨e, List.mem_append_left _ he, hpre, hpost, hstep⟩
      · exact ⟨⟨s', i, s''⟩, by simp, hP, h1, hs⟩

end History

/-! ### Transactions -/

/-- The steps of a transaction, which take effect together or not at all. -/
def atomically (step : S → I → Except ε S) (s : S) (tx : List I) : Except ε S :=
  tx.foldlM step s

/-- The state after one transaction: unchanged when any of its steps is
refused. -/
def runTx (step : S → I → Except ε S) (s : S) (tx : List I) : S :=
  match atomically step s tx with
  | .ok s' => s'
  | .error _ => s

/-- The state after a list of transactions. -/
def run (step : S → I → Except ε S) (s : S) (txs : List (List I)) : S :=
  txs.foldl (runTx step) s

variable {step : S → I → Except ε S}

/-- A transaction that succeeds has the history of its steps. -/
lemma atomically_history {s s' : S} {tx : List I} (h : atomically step s tx = .ok s') :
    ∃ t, t.map Executed.input = tx ∧ History step s t s' := by
  induction tx generalizing s with
  | nil =>
      cases h
      exact ⟨[], rfl, .nil _⟩
  | cons i tx ih =>
      rw [atomically, List.foldlM_cons] at h
      cases hi : step s i with
      | error e =>
          rw [hi] at h
          cases h
      | ok s₁ =>
          rw [hi] at h
          obtain ⟨t, rfl, ht⟩ := ih h
          exact ⟨[⟨s, i, s₁⟩] ++ t, rfl, ((History.nil s).snoc hi).append ht⟩

/-- A transaction that succeeds leads to its state by the history of its steps. -/
lemma runTx_history (step : S → I → Except ε S) (s : S) (tx : List I)
    (h : (atomically step s tx).isOk = true) :
    ∃ t, t.map Executed.input = tx ∧ History step s t (runTx step s tx) := by
  cases htx : atomically step s tx with
  | error e =>
      rw [htx] at h
      cases h
  | ok s' =>
      rw [runTx, htx]
      exact atomically_history htx

/-- The steps of a transaction that are executed one after the other, up to the first that
is refused. -/
def executed (step : S → I → Except ε S) (s : S) : List I → List (Executed S I)
  | [] => []
  | i :: tx =>
      match step s i with
      | .ok s' => ⟨s, i, s'⟩ :: executed step s' tx
      | .error _ => []

/-- A transaction that succeeds has executed all of its steps. -/
lemma executed_history (step : S → I → Except ε S) (s : S) (tx : List I)
    (h : (atomically step s tx).isOk = true) :
    History step s (executed step s tx) (runTx step s tx) := by
  induction tx generalizing s with
  | nil => exact .nil s
  | cons i tx ih =>
      rw [atomically, List.foldlM_cons] at h
      cases hi : step s i with
      | error e =>
          rw [hi] at h
          cases h
      | ok s' =>
          rw [hi] at h
          have hrun : runTx step s (i :: tx) = runTx step s' tx := by
            rw [runTx, runTx, atomically, List.foldlM_cons, hi]
            change (match atomically step s' tx with | .ok s'' => s'' | .error _ => s) = _
            cases htx : atomically step s' tx with
            | ok s'' => rfl
            | error e =>
                rw [atomically] at htx
                change (List.foldlM step s' tx).isOk = true at h
                rw [htx] at h
                cases h
          rw [executed, hi, hrun]
          exact ((History.nil s).snoc hi).append (ih s' h)

/-- Every run of transactions has a history of executed steps. -/
theorem run_history (s : S) (txs : List (List I)) : ∃ t, History step s t (run step s txs) := by
  induction txs generalizing s with
  | nil => exact ⟨[], .nil s⟩
  | cons tx txs ih =>
      obtain ⟨t₂, h₂⟩ := ih (runTx step s tx)
      cases htx : atomically step s tx with
      | error e =>
          have hs : runTx step s tx = s := by rw [runTx, htx]
          rw [hs] at h₂
          exact ⟨t₂, by rw [run, List.foldl_cons, hs]; exact h₂⟩
      | ok s₁ =>
          have hs : runTx step s tx = s₁ := by rw [runTx, htx]
          rw [hs] at h₂
          obtain ⟨t₁, -, h₁⟩ := atomically_history htx
          exact ⟨t₁ ++ t₂, by rw [run, List.foldl_cons, hs]; exact h₁.append h₂⟩

/-- Every history is the run in which each executed step is a transaction. -/
theorem History.eq_run {s s' : S} {t : List (Executed S I)} (h : History step s t s') :
    run step s (t.map fun e => [e.input]) = s' := by
  induction h with
  | nil => rfl
  | @snoc s' s'' t i hist hs ih =>
      rw [List.map_append, run, List.foldl_append]
      rw [run] at ih
      rw [ih]
      simp only [List.map_cons, List.map_nil, List.foldl_cons, List.foldl_nil, runTx, atomically,
        List.foldlM_cons, List.foldlM_nil, hs]
      rfl

end Runs
