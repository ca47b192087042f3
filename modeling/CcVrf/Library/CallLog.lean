import Mathlib.Tactic

/-!
Running a program that may throw with a record of the calls it makes.

A program that is written over any monad with exceptions runs in two ways: among the plain
results, and among the logged ones, where every call of the operation under scrutiny is
appended to a log. `Matches` compares the two runs.

* `Logged`: the logged results; `call` makes a call with its arguments on record.
* `Matches P x r`: whatever was logged before, `x` ends as `r` does and logs only calls that
  satisfy `P`. `Matches.pure`, `Matches.throw`, `Matches.call`, `Matches.bind` and
  `Matches.ite` follow the program.
* `Matches.outcome_eq`, `Matches.of_mem_calls`: **the logged run ends as the plain one, and
  every call it made satisfies `P`.**
-/

namespace CallLog

variable {κ ε α β : Type}

/-- A computation that may throw `ε` and that keeps a log of calls. -/
abbrev Logged (κ ε : Type) : Type → Type := ExceptT ε (StateM (List κ))

/-- A call with arguments `k` and result `r`: it is logged whether it throws or not. -/
def call (k : κ) (r : Except ε α) : Logged κ ε α := ExceptT.mk fun log => (r, log ++ [k])

/-- How a computation ends. -/
def outcome (x : Logged κ ε α) : Except ε α := (x.run.run []).1

/-- The calls that it makes, in order. -/
def calls (x : Logged κ ε α) : List κ := (x.run.run []).2

section Bind

variable {x : Logged κ ε α} {log log' : List κ}

/-- After a part that returned, the rest runs on its log. -/
lemma run_bind_of_ok (f : α → Logged κ ε β) {a : α} (h : x.run.run log = (.ok a, log')) :
    (x >>= f).run.run log = (f a).run.run log' := by
  rw [ExceptT.run_bind, StateT.run_bind, h]
  rfl

/-- After a part that threw, nothing more is logged. -/
lemma run_bind_of_error (f : α → Logged κ ε β) {e : ε} (h : x.run.run log = (.error e, log')) :
    (x >>= f).run.run log = (.error e, log') := by
  rw [ExceptT.run_bind, StateT.run_bind, h]
  rfl

end Bind

/-- The logged computation ends as `r`, and every call it adds to the log satisfies `P`. -/
def Matches (P : κ → Prop) (x : Logged κ ε α) (r : Except ε α) : Prop :=
  ∀ log, ∃ new, x.run.run log = (r, log ++ new) ∧ ∀ k ∈ new, P k

namespace Matches

variable {P : κ → Prop} {x y : Logged κ ε α} {r r' : Except ε α}

protected lemma pure (a : α) : Matches P (Pure.pure a : Logged κ ε α) (.ok a) :=
  fun log => ⟨[], by rw [List.append_nil]; rfl, by simp⟩

protected lemma throw (e : ε) :
    Matches P (MonadExcept.throw e : Logged κ ε α) (.error e) :=
  fun log => ⟨[], by rw [List.append_nil]; rfl, by simp⟩

/-- A call is on record with its own arguments. -/
protected lemma call {k : κ} (h : P k) (r : Except ε α) : Matches P (CallLog.call k r) r :=
  fun log => ⟨[k], rfl, by simpa using h⟩

/-- **Sequences.** The second part runs only after the first returned. -/
protected lemma bind {f : α → Logged κ ε β} {g : α → Except ε β} (hx : Matches P x r)
    (hf : ∀ a, r = .ok a → Matches P (f a) (g a)) : Matches P (x >>= f) (r >>= g) := by
  intro log
  obtain ⟨new, hrun, hnew⟩ := hx log
  cases r with
  | error e => exact ⟨new, run_bind_of_error f hrun, hnew⟩
  | ok a =>
      obtain ⟨rest, hrest, hP⟩ := hf a rfl (log ++ new)
      refine ⟨new ++ rest, ?_, fun k hk => ?_⟩
      · rw [run_bind_of_ok f hrun, ← List.append_assoc]
        exact hrest
      · rcases List.mem_append.mp hk with hk | hk
        · exact hnew k hk
        · exact hP k hk

/-- Both runs take the same branch. -/
protected lemma ite {c : Prop} [Decidable c] (hx : c → Matches P x r)
    (hy : ¬c → Matches P y r') : Matches P (if c then x else y) (if c then r else r') := by
  split_ifs with hc
  · exact hx hc
  · exact hy hc

/-- **The log is only a record**: the logged run ends as the plain one. -/
lemma outcome_eq (h : Matches P x r) : outcome x = r := by
  obtain ⟨new, hrun, -⟩ := h []
  rw [outcome, hrun]

/-- Every call of the run satisfies the condition. -/
lemma of_mem_calls (h : Matches P x r) {k : κ} (hk : k ∈ calls x) : P k := by
  obtain ⟨new, hrun, hnew⟩ := h []
  rw [calls, hrun, List.nil_append] at hk
  exact hnew k hk

end Matches

end CallLog
