import Mathlib.Tactic

/-!
Segments framed by a header of a fixed length that may not tell all lengths apart.

* `frame`, `frames`: a segment behind the header of its length, and a row of segments.
* `RunsInto`: one row of segments runs into another one. At the first segment where they
  differ the second row has a longer one with the same header, and the bytes by which it
  is longer are what the first row frames next.
* `frames_eq_iff`: **two rows of segments have the same bytes exactly when they are the same
  row or one of them runs into the other.**
* `frames_injective`: headers that tell the lengths apart.
-/

namespace Framing

variable {α : Type} (header : ℕ → List α)

/-- A segment behind the header of its length. -/
def frame (b : List α) : List α := header b.length ++ b

/-- A row of segments. -/
def frames (bs : List (List α)) : List α := (bs.map (frame header)).flatten

@[simp] lemma frames_cons (b : List α) (bs : List (List α)) :
    frames header (b :: bs) = frame header b ++ frames header bs := rfl

/-- After a common beginning the second row has a longer segment with the same header, and
the bytes by which it is longer begin the rest of the first row. -/
def RunsInto (as bs : List (List α)) : Prop :=
  ∃ common short extra as' bs', as = common ++ short :: as' ∧
    bs = common ++ (short ++ extra) :: bs' ∧ as'.length = bs'.length ∧ extra ≠ [] ∧
    header (short ++ extra).length = header short.length ∧
    frames header as' = extra ++ frames header bs'

variable {header}

/-- A common first segment may be left out. -/
lemma runsInto_cons {a : List α} {as bs : List (List α)} (h : RunsInto header as bs) :
    RunsInto header (a :: as) (a :: bs) := by
  obtain ⟨common, short, extra, as', bs', rfl, rfl, hrest⟩ := h
  exact ⟨a :: common, short, extra, as', bs', rfl, rfl, hrest⟩

/-- Running into another row gives the same bytes. -/
lemma frames_eq_of_runsInto {as bs : List (List α)} (h : RunsInto header as bs) :
    frames header as = frames header bs := by
  obtain ⟨common, short, extra, as', bs', rfl, rfl, -, -, hheader, hrest⟩ := h
  induction common with
  | nil =>
      simp only [List.nil_append, frames_cons, frame, hheader, hrest, List.append_assoc]
  | cons a common ih => rw [List.cons_append, List.cons_append, frames_cons, frames_cons, ih]

/-- A segment that goes on in the other row. -/
lemma runsInto_of_append {a extra : List α} {as bs : List (List α)} (hlen : as.length = bs.length)
    (hheader : header (a ++ extra).length = header a.length)
    (hrest : frames header as = extra ++ frames header bs) (hne : extra ≠ []) :
    RunsInto header (a :: as) ((a ++ extra) :: bs) :=
  ⟨[], a, extra, as, bs, rfl, rfl, hlen, hne, hheader, hrest⟩

/-- One more segment in front, in the second row at least as long. -/
lemma cons_eq_or_runsInto {a x : List α} {as bs : List (List α)} (hlen : as.length = bs.length)
    (hheader : header (a ++ x).length = header a.length)
    (hrest : frames header as = x ++ frames header bs)
    (ih : frames header as = frames header bs →
      as = bs ∨ RunsInto header as bs ∨ RunsInto header bs as) :
    a :: as = (a ++ x) :: bs ∨ RunsInto header (a :: as) ((a ++ x) :: bs) ∨
      RunsInto header ((a ++ x) :: bs) (a :: as) := by
  by_cases hne : x = []
  · subst hne
    rw [List.append_nil]
    rcases ih hrest with rfl | h1 | h2
    · exact .inl rfl
    · exact .inr (.inl (runsInto_cons h1))
    · exact .inr (.inr (runsInto_cons h2))
  · exact .inr (.inl (runsInto_of_append hlen hheader hrest hne))

/-- **The same bytes.** -/
theorem frames_eq_iff (hfixed : ∀ m n, (header m).length = (header n).length)
    {as bs : List (List α)} (hlen : as.length = bs.length) :
    frames header as = frames header bs ↔
      as = bs ∨ RunsInto header as bs ∨ RunsInto header bs as := by
  constructor
  · intro h
    induction as generalizing bs with
    | nil =>
        rw [List.eq_nil_of_length_eq_zero hlen.symm]
        exact .inl rfl
    | cons a as ih =>
        cases bs with
        | nil => cases hlen
        | cons b bs =>
            have hlen' : as.length = bs.length := Nat.succ.inj hlen
            rw [frames_cons, frames_cons, frame, frame, List.append_assoc, List.append_assoc] at h
            obtain ⟨hheader, hbody⟩ := List.append_inj h (hfixed _ _)
            -- the shorter segment is a beginning of the longer one
            rcases List.append_eq_append_iff.mp hbody with ⟨x, rfl, hx⟩ | ⟨x, rfl, hx⟩
            · exact cons_eq_or_runsInto hlen' hheader.symm hx (ih hlen')
            · refine (cons_eq_or_runsInto hlen'.symm hheader hx fun hbs => ?_).imp Eq.symm Or.symm
              exact (ih hlen' hbs.symm).imp Eq.symm Or.symm
  · rintro (rfl | h | h)
    · rfl
    · exact frames_eq_of_runsInto h
    · exact (frames_eq_of_runsInto h).symm

/-- Rows whose headers tell the lengths apart. -/
theorem frames_injective (hfixed : ∀ m n, (header m).length = (header n).length)
    {as bs : List (List α)} (hlen : as.length = bs.length)
    (hheader : ∀ a ∈ as, ∀ b ∈ bs, header a.length = header b.length → a.length = b.length)
    (h : frames header as = frames header bs) : as = bs := by
  have hno : ∀ {x extra : List α}, extra ≠ [] → x.length ≠ (x ++ extra).length := fun hne heq => by
    rw [List.length_append] at heq
    exact hne (List.eq_nil_of_length_eq_zero (by omega))
  rcases (frames_eq_iff hfixed hlen).mp h with rfl | h1 | h2
  · rfl
  · obtain ⟨common, short, extra, as', bs', rfl, rfl, -, hne, heq, -⟩ := h1
    exact absurd (hheader short (by simp) (short ++ extra) (by simp) heq.symm) (hno hne)
  · obtain ⟨common, short, extra, as', bs', rfl, rfl, -, hne, heq, -⟩ := h2
    exact absurd (hheader (short ++ extra) (by simp) short (by simp) heq).symm (hno hne)

end Framing
