import Mathlib.Data.List.Perm.Basic
import Mathlib.Tactic

/-!
Selecting the first match of a list and accepting it.

A list is searched for the first element that passes a cheap test `p`, and only that
element is put to the full test `v`, which implies `p`.

* `accepts`: the first match passes the full test.
* `accepts_of_agree`: where the two tests agree on the list, an element that passes
  the full test is never lost.
* `accepts_every_order_iff`: every order of the list is accepted exactly when an element
  passes the full test and no element passes the cheap test only.
* `resolves_iff`: **the search finds an acceptable element in every order of the list
  exactly when the two tests agree**, or no element passes the full test.
-/

namespace FirstMatch

variable {α : Type} (p : α → Bool) (v : α → Prop)

/-- The first match passes the full test. -/
def accepts (l : List α) : Prop := ∃ c, (l.filter p).head? = some c ∧ v c

variable {p v} {l l' : List α}

/-- An accepted list has an element that passes the full test. -/
lemma exists_of_accepts (h : accepts p v l) : ∃ c ∈ l, v c := by
  obtain ⟨c, hc, hv⟩ := h
  exact ⟨c, List.mem_of_mem_filter (List.mem_of_mem_head? hc), hv⟩

/-- Where the tests agree, an element that passes the full test is never lost. -/
lemma accepts_of_agree (hvp : ∀ c, v c → p c = true) (hagree : ∀ c ∈ l, p c = true → v c)
    (h : ∃ c ∈ l, v c) : accepts p v l := by
  obtain ⟨c, hc, hv⟩ := h
  have hne : l.filter p ≠ [] :=
    List.ne_nil_of_mem (List.mem_filter.mpr ⟨hc, hvp c hv⟩)
  have hhead := List.head_mem hne
  refine ⟨(l.filter p).head hne, List.head?_eq_some_head hne, ?_⟩
  exact hagree _ (List.mem_of_mem_filter hhead) (List.mem_filter.mp hhead).2

/-- An element that passes only the cheap test, put in front, is what the search
finds. -/
lemma not_accepts_cons {c : α} (hp : p c = true) (hv : ¬v c) : ¬accepts p v (c :: l) := by
  rintro ⟨c', hc', hv'⟩
  rw [List.filter_cons_of_pos hp, List.head?_cons] at hc'
  cases hc'
  exact hv hv'

/-- **When every order is accepted**: some element passes the full test, and no element
passes the cheap test only. -/
theorem accepts_every_order_iff [DecidableEq α] (hvp : ∀ c, v c → p c = true) :
    (∀ l', l'.Perm l → accepts p v l') ↔ (∃ c ∈ l, v c) ∧ ∀ c ∈ l, p c = true → v c := by
  constructor
  · intro h
    refine ⟨exists_of_accepts (h l (List.Perm.refl l)), fun c hc hp => ?_⟩
    by_contra hv
    exact not_accepts_cons hp hv (h (c :: l.erase c) (List.perm_cons_erase hc).symm)
  · rintro ⟨⟨c, hc, hv⟩, hagree⟩ l' hperm
    exact accepts_of_agree hvp (fun c hc => hagree c (hperm.mem_iff.mp hc))
      ⟨c, hperm.mem_iff.mpr hc, hv⟩

/-- **When the search loses nothing**: the list resolves, and so does every other
order of it, exactly when an acceptable element comes with no element that passes
the cheap test only. -/
theorem resolves_iff [DecidableEq α] (hvp : ∀ c, v c → p c = true) :
    (((∃ c ∈ l, v c) → accepts p v l) ∧
        ∀ l', l'.Perm l → (accepts p v l' ↔ accepts p v l)) ↔
      ¬((∃ c ∈ l, v c) ∧ ∃ c ∈ l, p c = true ∧ ¬v c) := by
  constructor
  · rintro ⟨hresolves, horder⟩ ⟨hgood, c, hc, hp, hv⟩
    have hfirst := (horder (c :: l.erase c) (List.perm_cons_erase hc).symm).mpr (hresolves hgood)
    exact not_accepts_cons hp hv hfirst
  · intro hnot
    have hagree : (∃ c ∈ l, v c) → ∀ c ∈ l, p c = true → v c := by
      intro hgood c hc hp
      by_contra hv
      exact hnot ⟨hgood, c, hc, hp, hv⟩
    refine ⟨fun hgood => accepts_of_agree hvp (hagree hgood) hgood, fun l' hperm => ?_⟩
    constructor
    · intro h
      obtain ⟨c, hc, hv⟩ := exists_of_accepts h
      have hgood : ∃ c ∈ l, v c := ⟨c, hperm.mem_iff.mp hc, hv⟩
      exact accepts_of_agree hvp (hagree hgood) hgood
    · intro h
      obtain ⟨c, hc, hv⟩ := exists_of_accepts h
      have hagree' := hagree ⟨c, hc, hv⟩
      exact accepts_of_agree hvp (fun c hc => hagree' c (hperm.mem_iff.mp hc))
        ⟨c, hperm.mem_iff.mpr hc, hv⟩

end FirstMatch
