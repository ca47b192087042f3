import Mathlib.Data.List.Basic
import Mathlib.Tactic

/-!
Flat lists of what the entries of a list give, where each item has the key of its entry.

* `filter_flatMap_key`: the items with the key of an entry are its own.
* `flatMap_perm_iff`: entries that give a part of what they should give it all exactly
  when the flat lists are permutations of each other.
* `reverse_flatMap_sublist_iff`: **reversing a flat list reverses the order of its chunks
  and the order inside each chunk**, so it has the items in the order of the reversed
  entries exactly when the chunks read the same in both directions.
-/

namespace KeyedChunks

open scoped List

variable {α β κ : Type}

/-- Among the items that the entries of a list with distinct keys give, those with the
key of an entry are its own. -/
lemma filter_flatMap_key [DecidableEq κ] {f : α → List β} (key : α → κ) {keyOf : β → κ} {l : List α}
    (hkey : ∀ a ∈ l, ∀ b ∈ f a, keyOf b = key a) (hdistinct : (l.map key).Nodup) {a : α}
    (ha : a ∈ l) : (l.flatMap f).filter (fun b => keyOf b == key a) = f a := by
  obtain ⟨pre, post, rfl⟩ := List.append_of_mem ha
  have hother : ∀ l' : List α, (∀ x ∈ l', x ∈ pre ++ a :: post ∧ key x ≠ key a) →
      (l'.flatMap f).filter (fun b => keyOf b == key a) = [] := by
    intro l' hl'
    refine List.filter_eq_nil_iff.mpr fun b hb heq => ?_
    obtain ⟨x, hx, hbx⟩ := List.mem_flatMap.mp hb
    obtain ⟨hmem, hne⟩ := hl' x hx
    exact hne ((hkey x hmem b hbx).symm.trans (beq_iff_eq.mp heq))
  have hself : (f a).filter (fun b => keyOf b == key a) = f a :=
    List.filter_eq_self.mpr fun b hb => beq_iff_eq.mpr (hkey a ha b hb)
  rw [List.map_append, List.map_cons, List.nodup_append, List.nodup_cons] at hdistinct
  obtain ⟨-, ⟨hpost, -⟩, hpre⟩ := hdistinct
  rw [List.flatMap_append, List.flatMap_cons, List.filter_append, List.filter_append, hself,
    hother pre, hother post, List.nil_append, List.append_nil]
  · exact fun x hx => ⟨by simp [hx], fun h => hpost (h ▸ List.mem_map_of_mem hx)⟩
  · exact fun x hx => ⟨by simp [hx], hpre _ (List.mem_map_of_mem hx) _ (List.mem_cons_self ..)⟩

/-- Entries that give sublists of what they should give all of it when the lengths of
the whole agree. -/
lemma eq_of_length_flatMap_eq {f g : α → List β} {l : List α}
    (hsub : ∀ a ∈ l, (f a).Sublist (g a))
    (hlen : (l.flatMap f).length = (l.flatMap g).length) : ∀ a ∈ l, f a = g a := by
  induction l with
  | nil => exact fun a ha => nomatch ha
  | cons a l ih =>
      rw [List.forall_mem_cons] at hsub ⊢
      rw [List.flatMap_cons, List.flatMap_cons, List.length_append, List.length_append] at hlen
      have hhead := hsub.1.length_le
      have htail := (List.Sublist.flatMap_right l hsub.2).length_le
      exact ⟨hsub.1.eq_of_length (by omega), ih hsub.2 (by omega)⟩

/-- Where every entry gives a sublist of what it should, the whole is a permutation of
what it should be exactly when every entry gives all. -/
lemma flatMap_perm_iff {f g : α → List β} {l : List α} (hsub : ∀ a ∈ l, (f a).Sublist (g a)) :
    (l.flatMap f).Perm (l.flatMap g) ↔ ∀ a ∈ l, f a = g a := by
  constructor
  · intro hperm
    exact eq_of_length_flatMap_eq hsub hperm.length_eq
  · intro heq
    rw [List.flatMap_congr heq]

/-- **Reversing a flat list.** Let the entries of a list with distinct keys give all or
nothing of their items. What some of them give, reversed as one flat list, has the items in
the order of the reversed list exactly when what each of them gives reads the same in both
directions. -/
theorem reverse_flatMap_sublist_iff [DecidableEq κ] {f g : α → List β} (key : α → κ)
    {keyOf : β → κ} {l part : List α} (hpart : part.Sublist l)
    (hkey : ∀ a ∈ l, ∀ b ∈ g a, keyOf b = key a) (hdistinct : (l.map key).Nodup)
    (hall : ∀ a ∈ l, f a = g a ∨ f a = []) :
    (part.flatMap f).reverse.Sublist (l.reverse.flatMap g) ↔ ∀ a ∈ part, (f a).reverse = f a := by
  have hmem : ∀ {a}, a ∈ part → a ∈ l := fun ha => hpart.subset ha
  have hsublist : ∀ a ∈ l, (f a).Sublist (g a) := by
    intro a ha
    rcases hall a ha with heq | hnil
    · rw [heq]
    · rw [hnil]
      exact List.nil_sublist _
  have hkeyf : ∀ a ∈ part, ∀ b ∈ f a, keyOf b = key a := fun a ha b hb =>
    hkey a (hmem ha) b ((hsublist a (hmem ha)).subset hb)
  constructor
  · intro hsub a ha
    -- compare the items with the key of `a` on both sides
    have hown := hsub.filter fun b => keyOf b == key a
    rw [List.filter_reverse,
      filter_flatMap_key key hkeyf (hdistinct.sublist (hpart.map key)) ha,
      filter_flatMap_key key (fun x hx => hkey x (List.mem_reverse.mp hx))
        (by rwa [List.map_reverse, List.nodup_reverse]) (List.mem_reverse.mpr (hmem ha))] at hown
    rcases hall a (hmem ha) with heq | hnil
    · rw [← heq] at hown
      exact hown.eq_of_length (List.length_reverse ..)
    · rw [hnil, List.reverse_nil]
  · intro hmirror
    have hflat : (part.flatMap f).reverse = part.reverse.flatMap f := by
      rw [List.reverse_flatMap]
      exact List.flatMap_congr fun a ha => hmirror a (List.mem_reverse.mp ha)
    rw [hflat]
    calc part.reverse.flatMap f
        <+ part.reverse.flatMap g := List.Sublist.flatMap_right _ fun a ha =>
          hsublist a (hmem (List.mem_reverse.mp ha))
      _ <+ l.reverse.flatMap g := List.Sublist.flatMap hpart.reverse g

end KeyedChunks
