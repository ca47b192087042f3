import Mathlib.Tactic

/-!
Infinite strings that are made of blocks of one length, and the buffer of a reader.

* `ofBlocks`: the concatenation of infinitely many blocks; `window` is a finite piece of
  an infinite string, and `window_add` cuts it in two.
* `Unread`: the invariant of a reader that keeps one block. What is left in the buffer is
  the piece of the string from the reader's position to the next block.
* `Unread.refill`, `Unread.advance`: **a refill of an empty buffer and a partial read of a
  buffer keep the invariant**, and what is read is the next piece of the string.
-/

namespace BlockString

variable {α : Type} {size : ℕ}

/-- The infinite concatenation of blocks. -/
def ofBlocks [NeZero size] (block : ℕ → {l : List α // l.length = size}) (i : ℕ) : α :=
  (block (i / size)).1.get ⟨i % size, by
    rw [(block (i / size)).2]
    exact Nat.mod_lt i (Nat.pos_of_ne_zero (NeZero.ne size))⟩

/-- The `n` entries of a string from a position on. -/
def window (s : ℕ → α) (pos n : ℕ) : List α := (List.range n).map fun i => s (pos + i)

@[simp] lemma length_window (s : ℕ → α) (pos n : ℕ) : (window s pos n).length = n := by
  rw [window, List.length_map, List.length_range]

@[simp] lemma window_zero (s : ℕ → α) (pos : ℕ) : window s pos 0 = [] := rfl

/-- A piece is two pieces, one after the other. -/
lemma window_add (s : ℕ → α) (pos m n : ℕ) :
    window s pos (m + n) = window s pos m ++ window s (pos + m) n := by
  rw [window, List.range_add, List.map_append, List.map_map]
  congr 1
  exact List.map_congr_left fun i _ => congrArg s (Nat.add_assoc pos m i).symm

/-- A whole block is a piece of the string. -/
lemma window_block [NeZero size] (block : ℕ → {l : List α // l.length = size}) (k : ℕ) :
    window (ofBlocks block) (size * k) size = (block k).1 := by
  have hlen := (block k).2
  refine List.ext_getElem (by rw [length_window, hlen]) fun i hi hi' => ?_
  rw [length_window] at hi
  have hdiv : (size * k + i) / size = k := by
    rw [Nat.mul_add_div (Nat.pos_of_ne_zero (NeZero.ne size)), Nat.div_eq_of_lt hi, Nat.add_zero]
  have hmod : (size * k + i) % size = i := by
    rw [Nat.mul_add_mod, Nat.mod_eq_of_lt hi]
  simp only [window, List.getElem_map, List.getElem_range, ofBlocks, List.get_eq_getElem, hdiv, hmod]

/-- What is left in a buffer is the piece of the string from `pos` to the start of block
`next`. -/
structure Unread (s : ℕ → α) (size : ℕ) (buf : List α) (offset next pos : ℕ) : Prop where
  inside : offset ≤ buf.length
  position : pos + (buf.length - offset) = size * next
  rest : buf.drop offset = window s pos (buf.length - offset)

/-- A reader at the start, with nothing in its buffer. -/
lemma Unread.start (s : ℕ → α) (size : ℕ) : Unread s size [] 0 0 0 where
  inside := le_rfl
  position := rfl
  rest := rfl

variable {buf : List α} {offset next pos : ℕ}

/-- **A refill.** When the buffer is read up to its end, the next block takes its
place. -/
lemma Unread.refill [NeZero size] {block : ℕ → {l : List α // l.length = size}}
    (h : Unread (ofBlocks block) size buf offset next pos) (hend : buf.length ≤ offset) :
    Unread (ofBlocks block) size (block next).1 0 (next + 1) pos := by
  have hpos : pos = size * next := by
    have hposition := h.position
    omega
  refine ⟨Nat.zero_le _, ?_, ?_⟩
  · rw [(block next).2, hpos, Nat.sub_zero, Nat.mul_succ]
  · rw [List.drop_zero, (block next).2, Nat.sub_zero, hpos, window_block]

/-- **A partial read.** Taking no more than what is left gives the next piece of the
string and moves the position behind it. -/
lemma Unread.advance {s : ℕ → α} (h : Unread s size buf offset next pos) {n : ℕ}
    (hn : n ≤ buf.length - offset) :
    (buf.drop offset).take n = window s pos n ∧ Unread s size buf (offset + n) next (pos + n) := by
  obtain ⟨hinside, hposition, hrest⟩ := h
  have hsplit : buf.length - offset = n + (buf.length - (offset + n)) := by omega
  rw [hsplit, window_add] at hrest
  refine ⟨?_, ⟨by omega, by omega, ?_⟩⟩
  · rw [hrest, List.take_left' (length_window s pos n)]
  · rw [← List.drop_drop, hrest, List.drop_left' (length_window s pos n)]

end BlockString
