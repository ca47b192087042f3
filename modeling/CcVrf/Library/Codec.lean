import Mathlib.Tactic

/-!
Binary layouts of a fixed size that are read from the front of a buffer.

* `Codec`: a writer and a reader that give the value back and leave the bytes that
  follow it. A reader ignores what comes after its value.
* `read_encode_append`, `read_encode_eq_none`: reading a written value, also with a
  layout that is too long for it.
* `Codec.fixed`, `Codec.byte`, `Codec.bool`: the primitive layouts.
* `Codec.seq`, `Codec.map`: one field after the other, and a record from its
  fields.
-/

/-- A layout of the values of `α` in `size` bytes. -/
structure Codec (α : Type) where
  size : ℕ
  encode : α → List UInt8
  decode : List UInt8 → Option (α × List UInt8)
  /-- Reading a written value gives it back, and the bytes that follow. -/
  decode_encode : ∀ a rest, decode (encode a ++ rest) = some (a, rest)
  /-- Reading consumes `size` bytes. -/
  decode_length : ∀ b v, decode b = some v → b.length = size + v.2.length

namespace Codec

variable {α β : Type}

/-- The value at the front of a buffer, whatever follows it. -/
def read (c : Codec α) (b : List UInt8) : Option α := (c.decode b).map Prod.fst

/-- **Round trip**, with bytes after the value. -/
@[simp] theorem read_encode_append (c : Codec α) (a : α) (rest : List UInt8) :
    c.read (c.encode a ++ rest) = some a := by
  rw [read, c.decode_encode, Option.map_some]

/-- **Round trip.** -/
@[simp] theorem read_encode (c : Codec α) (a : α) : c.read (c.encode a) = some a := by
  rw [← List.append_nil (c.encode a), read_encode_append]

/-- A written value has the size of the layout. -/
lemma encode_length (c : Codec α) (a : α) : (c.encode a).length = c.size := by
  have h := c.decode_length (c.encode a) (a, []) (by
    rw [← List.append_nil (c.encode a), c.decode_encode])
  simpa using h

/-- Nothing is read from a buffer that is too short. -/
lemma read_eq_none {c : Codec α} {b : List UInt8} (h : b.length < c.size) : c.read b = none := by
  cases hd : c.decode b with
  | none => rw [read, hd, Option.map_none]
  | some v =>
      have hlen := c.decode_length b v hd
      omega

/-- A longer layout reads nothing from what a shorter one wrote. -/
lemma read_encode_eq_none {c : Codec α} {c' : Codec β} (h : c.size < c'.size) (a : α) :
    c'.read (c.encode a) = none :=
  read_eq_none (by rwa [encode_length])

/-- A fixed number of bytes. -/
def fixed (n : ℕ) : Codec {b : List UInt8 // b.length = n} where
  size := n
  encode b := b.1
  decode b :=
    if h : n ≤ b.length then some (⟨b.take n, by rw [List.length_take, Nat.min_eq_left h]⟩, b.drop n)
    else none
  decode_encode := by
    rintro ⟨b, rfl⟩ rest
    rw [dif_pos (by simp)]
    simp
  decode_length b v h := by
    split at h
    next hn =>
      cases h
      rw [List.length_drop]
      omega
    next => cases h

/-- One byte. -/
def byte : Codec UInt8 where
  size := 1
  encode b := [b]
  decode
    | [] => none
    | b :: rest => some (b, rest)
  decode_encode _ _ := rfl
  decode_length b v h := by
    cases b with
    | nil => cases h
    | cons b rest =>
        cases h
        rw [List.length_cons, Nat.add_comm]

/-- A byte that is `0` or `1`. -/
def bool : Codec Bool where
  size := 1
  encode v := [if v then 1 else 0]
  decode
    | [] => none
    | b :: rest => if b = 0 then some (false, rest) else if b = 1 then some (true, rest) else none
  decode_encode v _ := by cases v <;> rfl
  decode_length b v h := by
    cases b with
    | nil => cases h
    | cons b rest =>
        have hrest : v.2 = rest := by
          simp only at h
          split_ifs at h <;> cases h <;> rfl
        rw [hrest, List.length_cons, Nat.add_comm]

/-- One value after the other. -/
def seq (c : Codec α) (d : Codec β) : Codec (α × β) where
  size := c.size + d.size
  encode v := c.encode v.1 ++ d.encode v.2
  decode b := (c.decode b).bind fun x => (d.decode x.2).map fun y => ((x.1, y.1), y.2)
  decode_encode v rest := by
    rw [List.append_assoc, c.decode_encode, Option.bind_some, d.decode_encode, Option.map_some]
  decode_length b v h := by
    obtain ⟨x, hx, hxy⟩ := Option.bind_eq_some_iff.mp h
    obtain ⟨y, hy, rfl⟩ := Option.map_eq_some_iff.mp hxy
    have h1 := c.decode_length b x hx
    have h2 := d.decode_length x.2 y hy
    simp only at h1 h2 ⊢
    omega

/-- The layout of a record, from the layout of its fields. -/
def map (c : Codec α) (build : α → β) (fields : β → α) (h : ∀ v, build (fields v) = v) :
    Codec β where
  size := c.size
  encode v := c.encode (fields v)
  decode b := (c.decode b).map (Prod.map build id)
  decode_encode v rest := by
    rw [c.decode_encode, Option.map_some, Prod.map, h]
    rfl
  decode_length b v h := by
    obtain ⟨x, hx, rfl⟩ := Option.map_eq_some_iff.mp h
    exact c.decode_length b x hx

/-- A record is read from the front of its first part, whatever second part was
written. -/
lemma seq_decode_encode (c : Codec α) (d : Codec β) (a : α) (rest : List UInt8) :
    (c.seq d).decode (c.encode a ++ rest) = (d.decode rest).map fun y => ((a, y.1), y.2) := by
  simp only [seq, c.decode_encode, Option.bind_some]

end Codec
