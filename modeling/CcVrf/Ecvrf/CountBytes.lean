import CcVrf.Ecvrf.StreamBytes

/-!
How many strings of bytes there are of a given kind.

* `splitBytes`: a string is its first bytes and the rest.
* `ncard_of_number`, `ncard_of_prefix`: counting strings by the number they encode, and by the
  number that their first bytes encode. `card_byteVec`: there are `256 ^ n` of length `n`.
* `ncard_le_of_take`: how many strings can share their first bytes.
-/

namespace CcVrf

/-- A string by its first bytes and the rest. -/
def splitBytes (m n : ℕ) : ByteVec (m + n) ≃ ByteVec m × ByteVec n where
  toFun b := (⟨b.1.take m, by rw [List.length_take, b.2, Nat.min_eq_left (Nat.le_add_right m n)]⟩,
    ⟨b.1.drop m, by rw [List.length_drop, b.2, Nat.add_sub_cancel_left]⟩)
  invFun p := ⟨p.1.1 ++ p.2.1, by rw [List.length_append, p.1.2, p.2.2]⟩
  left_inv b := Subtype.ext (List.take_append_drop m b.1)
  right_inv p :=
    Prod.ext (Subtype.ext (List.take_left' p.1.2)) (Subtype.ext (List.drop_left' p.1.2))

/-- Strings of one length have different numbers. -/
lemma bytesToBigIntBE_injective (n : ℕ) :
    Function.Injective fun b : ByteVec n => bytesToBigIntBE b.1 := by
  intro a b hab
  simp only [bytesToBigIntBE_eq] at hab
  have hlen : a.1.reverse.length = b.1.reverse.length := by
    rw [List.length_reverse, List.length_reverse, a.2, b.2]
  exact Subtype.ext (List.reverse_injective (bytesToBigIntLE_inj hlen hab))

/-- The numbers of the strings of one length are those that fit. -/
lemma range_bytesToBigIntBE (n : ℕ) :
    Set.range (fun b : ByteVec n => bytesToBigIntBE b.1) = Set.Iio (256 ^ n) := by
  ext m
  constructor
  · rintro ⟨b, rfl⟩
    have hlt := bigEndian_lt b.1
    rw [b.2, ← bytesToBigIntBE_eq_bigEndian] at hlt
    exact hlt
  · intro hm
    refine ⟨⟨(bigIntToBytesLE.loop n m).1.reverse, ?_⟩, ?_⟩
    · rw [List.length_reverse, bigIntToBytesLE.length_loop]
    · simp only [bytesToBigIntBE_eq, List.reverse_reverse]
      exact bigIntToBytesLE.loop_value hm

/-- **Counting strings by their numbers.** -/
lemma ncard_of_number (n : ℕ) (p : ℕ → Prop) [DecidablePred p] :
    {b : ByteVec n | p (bytesToBigIntBE b.1)}.ncard = (256 ^ n).count p := by
  have himage : (fun b : ByteVec n => bytesToBigIntBE b.1) '' {b | p (bytesToBigIntBE b.1)} =
      ((Finset.range (256 ^ n)).filter p : Finset ℕ) := by
    ext m
    rw [Finset.coe_filter]
    constructor
    · rintro ⟨b, hb, rfl⟩
      have hmem : bytesToBigIntBE b.1 ∈ Set.Iio (256 ^ n) :=
        range_bytesToBigIntBE n ▸ Set.mem_range_self b
      exact ⟨Finset.mem_range.mpr hmem, hb⟩
    · rintro ⟨hm, hp⟩
      have hmem : m ∈ Set.range fun b : ByteVec n => bytesToBigIntBE b.1 :=
        range_bytesToBigIntBE n ▸ Finset.mem_range.mp hm
      obtain ⟨b, rfl⟩ := hmem
      exact ⟨b, hp, rfl⟩
  rw [← Set.ncard_image_of_injective _ (bytesToBigIntBE_injective n), himage, Set.ncard_coe_finset,
    Nat.count_eq_card_filter_range]

instance (n : ℕ) : Finite (ByteVec n) :=
  Set.finite_range_iff (bytesToBigIntBE_injective n) |>.mp
    (range_bytesToBigIntBE n ▸ Set.finite_Iio _)

/-- There are `256 ^ n` strings of `n` bytes. -/
lemma card_byteVec (n : ℕ) : Nat.card (ByteVec n) = 256 ^ n := by
  have hcount := ncard_of_number n fun _ => True
  rwa [Set.ofPred_true, Set.ncard_univ, Nat.count_true] at hcount

/-- Counting strings by the number of their first bytes. -/
lemma ncard_of_prefix (m n : ℕ) (p : ℕ → Prop) [DecidablePred p] :
    {b : ByteVec (m + n) | p (bytesToBigIntBE (b.1.take m))}.ncard =
      (256 ^ m).count p * 256 ^ n := by
  have hprod : {b : ByteVec (m + n) | p (bytesToBigIntBE (b.1.take m))} =
      (splitBytes m n).symm '' ({b | p (bytesToBigIntBE b.1)} ×ˢ {b | True}) := by
    ext b
    constructor
    · intro hb
      exact ⟨splitBytes m n b, ⟨hb, trivial⟩, (splitBytes m n).symm_apply_apply b⟩
    · rintro ⟨⟨x, y⟩, ⟨hx, -⟩, rfl⟩
      have htake : ((splitBytes m n).symm (x, y)).1.take m = x.1 := List.take_left' x.2
      change p (bytesToBigIntBE (((splitBytes m n).symm (x, y)).1.take m))
      rwa [htake]
  rw [hprod, Set.ncard_image_of_injective _ (splitBytes m n).symm.injective, Set.ncard_prod,
    ncard_of_number, Set.ofPred_true, Set.ncard_univ, card_byteVec]

/-- Strings that share their first bytes are at most as many as the ends they can have. -/
lemma ncard_le_of_take {m n : ℕ} {S : Set (ByteVec (m + n))}
    (h : ∀ a ∈ S, ∀ b ∈ S, a.1.take m = b.1.take m) : S.ncard ≤ 256 ^ n := by
  have hinj : Set.InjOn (fun a => (splitBytes m n a).2) S := fun a ha b hb hab =>
    (splitBytes m n).injective (Prod.ext (Subtype.ext (h a ha b hb)) hab)
  rw [← card_byteVec, ← Set.ncard_univ]
  exact Set.ncard_le_ncard_of_injOn _ (fun _ _ => Set.mem_univ _) hinj

end CcVrf
