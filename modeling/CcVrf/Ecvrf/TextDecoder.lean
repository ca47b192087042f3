import CcVrf.Ecvrf.WellFormed
import Mathlib.Data.List.DropRight

/-!
The UTF-8 decoder, and what it makes of the bytes of a text that were padded with zeros.

* `Utf8Decoder`, `decodeFrom`: the decoder byte by byte, with the bounds of the next byte; what
  is not UTF-8 becomes U+FFFD, and the byte that ends it is read again.
* `textDecode`: `new TextDecoder().decode(bytes)`, which drops a byte order mark.
* `decodeFrom_flatMap_utf8`: the decoder gives back the scalar values of an encoded list.
* `padded_rdropWhile`: the zeros at the end of a padded text are those of the padding and those
  of the text.
* `shownText`, `shownText_eq_self_iff`: **a text is shown as it was typed exactly when** it is
  well formed, does not start with a byte order mark and does not end with a NUL.
-/

namespace CcVrf

/-! ### The decoder -/

/-- The decoder between two bytes: how many bytes a scalar value still needs, the bounds of the
next one, and the bits so far. -/
structure Utf8Decoder where
  needed : ℕ
  lower : ℕ
  upper : ℕ
  codePoint : ℕ
deriving DecidableEq

/-- Between two scalar values. -/
def Utf8Decoder.start : Utf8Decoder := ⟨0, 0x80, 0xBF, 0⟩

/-- The first byte of a scalar value. -/
def Utf8Decoder.first (b : UInt8) : Utf8Decoder × List ℕ :=
  if b.toNat < 0x80 then (start, [b.toNat])
  else if 0xC2 ≤ b.toNat ∧ b.toNat ≤ 0xDF then (⟨1, 0x80, 0xBF, b.toNat % 0x20⟩, [])
  else if 0xE0 ≤ b.toNat ∧ b.toNat ≤ 0xEF then
    (⟨2, if b.toNat = 0xE0 then 0xA0 else 0x80, if b.toNat = 0xED then 0x9F else 0xBF,
      b.toNat % 0x10⟩, [])
  else if 0xF0 ≤ b.toNat ∧ b.toNat ≤ 0xF4 then
    (⟨3, if b.toNat = 0xF0 then 0x90 else 0x80, if b.toNat = 0xF4 then 0x8F else 0xBF,
      b.toNat % 0x08⟩, [])
  else (start, [replacementCharacter])

/-- One byte. A byte out of bounds ends the scalar value and is read again as a first byte. -/
def Utf8Decoder.step (d : Utf8Decoder) (b : UInt8) : Utf8Decoder × List ℕ :=
  if d.needed = 0 then first b
  else if d.lower ≤ b.toNat ∧ b.toNat ≤ d.upper then
    if d.needed = 1 then (start, [d.codePoint * 0x40 + b.toNat % 0x40])
    else (⟨d.needed - 1, 0x80, 0xBF, d.codePoint * 0x40 + b.toNat % 0x40⟩, [])
  else ((first b).1, replacementCharacter :: (first b).2)

/-- The scalar values of the bytes from a state. -/
def decodeFrom (d : Utf8Decoder) : Bytes → List ℕ
  | [] => if d.needed = 0 then [] else [replacementCharacter]
  | b :: rest => (d.step b).2 ++ decodeFrom (d.step b).1 rest

/-- The byte order mark. -/
def byteOrderMark : ℕ := 0xFEFF

/-- The scalar values without a byte order mark in front. -/
def dropMark : List ℕ → List ℕ
  | [] => []
  | n :: rest => if n = byteOrderMark then rest else n :: rest

/-- `new TextDecoder().decode(bytes)`. -/
def textDecode (bytes : Bytes) : JsString :=
  (dropMark (decodeFrom .start bytes)).flatMap utf16

/-- The parts of a surrogate, an overlong form and the start of a text that breaks off are not
UTF-8; a byte order mark in front is dropped. -/
example : textDecode [0xED, 0xA0, 0x80] = [0xFFFD, 0xFFFD, 0xFFFD] ∧
    textDecode [0xC0, 0xAF] = [0xFFFD, 0xFFFD] ∧
    textDecode [0xF0, 0x9F, 0x98] = [0xFFFD] ∧
    textDecode [0xE2, 0x82, 0x41] = [0xFFFD, 0x41] ∧
    textDecode [0xEF, 0xBB, 0xBF, 0xF0, 0x9F, 0x98, 0x80] = [0xD83D, 0xDE00] := by decide +kernel

/-! ### Decoding what was encoded -/

/-- A scalar value: a code point that is no surrogate. -/
def IsScalarValue (n : ℕ) : Prop := n < 0xD800 ∨ (0xDFFF < n ∧ n < 0x110000)

/-- A byte in bounds that is not the last one. -/
lemma decodeFrom_next {d : Utf8Decoder} {b : UInt8} (hneeded : 2 ≤ d.needed)
    (hlower : d.lower ≤ b.toNat) (hupper : b.toNat ≤ d.upper) (rest : Bytes) :
    decodeFrom d (b :: rest) =
      decodeFrom ⟨d.needed - 1, 0x80, 0xBF, d.codePoint * 0x40 + b.toNat % 0x40⟩ rest := by
  rw [decodeFrom, Utf8Decoder.step, if_neg (by omega), if_pos ⟨hlower, hupper⟩, if_neg (by omega)]
  rfl

/-- A byte in bounds that is the last one. -/
lemma decodeFrom_last {d : Utf8Decoder} {b : UInt8} (hneeded : d.needed = 1)
    (hlower : d.lower ≤ b.toNat) (hupper : b.toNat ≤ d.upper) (rest : Bytes) :
    decodeFrom d (b :: rest) = (d.codePoint * 0x40 + b.toNat % 0x40) :: decodeFrom .start rest := by
  rw [decodeFrom, Utf8Decoder.step, if_neg (by omega), if_pos ⟨hlower, hupper⟩, if_pos hneeded]
  rfl

/-- A first byte. -/
lemma decodeFrom_first (b : UInt8) (rest : Bytes) :
    decodeFrom .start (b :: rest) =
      (Utf8Decoder.first b).2 ++ decodeFrom (Utf8Decoder.first b).1 rest := by
  rw [decodeFrom, Utf8Decoder.step, if_pos (show Utf8Decoder.start.needed = 0 from rfl)]

/-- **The decoder reads an encoded scalar value back**: the bounds of the next byte let its
bytes through. -/
lemma decodeFrom_utf8 {n : ℕ} (hn : IsScalarValue n) (rest : Bytes) :
    decodeFrom .start (utf8 n ++ rest) = n :: decodeFrom .start rest := by
  have hbyte : ∀ {k : ℕ}, k < 256 → (UInt8.ofNat k).toNat = k := fun hk => by
    rw [UInt8.toNat_ofNat', Nat.mod_eq_of_lt hk]
  rw [IsScalarValue] at hn
  rw [utf8]
  split_ifs with h1 h2 h3
  · rw [List.singleton_append, decodeFrom_first, Utf8Decoder.first, hbyte (by omega), if_pos h1]
    rfl
  · rw [List.cons_append, List.singleton_append, decodeFrom_first, Utf8Decoder.first,
      hbyte (by omega), if_neg (by omega), if_pos (by omega), List.nil_append,
      decodeFrom_last rfl]
    all_goals simp only [toNat_continuationByte, List.cons.injEq, and_true]
    all_goals omega
  · rw [List.cons_append, List.cons_append, List.singleton_append, decodeFrom_first,
      Utf8Decoder.first, hbyte (by omega), if_neg (by omega), if_neg (by omega), if_pos (by omega),
      List.nil_append, decodeFrom_next le_rfl, decodeFrom_last rfl]
    all_goals simp only [toNat_continuationByte, List.cons.injEq, and_true]
    · omega
    · omega
    · omega
    -- the bounds behind the first byte
    · split_ifs <;> omega
    · split_ifs <;> omega
  · rw [List.cons_append, List.cons_append, List.cons_append, List.singleton_append,
      decodeFrom_first, Utf8Decoder.first, hbyte (by omega), if_neg (by omega), if_neg (by omega),
      if_neg (by omega), if_pos (by omega), List.nil_append, decodeFrom_next (by norm_num),
      decodeFrom_next le_rfl, decodeFrom_last rfl]
    all_goals simp only [toNat_continuationByte, List.cons.injEq, and_true]
    · omega
    · omega
    · omega
    · omega
    · omega
    · split_ifs <;> omega
    · split_ifs <;> omega

/-- **The scalar values of an encoded list.** -/
lemma decodeFrom_flatMap_utf8 : ∀ {ns : List ℕ}, (∀ n ∈ ns, IsScalarValue n) →
    decodeFrom .start (ns.flatMap utf8) = ns
  | [], _ => rfl
  | n :: ns, h => by
      rw [List.forall_mem_cons] at h
      rw [List.flatMap_cons, decodeFrom_utf8 h.1, decodeFrom_flatMap_utf8 h.2]

/-- The code points of a string are scalar values. -/
lemma isScalarValue_codePoints (text : JsString) : ∀ n ∈ codePoints text, IsScalarValue n := by
  have hunit : ∀ u : UInt16, ¬(isHighSurrogate u || isLowSurrogate u) = true →
      IsScalarValue u.toNat := fun u hu => by
    have hlt := u.toNat_lt
    rw [Bool.or_eq_true, isHighSurrogate_iff, isLowSurrogate_iff] at hu
    rw [IsScalarValue]
    omega
  have hreplacement : IsScalarValue replacementCharacter := by
    rw [IsScalarValue, replacementCharacter]
    omega
  induction text using codePoints.induct with
  | case1 => simp [codePoints]
  | case2 u =>
      rw [codePoints, List.forall_mem_singleton]
      split_ifs with hu
      · exact hreplacement
      · exact hunit u hu
  | case3 u v rest hu hv ih =>
      rw [codePoints, if_pos hu, if_pos hv, List.forall_mem_cons]
      rw [isHighSurrogate_iff] at hu
      rw [isLowSurrogate_iff] at hv
      have hpair : pairCodePoint u v =
          0x10000 + (u.toNat - 0xD800) * 0x400 + (v.toNat - 0xDC00) := rfl
      refine ⟨?_, ih⟩
      rw [IsScalarValue]
      omega
  | case4 u v rest hu hv ih =>
      rw [codePoints, if_pos hu, if_neg hv, List.forall_mem_cons]
      exact ⟨hreplacement, ih⟩
  | case5 u v rest hu hl ih =>
      rw [codePoints, if_neg hu, if_pos hl, List.forall_mem_cons]
      exact ⟨hreplacement, ih⟩
  | case6 u v rest hu hl ih =>
      rw [codePoints, if_neg hu, if_neg hl, List.forall_mem_cons]
      exact ⟨hunit u (by simp [hu, hl]), ih⟩

/-! ### Zeros at the end -/

/-- Zeros at the end are dropped with those before them. -/
lemma rdropWhile_append_zeros (bytes : Bytes) : ∀ k : ℕ,
    (bytes ++ List.replicate k 0).rdropWhile (· == 0) = bytes.rdropWhile (· == 0)
  | 0 => by rw [List.replicate_zero, List.append_nil]
  | k + 1 => by
      rw [List.replicate_succ', ← List.append_assoc, List.rdropWhile_concat_pos _ _ _ rfl,
        rdropWhile_append_zeros bytes k]

/-- The last byte of a scalar value is zero for NUL only. -/
lemma utf8_eq_concat {n : ℕ} (h0 : n ≠ 0) :
    ∃ init b, utf8 n = init ++ [b] ∧ b ≠ 0 := by
  have hbyte : ∀ {k : ℕ}, k < 256 → k ≠ 0 → UInt8.ofNat k ≠ 0 := fun {k} hk h hzero => by
    have hnat : (UInt8.ofNat k).toNat = 0 := by rw [hzero]; rfl
    rw [UInt8.toNat_ofNat', Nat.mod_eq_of_lt hk] at hnat
    exact h hnat
  have hlast : ∀ m, continuationByte m ≠ 0 := fun m => hbyte (by omega) (by omega)
  rw [utf8]
  split_ifs with h1 h2 h3
  · exact ⟨[], _, rfl, hbyte (by omega) h0⟩
  · exact ⟨[_], _, rfl, hlast n⟩
  · exact ⟨[_, _], _, rfl, hlast n⟩
  · exact ⟨[_, _, _], _, rfl, hlast n⟩

/-- The zeros at the end of an encoded list are its NULs. -/
lemma rdropWhile_flatMap_utf8 (ns : List ℕ) :
    (ns.flatMap utf8).rdropWhile (· == 0) = (ns.rdropWhile (· == 0)).flatMap utf8 := by
  induction ns using List.reverseRecOn with
  | nil => rfl
  | append_singleton ns n ih =>
      rw [List.flatMap_append, List.flatMap_singleton]
      by_cases h0 : n = 0
      · subst h0
        rw [List.rdropWhile_concat_pos _ _ _ rfl, ← ih]
        exact List.rdropWhile_concat_pos _ _ _ rfl
      · obtain ⟨init, b, hb, hne⟩ := utf8_eq_concat h0
        rw [List.rdropWhile_concat_neg _ _ _ (by simpa using h0), List.flatMap_append,
          List.flatMap_singleton, hb, ← List.append_assoc,
          List.rdropWhile_concat_neg _ _ _ (by simpa using hne)]

/-! ### What is shown of a text -/

/-- What is shown of a text that was encoded, padded with zeros, and decoded without the zeros
at its end. -/
def shownText (text : JsString) : JsString :=
  (dropMark ((codePoints text).rdropWhile (· == 0))).flatMap utf16

lemma dropMark_sublist : ∀ ns : List ℕ, (dropMark ns).Sublist ns
  | [] => .slnil
  | n :: ns => by
      rw [dropMark]
      split_ifs
      · exact List.sublist_cons_self n ns
      · exact List.Sublist.refl _

/-- **A padded text is shown without its NULs and its mark.** -/
lemma textDecode_padded (text : JsString) (k : ℕ) :
    textDecode ((textEncode text ++ List.replicate k 0).rdropWhile (· == 0)) = shownText text := by
  have hscalar := isScalarValue_codePoints text
  rw [rdropWhile_append_zeros, textEncode, rdropWhile_flatMap_utf8, textDecode,
    decodeFrom_flatMap_utf8 fun n hn => hscalar n ((List.rdropWhile_prefix _ _).subset hn),
    shownText]

lemma length_toWellFormed (text : JsString) : (toWellFormed text).length = text.length := by
  induction text using codePoints.induct with
  | case1 => rfl
  | case2 u => rfl
  | case3 u v rest hu hv ih =>
      rw [toWellFormed, if_pos hu, if_pos hv, List.length_cons, List.length_cons, ih]
      rfl
  | case4 u v rest hu hv ih =>
      rw [toWellFormed, if_pos hu, if_neg hv, List.length_cons, ih]
      rfl
  | case5 u v rest hu hl ih =>
      rw [toWellFormed, if_neg hu, if_pos hl, List.length_cons, ih]
      rfl
  | case6 u v rest hu hl ih =>
      rw [toWellFormed, if_neg hu, if_neg hl, List.length_cons, ih]
      rfl

/-- Every scalar value that is left out makes a text shorter. -/
lemma length_flatMap_utf16 {ms ns : List ℕ} (h : ms.Sublist ns) :
    (ms.flatMap utf16).length + ns.length ≤ (ns.flatMap utf16).length + ms.length := by
  have hpos : ∀ n, 1 ≤ (utf16 n).length := fun n => by
    rw [utf16]
    split_ifs <;> simp
  induction h with
  | slnil => rfl
  | cons n _ ih =>
      have hn := hpos n
      rw [List.flatMap_cons, List.length_append, List.length_cons]
      omega
  | cons_cons n _ ih =>
      rw [List.flatMap_cons, List.flatMap_cons, List.length_append, List.length_append,
        List.length_cons, List.length_cons]
      omega

/-- The last code unit of a scalar value is zero for NUL only. -/
lemma utf16_eq_concat (n : ℕ) :
    ∃ init u, utf16 n = init ++ [u] ∧ (u = 0 → n = 0) := by
  have hunit : ∀ {k : ℕ}, k < 0x10000 → UInt16.ofNat k = 0 → k = 0 := fun {k} hk h => by
    have hnat : (UInt16.ofNat k).toNat = 0 := by rw [h]; rfl
    rwa [UInt16.toNat_ofNat', Nat.mod_eq_of_lt hk] at hnat
  rw [utf16]
  split_ifs with h
  · exact ⟨[], _, rfl, hunit h⟩
  · exact ⟨[_], _, rfl, fun hzero => absurd (hunit (by omega) hzero) (by omega)⟩

/-- **When a text is shown as it was typed.** -/
theorem shownText_eq_self_iff (text : JsString) :
    shownText text = text ↔
      toWellFormed text = text ∧ text.head? ≠ some 0xFEFF ∧ text.getLast? ≠ some 0 := by
  have hwf := toWellFormed_eq_utf16 text
  rw [shownText]
  generalize hns : codePoints text = ns at *
  constructor
  · intro h
    have hsub := (dropMark_sublist _).trans (List.rdropWhile_prefix (· == 0) ns).sublist
    -- nothing was left out
    have hlen := length_flatMap_utf16 hsub
    rw [h, ← hwf, length_toWellFormed] at hlen
    have heq := hsub.eq_of_length_le (by omega)
    have hrdrop : ns.rdropWhile (· == 0) = ns := by
      have hle := (dropMark_sublist (ns.rdropWhile (· == 0))).length_le
      rw [heq] at hle
      exact (List.rdropWhile_prefix _ _).sublist.eq_of_length_le hle
    rw [heq, ← hwf] at h
    rw [hrdrop] at heq
    refine ⟨h, fun hhead => ?_, fun hlast => ?_⟩
    · obtain ⟨rest, rfl⟩ : ∃ rest, text = 0xFEFF :: rest := by
        cases text with
        | nil => cases hhead
        | cons u rest => exact ⟨rest, by rw [Option.some.inj hhead]⟩
      rw [codePoints_cons (by decide) (by decide)] at hns
      rw [← hns, dropMark, if_pos (by decide)] at heq
      exact List.ne_cons_self heq
    · cases ns using List.reverseRecOn with
      | nil =>
          rw [← h, hwf] at hlast
          cases hlast
      | append_singleton ns n =>
          obtain ⟨init, u, hu, hzero⟩ := utf16_eq_concat n
          rw [← h, hwf, List.flatMap_append, List.flatMap_singleton, hu, ← List.append_assoc,
            List.getLast?_concat, Option.some.injEq] at hlast
          rw [hzero hlast, List.rdropWhile_concat_pos _ _ _ rfl] at hrdrop
          have hlonger := congrArg List.length hrdrop
          have hshort := (List.rdropWhile_prefix (· == 0) ns).length_le
          rw [List.length_append, List.length_singleton] at hlonger
          omega
  · rintro ⟨h, hhead, hlast⟩
    have hrdrop : ns.rdropWhile (· == 0) = ns := by
      cases ns using List.reverseRecOn with
      | nil => rfl
      | append_singleton ns n =>
          refine List.rdropWhile_concat_neg _ _ _ fun h0 => hlast ?_
          obtain rfl : n = 0 := by simpa using h0
          rw [← h, hwf, List.flatMap_append, List.flatMap_singleton]
          exact List.getLast?_concat
    have hmark : dropMark ns = ns := by
      cases ns with
      | nil => rfl
      | cons n ns =>
          rw [dropMark, if_neg]
          rintro rfl
          refine hhead ?_
          rw [← h, hwf]
          rfl
    rw [hrdrop, hmark, ← hwf, h]

end CcVrf
