import CcVrf.Ecvrf.TextEncoder

/-!
What the UTF-8 encoder keeps of a string.

* `utf8_append_inj`: the bytes of a scalar value determine it and what follows, so a list
  of scalar values is determined by its bytes (`flatMap_utf8_injective`).
* `toWellFormed`: a string with each lone surrogate replaced by U+FFFD.
* `toWellFormed_eq_utf16`, `codePoints_toWellFormed`: its scalar values are those of the
  string, and it is their UTF-16 encoding.
* `textEncode_eq_iff`: **two strings have the same bytes exactly when they are the same
  string after the replacement.**
-/

namespace CcVrf

/-! ### UTF-8 -/

/-- The scalar value at the head of a byte string, and the rest. -/
def decodeHead : Bytes → Option (ℕ × Bytes)
  | [] => none
  | a :: rest =>
      if a.toNat < 0x80 then some (a.toNat, rest)
      else if a.toNat < 0xE0 then
        match rest with
        | b :: rest => some ((a.toNat - 0xC0) * 0x40 + (b.toNat - 0x80), rest)
        | _ => none
      else if a.toNat < 0xF0 then
        match rest with
        | b :: c :: rest =>
            some ((a.toNat - 0xE0) * 0x1000 + (b.toNat - 0x80) * 0x40 + (c.toNat - 0x80), rest)
        | _ => none
      else
        match rest with
        | b :: c :: d :: rest =>
            some ((a.toNat - 0xF0) * 0x40000 + (b.toNat - 0x80) * 0x1000 + (c.toNat - 0x80) * 0x40 +
              (d.toNat - 0x80), rest)
        | _ => none

lemma toNat_continuationByte (n : ℕ) : (continuationByte n).toNat = 0x80 + n % 0x40 := by
  rw [continuationByte, UInt8.toNat_ofNat']
  omega

/-- The head of an encoded scalar value is the value. -/
lemma decodeHead_utf8 {n : ℕ} (hn : n < 0x110000) (rest : Bytes) :
    decodeHead (utf8 n ++ rest) = some (n, rest) := by
  have hbyte : ∀ {k : ℕ}, k < 256 → (UInt8.ofNat k).toNat = k := fun hk => by
    rw [UInt8.toNat_ofNat', Nat.mod_eq_of_lt hk]
  rw [utf8]
  split_ifs with h1 h2 h3
  · simp only [List.singleton_append, decodeHead, hbyte (show n < 256 by omega), if_pos h1]
  · rw [List.cons_append, List.singleton_append, decodeHead, hbyte (by omega), if_neg (by omega),
      if_pos (by omega)]
    simp only [toNat_continuationByte, Option.some.injEq, Prod.mk.injEq, and_true]
    omega
  · rw [List.cons_append, List.cons_append, List.singleton_append, decodeHead, hbyte (by omega),
      if_neg (by omega), if_neg (by omega), if_pos (by omega)]
    simp only [toNat_continuationByte, Option.some.injEq, Prod.mk.injEq, and_true]
    omega
  · rw [List.cons_append, List.cons_append, List.cons_append, List.singleton_append, decodeHead,
      hbyte (by omega), if_neg (by omega), if_neg (by omega), if_neg (by omega)]
    simp only [toNat_continuationByte, Option.some.injEq, Prod.mk.injEq, and_true]
    omega

/-- The bytes of a scalar value determine it and what follows. -/
lemma utf8_append_inj {m n : ℕ} (hm : m < 0x110000) (hn : n < 0x110000) {u v : Bytes}
    (h : utf8 m ++ u = utf8 n ++ v) : m = n ∧ u = v := by
  have hhead := decodeHead_utf8 hm u
  rw [h, decodeHead_utf8 hn v] at hhead
  obtain ⟨rfl, rfl⟩ := Prod.mk.inj (Option.some.inj hhead)
  exact ⟨rfl, rfl⟩

lemma utf8_ne_nil (n : ℕ) : utf8 n ≠ [] := by
  rw [utf8]
  split_ifs
  all_goals exact List.cons_ne_nil _ _

/-- A list of scalar values is determined by its bytes. -/
lemma flatMap_utf8_injective {ms ns : List ℕ} (hms : ∀ m ∈ ms, m < 0x110000)
    (hns : ∀ n ∈ ns, n < 0x110000) (h : ms.flatMap utf8 = ns.flatMap utf8) : ms = ns := by
  induction ms generalizing ns with
  | nil =>
      cases ns with
      | nil => rfl
      | cons n ns => exact absurd (List.append_eq_nil_iff.mp h.symm).1 (utf8_ne_nil n)
  | cons m ms ih =>
      cases ns with
      | nil => exact absurd (List.append_eq_nil_iff.mp h).1 (utf8_ne_nil m)
      | cons n ns =>
          rw [List.forall_mem_cons] at hms hns
          rw [List.flatMap_cons, List.flatMap_cons] at h
          obtain ⟨rfl, hrest⟩ := utf8_append_inj hms.1 hns.1 h
          rw [ih hms.2 hns.2 hrest]

/-! ### Surrogates -/

lemma isHighSurrogate_iff (u : UInt16) :
    isHighSurrogate u = true ↔ 0xD800 ≤ u.toNat ∧ u.toNat ≤ 0xDBFF := by
  rw [isHighSurrogate, Bool.and_eq_true, decide_eq_true_iff, decide_eq_true_iff,
    UInt16.le_iff_toNat_le, UInt16.le_iff_toNat_le]
  rfl

lemma isLowSurrogate_iff (u : UInt16) :
    isLowSurrogate u = true ↔ 0xDC00 ≤ u.toNat ∧ u.toNat ≤ 0xDFFF := by
  rw [isLowSurrogate, Bool.and_eq_true, decide_eq_true_iff, decide_eq_true_iff,
    UInt16.le_iff_toNat_le, UInt16.le_iff_toNat_le]
  rfl

/-- A string with each lone surrogate replaced by the replacement character. -/
def toWellFormed : JsString → JsString
  | [] => []
  | [u] => [if isHighSurrogate u || isLowSurrogate u then 0xFFFD else u]
  | u :: v :: rest =>
      if isHighSurrogate u then
        if isLowSurrogate v then u :: v :: toWellFormed rest
        else 0xFFFD :: toWellFormed (v :: rest)
      else if isLowSurrogate u then 0xFFFD :: toWellFormed (v :: rest)
      else u :: toWellFormed (v :: rest)

/-- The UTF-16 code units of a scalar value. -/
def utf16 (n : ℕ) : JsString :=
  if n < 0x10000 then [UInt16.ofNat n]
  else [UInt16.ofNat (0xD800 + (n - 0x10000) / 0x400), UInt16.ofNat (0xDC00 + (n - 0x10000) % 0x400)]

lemma utf16_toNat (u : UInt16) : utf16 u.toNat = [u] := by
  have hu := u.toNat_lt
  rw [utf16, if_pos (by omega), UInt16.ofNat_toNat]

lemma utf16_of_ge {n : ℕ} (h : ¬n < 0x10000) : utf16 n =
    [UInt16.ofNat (0xD800 + (n - 0x10000) / 0x400), UInt16.ofNat (0xDC00 + (n - 0x10000) % 0x400)] :=
  if_neg h

lemma utf16_pairCodePoint {u v : UInt16} (hu : isHighSurrogate u = true)
    (hv : isLowSurrogate v = true) : utf16 (pairCodePoint u v) = [u, v] := by
  rw [isHighSurrogate_iff] at hu
  rw [isLowSurrogate_iff] at hv
  have hpair : pairCodePoint u v = 0x10000 + (u.toNat - 0xD800) * 0x400 + (v.toNat - 0xDC00) := rfl
  have hhigh : 0xD800 + (pairCodePoint u v - 0x10000) / 0x400 = u.toNat := by omega
  have hlow : 0xDC00 + (pairCodePoint u v - 0x10000) % 0x400 = v.toNat := by omega
  rw [utf16_of_ge (by omega), hhigh, hlow, UInt16.ofNat_toNat, UInt16.ofNat_toNat]

/-- The scalar values of a string are below `0x110000`. -/
lemma codePoints_lt (text : JsString) : ∀ n ∈ codePoints text, n < 0x110000 := by
  have hunit : ∀ u : UInt16, u.toNat < 0x110000 := fun u => by
    have hu := u.toNat_lt
    omega
  have hreplacement : replacementCharacter < 0x110000 := by
    rw [replacementCharacter]
    norm_num
  induction text using codePoints.induct with
  | case1 => simp [codePoints]
  | case2 u =>
      rw [codePoints, List.forall_mem_singleton]
      split_ifs
      · exact hreplacement
      · exact hunit u
  | case3 u v rest hu hv ih =>
      rw [codePoints, if_pos hu, if_pos hv, List.forall_mem_cons]
      rw [isHighSurrogate_iff] at hu
      rw [isLowSurrogate_iff] at hv
      have hpair : pairCodePoint u v =
          0x10000 + (u.toNat - 0xD800) * 0x400 + (v.toNat - 0xDC00) := rfl
      exact ⟨by omega, ih⟩
  | case4 u v rest hu hv ih =>
      rw [codePoints, if_pos hu, if_neg hv, List.forall_mem_cons]
      exact ⟨hreplacement, ih⟩
  | case5 u v rest hu hl ih =>
      rw [codePoints, if_neg hu, if_pos hl, List.forall_mem_cons]
      exact ⟨hreplacement, ih⟩
  | case6 u v rest hu hl ih =>
      rw [codePoints, if_neg hu, if_neg hl, List.forall_mem_cons]
      exact ⟨hunit u, ih⟩

/-- The string after the replacement is the UTF-16 encoding of the scalar values. -/
lemma toWellFormed_eq_utf16 (text : JsString) :
    toWellFormed text = (codePoints text).flatMap utf16 := by
  have hreplacement : utf16 replacementCharacter = [0xFFFD] := by decide
  induction text using codePoints.induct with
  | case1 => rfl
  | case2 u =>
      rw [toWellFormed, codePoints]
      split_ifs
      · rw [List.flatMap_singleton, hreplacement]
      · rw [List.flatMap_singleton, utf16_toNat]
  | case3 u v rest hu hv ih =>
      rw [toWellFormed, codePoints, if_pos hu, if_pos hv, if_pos hu, if_pos hv, List.flatMap_cons,
        utf16_pairCodePoint hu hv, ih]
      rfl
  | case4 u v rest hu hv ih =>
      rw [toWellFormed, codePoints, if_pos hu, if_neg hv, if_pos hu, if_neg hv, List.flatMap_cons,
        hreplacement, ih]
      rfl
  | case5 u v rest hu hl ih =>
      rw [toWellFormed, codePoints, if_neg hu, if_pos hl, if_neg hu, if_pos hl, List.flatMap_cons,
        hreplacement, ih]
      rfl
  | case6 u v rest hu hl ih =>
      rw [toWellFormed, codePoints, if_neg hu, if_neg hl, if_neg hu, if_neg hl, List.flatMap_cons,
        utf16_toNat, ih]
      rfl

/-- A code unit that is no surrogate is a scalar value of its own, whatever follows. -/
lemma codePoints_cons {u : UInt16} (hu : ¬isHighSurrogate u = true) (hl : ¬isLowSurrogate u = true)
    (text : JsString) : codePoints (u :: text) = u.toNat :: codePoints text := by
  cases text with
  | nil =>
      rw [codePoints, codePoints, if_neg (by simp [hu, hl])]
  | cons v rest => rw [codePoints, if_neg hu, if_neg hl]

/-- The replacement keeps the scalar values. -/
lemma codePoints_toWellFormed (text : JsString) :
    codePoints (toWellFormed text) = codePoints text := by
  have hreplacement : ∀ text : JsString,
      codePoints (0xFFFD :: text) = replacementCharacter :: codePoints text :=
    codePoints_cons (by decide) (by decide)
  induction text using codePoints.induct with
  | case1 => rfl
  | case2 u =>
      rw [toWellFormed]
      by_cases hsur : (isHighSurrogate u || isLowSurrogate u) = true
      · rw [if_pos hsur, hreplacement, codePoints, codePoints, if_pos hsur]
      · rw [if_neg hsur]
  | case3 u v rest hu hv ih =>
      rw [toWellFormed, if_pos hu, if_pos hv, codePoints, if_pos hu, if_pos hv, codePoints,
        if_pos hu, if_pos hv, ih]
  | case4 u v rest hu hv ih =>
      rw [toWellFormed, if_pos hu, if_neg hv, hreplacement, ih, codePoints, if_pos hu, if_neg hv]
  | case5 u v rest hu hl ih =>
      rw [toWellFormed, if_neg hu, if_pos hl, hreplacement, ih, codePoints, if_neg hu, if_pos hl]
  | case6 u v rest hu hl ih =>
      rw [toWellFormed, if_neg hu, if_neg hl, codePoints_cons hu hl, ih, codePoints, if_neg hu,
        if_neg hl]

/-- **The same bytes.** -/
theorem textEncode_eq_iff (s t : JsString) :
    textEncode s = textEncode t ↔ toWellFormed s = toWellFormed t := by
  rw [textEncode, textEncode]
  constructor
  · intro h
    have hpoints := flatMap_utf8_injective (codePoints_lt s) (codePoints_lt t) h
    rw [toWellFormed_eq_utf16, toWellFormed_eq_utf16, hpoints]
  · intro h
    rw [← codePoints_toWellFormed s, h, codePoints_toWellFormed]

end CcVrf
