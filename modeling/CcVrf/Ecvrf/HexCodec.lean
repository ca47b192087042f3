import CcVrf.Ecvrf.WellFormed

/-!
The hexadecimal codec of `packages/ecvrf/src/encoding.ts`, and the codecs of that file as
inverses.

* `hexToBytes`: an optional prefix, two tests, and a loop over the pairs of digits.
* `HexPairs`, `HexForm`: the strings of the form `(0x)?([0-9a-fA-F]{2})*`.
* `byteDigits`: the two lower-case digits of a byte; `jsString_bytesToHex` says that
  `bytesToHex` writes these, `hexByte_byteDigits` and `byteDigits_hexByte` that the loop
  reads them back and that they are the digits read, in lower case.
* `hexToBytes_eq_ok_iff`: a string is read exactly when it has the form, and to the bytes of
  its pairs.
* `codecs_exact`: **the integer and hexadecimal codecs are exact inverses.**
-/

namespace CcVrf

/-- A string of the source as JavaScript has it. -/
def jsString (s : String) : JsString := s.toList.flatMap fun c => utf16 c.toNat

/-- The prefix `0x`. -/
def hexPrefix : JsString := [0x30, 0x78]

/-- The class `[0-9a-fA-F]`. -/
def isHexDigit (u : UInt16) : Bool :=
  (0x30 ≤ u && u ≤ 0x39) || (0x61 ≤ u && u ≤ 0x66) || (0x41 ≤ u && u ≤ 0x46)

/-- The value of a digit. -/
def hexDigitValue (u : UInt16) : ℕ :=
  if u ≤ 0x39 then u.toNat - 0x30 else if u ≤ 0x46 then u.toNat - 0x41 + 10 else u.toNat - 0x61 + 10

/-- `parseInt(digits, 16)` on a string of digits: it holds no sign, blank or prefix that
`parseInt` would skip. -/
def parseHex (digits : JsString) : ℕ := digits.foldl (fun n u => 16 * n + hexDigitValue u) 0

/-- `hexToBytes(hex)`. -/
def hexToBytes (hex : JsString) : Throws Bytes :=
  let clean := if hexPrefix.isPrefixOf hex then hex.drop 2 else hex
  if clean.length % 2 ≠ 0 then .error "hex string must have even length"
  else if !clean.all isHexDigit then .error "hex string contains non-hex characters"
  else .ok ((List.range (clean.length / 2)).map fun i =>
    UInt8.ofNat (parseHex ((clean.drop (i * 2)).take 2)))

/-! ### The form of the strings -/

/-- `([0-9a-fA-F]{2})*`. -/
inductive HexPairs : JsString → Prop
  | nil : HexPairs []
  | cons {a b : UInt16} {rest : JsString} (ha : isHexDigit a = true) (hb : isHexDigit b = true)
      (hrest : HexPairs rest) : HexPairs (a :: b :: rest)

/-- `(0x)?([0-9a-fA-F]{2})*`, with the digits behind the prefix. -/
def HexForm (hex digits : JsString) : Prop :=
  HexPairs digits ∧ (hex = digits ∨ hex = hexPrefix ++ digits)

/-- A code unit in lower case, for the letters of ASCII. -/
def lowerCase (u : UInt16) : UInt16 := if 0x41 ≤ u && u ≤ 0x5A then u + 32 else u

/-- Digits pair up exactly when their number is even. -/
lemma hexPairs_iff : ∀ digits : JsString,
    HexPairs digits ↔ digits.length % 2 = 0 ∧ digits.all isHexDigit = true
  | [] => by simp [HexPairs.nil]
  | [a] => by
      refine iff_of_false (fun h => ?_) (by simp)
      cases h
  | a :: b :: rest => by
      have ih := hexPairs_iff rest
      have hlen : (a :: b :: rest).length % 2 = rest.length % 2 := by
        rw [List.length_cons, List.length_cons]
        omega
      rw [hlen, List.all_cons, List.all_cons, Bool.and_eq_true, Bool.and_eq_true]
      constructor
      · intro h
        cases h with
        | cons ha hb hrest =>
            obtain ⟨heven, hall⟩ := ih.mp hrest
            exact ⟨heven, ha, hb, hall⟩
      · rintro ⟨heven, ha, hb, hall⟩
        exact .cons ha hb (ih.mpr ⟨heven, hall⟩)

/-- Pairs of digits do not start with the prefix: an `x` is no digit. -/
lemma HexPairs.not_prefix {digits : JsString} (h : HexPairs digits) :
    hexPrefix.isPrefixOf digits = false := by
  cases h with
  | nil => rfl
  | @cons a b rest ha hb _ =>
      rw [← Bool.not_eq_true, List.isPrefixOf_iff_prefix]
      rintro ⟨t, ht⟩
      obtain rfl : (0x78 : UInt16) = b := (List.cons.inj (List.cons.inj ht).2).1
      exact absurd hb (by decide)

/-! ### Digits of bytes -/

/-- The lower-case digit of a value below 16. -/
def digitUnit (n : ℕ) : UInt16 := UInt16.ofNat (if n < 10 then 0x30 + n else 0x61 + (n - 10))

/-- The two digits of a byte. -/
def byteDigits (b : UInt8) : JsString := [digitUnit (b.toNat / 16), digitUnit (b.toNat % 16)]

/-- The byte that a pair of digits stands for. -/
def hexByte (a b : UInt16) : UInt8 := UInt8.ofNat (parseHex [a, b])

/-- The bytes of a string of pairs. -/
def pairBytes : JsString → Bytes
  | a :: b :: rest => hexByte a b :: pairBytes rest
  | _ => []

lemma digitUnit_spec {n : ℕ} (hn : n < 16) :
    isHexDigit (digitUnit n) = true ∧ hexDigitValue (digitUnit n) = n := by
  have hall : ∀ n < 16, isHexDigit (digitUnit n) = true ∧ hexDigitValue (digitUnit n) = n := by
    decide +kernel
  exact hall n hn

/-- A digit in lower case is the digit of its value. -/
lemma isHexDigit_spec {u : UInt16} (h : isHexDigit u = true) :
    hexDigitValue u < 16 ∧ digitUnit (hexDigitValue u) = lowerCase u := by
  have hall : ∀ n < 0x67, isHexDigit (UInt16.ofNat n) = true →
      hexDigitValue (UInt16.ofNat n) < 16 ∧
        digitUnit (hexDigitValue (UInt16.ofNat n)) = lowerCase (UInt16.ofNat n) := by
    decide +kernel
  have hlt : u.toNat < 0x67 := by
    simp only [isHexDigit, Bool.or_eq_true, Bool.and_eq_true, decide_eq_true_eq,
      UInt16.le_iff_toNat_le, UInt16.reduceToNat] at h
    omega
  have hu := hall u.toNat hlt
  rw [UInt16.ofNat_toNat] at hu
  exact hu h

lemma parseHex_pair (a b : UInt16) : parseHex [a, b] = 16 * hexDigitValue a + hexDigitValue b := by
  simp [parseHex]

/-- The digits of a byte are read back as the byte. -/
lemma hexByte_byteDigits (b : UInt8) :
    hexByte (digitUnit (b.toNat / 16)) (digitUnit (b.toNat % 16)) = b := by
  have hb := b.toNat_lt
  have hvalue : 16 * (b.toNat / 16) + b.toNat % 16 = b.toNat := Nat.div_add_mod _ _
  rw [hexByte, parseHex_pair, (digitUnit_spec (show b.toNat / 16 < 16 by omega)).2,
    (digitUnit_spec (show b.toNat % 16 < 16 by omega)).2, hvalue, UInt8.ofNat_toNat]

/-- The digits of a byte that was read are those it was read from, in lower case. -/
lemma byteDigits_hexByte {a b : UInt16} (ha : isHexDigit a = true) (hb : isHexDigit b = true) :
    byteDigits (hexByte a b) = [lowerCase a, lowerCase b] := by
  obtain ⟨hlta, hdigita⟩ := isHexDigit_spec ha
  obtain ⟨hltb, hdigitb⟩ := isHexDigit_spec hb
  have hvalue : (hexByte a b).toNat = 16 * hexDigitValue a + hexDigitValue b := by
    rw [hexByte, parseHex_pair, UInt8.toNat_ofNat']
    omega
  have hhigh : (hexByte a b).toNat / 16 = hexDigitValue a := by omega
  have hlow : (hexByte a b).toNat % 16 = hexDigitValue b := by omega
  rw [byteDigits, hhigh, hlow, hdigita, hdigitb]

/-! ### Both directions -/

lemma jsString_append (s t : String) : jsString (s ++ t) = jsString s ++ jsString t := by
  rw [jsString, String.toList_append, List.flatMap_append, jsString, jsString]

/-- `bytesToHex` writes the two lower-case digits of every byte. -/
lemma jsString_bytesToHex (bytes : Bytes) :
    jsString (bytesToHex bytes) = bytes.flatMap byteDigits := by
  have hall : ∀ n < 256, jsString (bytesToHex [UInt8.ofNat n]) = byteDigits (UInt8.ofNat n) := by
    decide +kernel
  induction bytes with
  | nil => rfl
  | cons b bytes ih =>
      have hcons : bytesToHex (b :: bytes) = bytesToHex [b] ++ bytesToHex bytes := by
        simp only [bytesToHex, List.map_cons, List.map_nil, String.join_cons, String.join_nil,
          String.append_empty]
      have hb := hall b.toNat b.toNat_lt
      rw [UInt8.ofNat_toNat] at hb
      rw [hcons, jsString_append, hb, ih, List.flatMap_cons]

/-- The loop reads pair after pair. -/
lemma HexPairs.loop_eq {digits : JsString} (h : HexPairs digits) :
    ((List.range (digits.length / 2)).map fun i =>
      UInt8.ofNat (parseHex ((digits.drop (i * 2)).take 2))) = pairBytes digits := by
  induction h with
  | nil => rfl
  | @cons a b rest ha hb _ ih =>
      have hlen : (a :: b :: rest).length / 2 = rest.length / 2 + 1 := by
        rw [List.length_cons, List.length_cons]
        omega
      rw [hlen, List.range_succ_eq_map, List.map_cons, List.map_map, pairBytes, ← ih]
      refine congrArg₂ List.cons rfl (List.map_congr_left fun i _ => ?_)
      have hdrop : (a :: b :: rest).drop ((i + 1) * 2) = rest.drop (i * 2) := by
        rw [show (i + 1) * 2 = i * 2 + 1 + 1 by ring, List.drop_succ_cons, List.drop_succ_cons]
      simp only [Function.comp_apply, Nat.succ_eq_add_one, hdrop]

/-- What is left of a string of the form without its prefix. -/
lemma HexForm.clean_eq {hex digits : JsString} (h : HexForm hex digits) :
    (if hexPrefix.isPrefixOf hex then hex.drop 2 else hex) = digits := by
  obtain ⟨hpairs, rfl | rfl⟩ := h
  · rw [hpairs.not_prefix]
    rfl
  · rw [if_pos (List.isPrefixOf_iff_prefix.mpr (List.prefix_append _ _))]
    rfl

/-- **The strings that are read**: exactly those of the form, to the bytes of their
pairs. -/
lemma hexToBytes_eq_ok_iff {hex : JsString} {b : Bytes} :
    hexToBytes hex = .ok b ↔ ∃ digits, HexForm hex digits ∧ b = pairBytes digits := by
  constructor
  · intro h
    rw [hexToBytes] at h
    generalize hclean : (if hexPrefix.isPrefixOf hex then hex.drop 2 else hex) = clean at h
    split_ifs at h with hodd hdigits
    have hall : clean.all isHexDigit = true := by simpa using hdigits
    have hpairs := (hexPairs_iff clean).mpr ⟨not_not.mp hodd, hall⟩
    refine ⟨clean, ⟨hpairs, ?_⟩, ?_⟩
    · split_ifs at hclean with hprefix
      · obtain ⟨t, rfl⟩ := List.isPrefixOf_iff_prefix.mp hprefix
        exact .inr (by rw [← hclean]; rfl)
      · exact .inl hclean
    · rw [← hpairs.loop_eq]
      exact (Except.ok.inj h).symm
  · rintro ⟨digits, hform, rfl⟩
    obtain ⟨heven, hall⟩ := (hexPairs_iff digits).mp hform.1
    rw [hexToBytes]
    rw [hform.clean_eq, if_neg (not_not.mpr heven), hall, if_neg (by decide), hform.1.loop_eq]

/-- The digits of bytes come in pairs, and the pairs are the bytes. -/
lemma hexPairs_byteDigits (bytes : Bytes) :
    HexPairs (bytes.flatMap byteDigits) ∧ pairBytes (bytes.flatMap byteDigits) = bytes := by
  induction bytes with
  | nil => exact ⟨.nil, rfl⟩
  | cons b bytes ih =>
      have hb := b.toNat_lt
      obtain ⟨hpairs, hbytes⟩ := ih
      rw [List.flatMap_cons, byteDigits, List.cons_append, List.cons_append, List.nil_append]
      refine ⟨.cons (digitUnit_spec (by omega)).1 (digitUnit_spec (by omega)).1 hpairs, ?_⟩
      rw [pairBytes, hexByte_byteDigits, hbytes]

/-- The digits of the bytes read are the digits they were read from, in lower case. -/
lemma HexPairs.byteDigits_pairBytes {digits : JsString} (h : HexPairs digits) :
    (pairBytes digits).flatMap byteDigits = digits.map lowerCase := by
  induction h with
  | nil => rfl
  | cons ha hb _ ih =>
      rw [pairBytes, List.flatMap_cons, byteDigits_hexByte ha hb, ih]
      rfl

/-- **The codecs are exact inverses.** Little-endian and big-endian integers encode exactly
when they fit, to the given number of bytes with their value, and back; the two encodings
are each other's reverse. Hexadecimal digits of bytes are read as the bytes; exactly the
strings `(0x)?([0-9a-fA-F]{2})*` are read; and the digits of what was read are the string
without its prefix, in lower case. -/
theorem codecs_exact :
    ExactIntegerCodec bigIntToBytesLE bytesToBigIntLE ∧
    ExactIntegerCodec bigIntToBytesBE bytesToBigIntBE ∧
    (∀ (n length : ℕ) (le be : Bytes), bigIntToBytesLE n length = .ok le →
      bigIntToBytesBE n length = .ok be → le = be.reverse) ∧
    (∀ bytes, hexToBytes (jsString (bytesToHex bytes)) = .ok bytes) ∧
    (∀ hex, (∃ bytes, hexToBytes hex = .ok bytes) ↔ ∃ digits, HexForm hex digits) ∧
    ∀ hex bytes digits, hexToBytes hex = .ok bytes → HexForm hex digits →
      jsString (bytesToHex bytes) = digits.map lowerCase := by
  refine ⟨exactIntegerCodec_LE, exactIntegerCodec_BE, ?_, ?_, ?_, ?_⟩
  · intro n length le be hle hbe
    rw [bigIntToBytesBE_eq_ok_iff, hle] at hbe
    exact Except.ok.inj hbe
  · intro bytes
    obtain ⟨hpairs, hbytes⟩ := hexPairs_byteDigits bytes
    rw [jsString_bytesToHex]
    exact hexToBytes_eq_ok_iff.mpr ⟨_, ⟨hpairs, .inl rfl⟩, hbytes.symm⟩
  · intro hex
    constructor
    · rintro ⟨bytes, h⟩
      obtain ⟨digits, hform, -⟩ := hexToBytes_eq_ok_iff.mp h
      exact ⟨digits, hform⟩
    · rintro ⟨digits, hform⟩
      exact ⟨_, hexToBytes_eq_ok_iff.mpr ⟨digits, hform, rfl⟩⟩
  · intro hex bytes digits h hform
    obtain ⟨digits', hform', rfl⟩ := hexToBytes_eq_ok_iff.mp h
    obtain rfl : digits' = digits := hform'.clean_eq.symm.trans hform.clean_eq
    rw [jsString_bytesToHex, hform.1.byteDigits_pairBytes]

/-- The digits of bytes, as they are stored and shown. -/
def hexString (bytes : Bytes) : JsString := jsString (bytesToHex bytes)

/-- What is shown of bytes is read back. -/
lemma hexToBytes_hexString (bytes : Bytes) : hexToBytes (hexString bytes) = .ok bytes := by
  obtain ⟨hpairs, hbytes⟩ := hexPairs_byteDigits bytes
  rw [hexString, jsString_bytesToHex]
  exact hexToBytes_eq_ok_iff.mpr ⟨_, ⟨hpairs, .inl rfl⟩, hbytes.symm⟩

end CcVrf
