import CcVrf.Ecvrf.Expand
import CcVrf.Ecvrf.WellFormed
import CcVrf.Library.Framing

/-!
The bytes of a path, and which paths share them.

* `u32be_eq_iff`, `u64be_inj`: a length in four bytes is known up to a multiple of `2^32`, and
  a block index below `2^64` exactly.
* `encodePath_eq`: the count of the segments and the framed segments.
* `SamePaths`: the paths that become the same rows of bytes, or one of whose rows runs into
  the other.
* `path_separated_iff`: **the hash inputs of two paths differ at every block index unless the
  paths are the same after each lone surrogate is replaced, or one of them has a segment
  that is longer by a multiple of `2^32` bytes and runs into the other.**
-/

namespace CcVrf

open Framing

/-! ### Numbers -/

/-- A byte of a number that is written in four. -/
lemma toUint8_bitAnd (n k : ℕ) : toUint8 (JsNumber.bitAnd (JsNumber.unsignedShiftRight n k) 0xff) =
    UInt8.ofNat (n % 2 ^ 32 / 2 ^ k) := by
  have hff : JsNumber.toUint32 0xff = 0xff := JsNumber.toUint32_of_lt (by norm_num)
  rw [toUint8, JsNumber.toUint32_bitAnd, JsNumber.toUint32_unsignedShiftRight, hff,
    JsNumber.toUint32_natCast, Nat.shiftRight_eq_div_pow, show (0xff : ℕ) = 2 ^ 8 - 1 from rfl,
    Nat.and_two_pow_sub_one_eq_mod]
  refine UInt8.toNat_inj.mp ?_
  rw [UInt8.toNat_ofNat', UInt8.toNat_ofNat', Nat.mod_mod]

lemma u32be_eq (n : ℕ) :
    u32be n = [24, 16, 8, 0].map fun k => UInt8.ofNat (n % 2 ^ 32 / 2 ^ k) := by
  have hlow : toUint8 (JsNumber.bitAnd n 0xff) = UInt8.ofNat (n % 2 ^ 32 / 2 ^ 0) := by
    rw [← toUint8_bitAnd, JsNumber.unsignedShiftRight_zero, toUint8, toUint8,
      JsNumber.toUint32_bitAnd, JsNumber.toUint32_bitAnd,
      JsNumber.toUint32_of_lt (JsNumber.toUint32_lt _)]
  rw [u32be, toUint8_bitAnd, toUint8_bitAnd, toUint8_bitAnd, hlow]
  rfl

@[simp] lemma length_u32be (n : ℕ) : (u32be n).length = 4 := rfl

/-- **Four bytes know a number up to a multiple of `2^32`.** -/
lemma u32be_eq_iff {m n : ℕ} : u32be m = u32be n ↔ m % 2 ^ 32 = n % 2 ^ 32 := by
  constructor
  · intro h
    have hbyte : ∀ k ∈ [24, 16, 8, 0], m % 2 ^ 32 / 2 ^ k % 256 = n % 2 ^ 32 / 2 ^ k % 256 := by
      rw [u32be_eq, u32be_eq, List.map_inj_left] at h
      intro k hk
      have hk' := congrArg UInt8.toNat (h k hk)
      rwa [UInt8.toNat_ofNat', UInt8.toNat_ofNat'] at hk'
    have h24 := hbyte 24 (by simp)
    have h16 := hbyte 16 (by simp)
    have h8 := hbyte 8 (by simp)
    have h0 := hbyte 0 (by simp)
    norm_num at h24 h16 h8 h0 ⊢
    omega
  · intro h
    rw [u32be_eq, u32be_eq, h]

/-- The loop of `u64be` writes the bytes of `bigIntToBytesBE`. -/
lemma u64be.loop_eq (i v : ℕ) (out : Bytes) :
    u64be.loop i v out = (bigIntToBytesBE.loop i v out).1 := by
  induction i generalizing v out with
  | zero => rfl
  | succ i ih => exact ih _ _

lemma u64be_eq (n : ℕ) : u64be n = (bigIntToBytesLE.loop 8 n).1.reverse := by
  rw [u64be, u64be.loop_eq, bigIntToBytesBE.loop_eq, List.append_nil]

@[simp] lemma length_u64be (n : ℕ) : (u64be n).length = 8 := by
  rw [u64be_eq, List.length_reverse, bigIntToBytesLE.length_loop]

/-- **Eight bytes know a number below `2^64`.** -/
lemma u64be_inj {m n : ℕ} (hm : m < 2 ^ 64) (hn : n < 2 ^ 64) (h : u64be m = u64be n) : m = n := by
  rw [u64be_eq, u64be_eq, List.reverse_inj] at h
  have hval := congrArg bytesToBigIntLE h
  rwa [bigIntToBytesLE.loop_value (by simpa using hm),
    bigIntToBytesLE.loop_value (by simpa using hn)] at hval

/-! ### Paths -/

/-- The segments of a path, in UTF-8. -/
def segments (path : List JsString) : List Bytes := path.map textEncode

@[simp] lemma length_segments (path : List JsString) : (segments path).length = path.length :=
  List.length_map _

lemma length_u32be_fixed (m n : ℕ) : (u32be m).length = (u32be n).length :=
  (length_u32be m).trans (length_u32be n).symm

/-- **The bytes of a path**: how many segments there are, and the segments behind their
lengths. -/
lemma encodePath_eq (path : List JsString) :
    encodePath path = u32be path.length ++ frames u32be (segments path) := by
  have hsegment : ∀ b, encodeSegment b = frame u32be b := fun b => by
    rw [encodeSegment, concatBytes, frame]
    simp
  rw [encodePath, concatBytes, List.flatten_cons, frames, segments, List.map_map]
  congr 2
  exact List.map_congr_left fun p _ => hsegment (textEncode p)

/-- Two arrays of strings have the same bytes when they are equally long and their
segments have. -/
lemma encodePath_eq_iff {p q : List JsString} (hp : p.length < 2 ^ 32) (hq : q.length < 2 ^ 32) :
    encodePath p = encodePath q ↔
      p.length = q.length ∧ frames u32be (segments p) = frames u32be (segments q) := by
  rw [encodePath_eq, encodePath_eq]
  constructor
  · intro h
    obtain ⟨hcount, hframes⟩ := List.append_inj h (length_u32be_fixed _ _)
    rw [u32be_eq_iff, Nat.mod_eq_of_lt hp, Nat.mod_eq_of_lt hq] at hcount
    exact ⟨hcount, hframes⟩
  · rintro ⟨hcount, hframes⟩
    rw [hcount, hframes]

/-- Two paths have the same segments exactly when they are the same after each lone surrogate
is replaced. -/
lemma segments_eq_iff (p q : List JsString) :
    segments p = segments q ↔ p.map toWellFormed = q.map toWellFormed := by
  induction p generalizing q with
  | nil => cases q <;> simp [segments]
  | cons a p ih =>
      cases q with
      | nil => simp [segments]
      | cons b q =>
          have hrest := ih q
          simp only [segments, List.map_cons, List.cons.injEq, textEncode_eq_iff] at hrest ⊢
          rw [hrest]

/-- The paths that the encoding does not tell apart: after each lone surrogate is replaced
they are the same, or one of them runs into the other. -/
def SamePaths (p q : List JsString) : Prop :=
  p.map toWellFormed = q.map toWellFormed ∨ RunsInto u32be (segments p) (segments q) ∨
    RunsInto u32be (segments q) (segments p)

/-- Paths that run into one another are equally long. -/
lemma RunsInto.length_eq {as bs : List Bytes} (h : RunsInto u32be as bs) :
    as.length = bs.length := by
  obtain ⟨common, short, extra, as', bs', rfl, rfl, hlen, -⟩ := h
  simp [hlen]

lemma encodePath_eq_iff_samePaths {p q : List JsString} (hp : p.length < 2 ^ 32)
    (hq : q.length < 2 ^ 32) : encodePath p = encodePath q ↔ SamePaths p q := by
  rw [encodePath_eq_iff hp hq, SamePaths, ← segments_eq_iff]
  constructor
  · rintro ⟨hlen, hframes⟩
    exact (frames_eq_iff length_u32be_fixed (by simpa using hlen)).mp hframes
  · intro h
    have hlen : (segments p).length = (segments q).length := by
      rcases h with h | h | h
      · rw [h]
      · exact RunsInto.length_eq h
      · exact (RunsInto.length_eq h).symm
    exact ⟨by simpa using hlen, (frames_eq_iff length_u32be_fixed hlen).mpr h⟩

/-- The hash inputs of the streams of two paths differ at every block index. -/
def Separated (p q : List JsString) : Prop :=
  ∀ beta s t, vrfStream beta p = .ok s → vrfStream beta q = .ok t → ∀ blockIndex,
    refillInput s.betaCopy s.encodedPath blockIndex ≠ refillInput t.betaCopy t.encodedPath blockIndex

/-- Only the bytes of the path tell two inputs apart. -/
lemma refillInput_eq_iff {beta ep eq : Bytes} {blockIndex : ℕ} :
    refillInput beta ep blockIndex = refillInput beta eq blockIndex ↔ ep = eq := by
  constructor
  · intro h
    simpa [refillInput, concatBytes] using h
  · rintro rfl
    rfl

/-- Below `2^32` bytes four bytes tell the lengths of segments apart. -/
lemma frames_injective_of_short {as bs : List Bytes} (hlen : as.length = bs.length)
    (has : ∀ a ∈ as, a.length < 2 ^ 32) (hbs : ∀ b ∈ bs, b.length < 2 ^ 32)
    (h : frames u32be as = frames u32be bs) : as = bs := by
  refine frames_injective length_u32be_fixed hlen (fun a ha b hb heq => ?_) h
  rwa [u32be_eq_iff, Nat.mod_eq_of_lt (has a ha), Nat.mod_eq_of_lt (hbs b hb)] at heq

/-- The streams of two paths have the same inputs exactly when the paths have the same
bytes. -/
lemma separated_iff (p q : List JsString) : Separated p q ↔ encodePath p ≠ encodePath q := by
  constructor
  · intro h heq
    obtain ⟨s, hs⟩ : ∃ s, vrfStream (List.replicate hashLen 0) p = .ok s := ⟨_, rfl⟩
    obtain ⟨t, ht⟩ : ∃ t, vrfStream (List.replicate hashLen 0) q = .ok t := ⟨_, rfl⟩
    refine h _ s t hs ht 0 ?_
    cases hs
    cases ht
    exact refillInput_eq_iff.mpr heq
  · intro hne beta s t hs ht blockIndex heq
    rw [vrfStream] at hs ht
    split_ifs at hs ht
    cases hs
    cases ht
    exact hne (refillInput_eq_iff.mp heq)

/-- **Two paths are separated exactly when the encoding tells them apart.** Where all
segments are shorter than `2^32` bytes, these are the paths that differ after each lone
surrogate is replaced. -/
theorem path_separated_iff {p q : List JsString} (hp : p.length < 2 ^ 32) (hq : q.length < 2 ^ 32) :
    (Separated p q ↔ ¬SamePaths p q) ∧
      ((∀ b ∈ segments p ++ segments q, b.length < 2 ^ 32) →
        (Separated p q ↔ p.map toWellFormed ≠ q.map toWellFormed)) := by
  rw [separated_iff]
  refine ⟨not_congr (encodePath_eq_iff_samePaths hp hq), fun hshort => not_congr ?_⟩
  rw [encodePath_eq_iff hp hq, ← segments_eq_iff]
  constructor
  · rintro ⟨hlen, hframes⟩
    exact frames_injective_of_short (by simpa using hlen)
      (fun a ha => hshort a (List.mem_append_left _ ha))
      (fun b hb => hshort b (List.mem_append_right _ hb)) hframes
  · intro h
    rw [h]
    exact ⟨by simpa using congrArg List.length h, rfl⟩

/-- Two letters. -/
theorem path_separated_sample : Separated [[0x61]] [[0x62]] := by
  have hne : encodePath [[0x61]] ≠ encodePath [[0x62]] := by decide +kernel
  exact (path_separated_iff (by norm_num) (by norm_num)).1.mpr fun h =>
    hne ((encodePath_eq_iff_samePaths (by norm_num) (by norm_num)).mpr h)

/-- Two lone surrogates have the bytes of U+FFFD. -/
theorem not_path_separated :
    ([[0xD800]] : List JsString) ≠ [[0xDC00]] ∧ ¬Separated [[0xD800]] [[0xDC00]] := by
  have heq : encodePath [[0xD800]] = encodePath [[0xDC00]] := by decide +kernel
  exact ⟨by decide, fun h => (separated_iff _ _).mp h heq⟩

end CcVrf
