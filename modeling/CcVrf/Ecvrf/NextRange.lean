import CcVrf.Ecvrf.Noble
import CcVrf.Ecvrf.StreamBytes
import CcVrf.Library.BitMask

/-!
`nextRange`: which values it can return, and how many words give each of them.

* `rangeMask_eq`: the shifts and `or`s of the source give the least mask of ones that is no
  smaller than `range - 1`, for every range up to `2^32`.
* `accept_eq`: up to a range of `2^31` a word is accepted exactly when its masked part is
  below the range, and the value is that part above the lower bound.
* `accept_max`: above `2^31` the masked part of a word is a signed number, and the word of
  ones gives the value one below the lower bound.
* `UniformRange`, `uniformRange_iff`: **`nextRange` is in range and exactly uniform for the
  ranges up to `2^31`, and for no larger one.**
-/

namespace CcVrf

open RejectionSampling

/-- The places of the mask of a range. -/
def maskBits (range : ℕ) : ℕ := (range - 1).size

lemma maskBits_le {n k : ℕ} (h : n ≤ 2 ^ k) : maskBits n ≤ k := by
  rw [maskBits, Nat.size_le]
  have hpos : 0 < 2 ^ k := by positivity
  omega

/-- **The mask of a range.** -/
theorem rangeMask_eq {n : ℕ} (h0 : n ≠ 0) (hn : n ≤ 2 ^ 32) :
    rangeMask n = (2 ^ maskBits n - 1 : ℕ) := by
  have hm : ((n : ℤ) - 1) = ((n - 1 : ℕ) : ℤ) := by omega
  have hself : JsNumber.toUint32 (n - 1 : ℕ) = n - 1 := JsNumber.toUint32_of_lt (by omega)
  -- each line doubles the width over which the ones are smeared
  have hsmear := (BitMask.Smears.self (n - 1)).step.step.step.step.step
  have hmask := hsmear.eq_mask (show n - 1 < 2 ^ 32 by omega)
  simp only [rangeMask, JsNumber.unsignedShiftRight_zero, JsNumber.toUint32_bitOr,
    JsNumber.toUint32_unsignedShiftRight, hm, hself]
  exact congrArg Nat.cast hmask

/-- It is the least mask of ones that is no smaller than the range less one. -/
lemma rangeMask_least {n : ℕ} (h0 : n ≠ 0) (hn : n ≤ 2 ^ 32) :
    rangeMask n = 2 ^ maskBits n - 1 ∧ (n : ℤ) - 1 ≤ 2 ^ maskBits n - 1 ∧
      ∀ k : ℕ, (n : ℤ) - 1 ≤ 2 ^ k - 1 → (2 : ℤ) ^ maskBits n - 1 ≤ 2 ^ k - 1 := by
  have hcast : ∀ k : ℕ, ((2 ^ k - 1 : ℕ) : ℤ) = 2 ^ k - 1 := fun k => by
    rw [Nat.cast_pred (by positivity), Nat.cast_pow, Nat.cast_ofNat]
  have hm : (n : ℤ) - 1 = ((n - 1 : ℕ) : ℤ) := by omega
  rw [rangeMask_eq h0 hn, hm]
  simp only [← hcast, Nat.cast_le]
  exact ⟨trivial, BitMask.size_mask_le _, fun k hk => BitMask.mask_least hk⟩

/-- The masked part of a word, without a sign. -/
lemma and_mask (n w : ℕ) : w &&& (2 ^ maskBits n - 1) = w % 2 ^ maskBits n :=
  Nat.and_two_pow_sub_one_eq_mod w _

lemma mask_lt {n k : ℕ} (h : n ≤ 2 ^ k) : 2 ^ maskBits n - 1 < 2 ^ k := by
  have hle := Nat.pow_le_pow_right (by decide : 0 < 2) (maskBits_le h)
  have hpos : 0 < 2 ^ maskBits n := by positivity
  omega

/-- The range is within the values of its mask, and more than half of them. -/
lemma le_two_pow_maskBits {n : ℕ} (h0 : n ≠ 0) : n ≤ 2 ^ maskBits n ∧ 2 ^ maskBits n ≤ 2 * n := by
  have hle : n - 1 < 2 ^ maskBits n := Nat.lt_size_self (n - 1)
  refine ⟨by omega, ?_⟩
  by_cases h1 : n = 1
  · subst h1
    decide
  · have hpos : 0 < maskBits n := Nat.size_pos.mpr (by omega)
    have hhalf : 2 ^ (maskBits n - 1) ≤ n - 1 := Nat.lt_size.mp (by rw [maskBits] at hpos ⊢; omega)
    calc 2 ^ maskBits n = 2 * 2 ^ (maskBits n - 1) := by
          rw [← pow_succ', Nat.sub_add_cancel hpos]
      _ ≤ 2 * n := by omega

section Accept

variable {minInclusive : ℤ} {n w : ℕ}

/-- **A word up to a range of `2^31`.** -/
theorem accept_eq (h0 : n ≠ 0) (hn : n ≤ 2 ^ 31) (hmin : |minInclusive| ≤ 2 ^ 53 - 1)
    (hmax : |minInclusive + n| ≤ 2 ^ 53 - 1) (hw : w < 2 ^ 32) :
    accept minInclusive n w =
      if w % 2 ^ maskBits n < n then some (minInclusive + (w % 2 ^ maskBits n : ℕ)) else none := by
  have hmask : 2 ^ maskBits n - 1 < 2 ^ 31 := mask_lt hn
  have hpart : w &&& (2 ^ maskBits n - 1) < 2 ^ 31 := Nat.and_lt_two_pow w hmask
  have hbit : JsNumber.bitAnd w (2 ^ maskBits n - 1 : ℕ) = (w % 2 ^ maskBits n : ℕ) := by
    rw [JsNumber.bitAnd_eq hw (hmask.trans (by decide)), if_pos hpart, and_mask]
  rw [accept, rangeMask_eq h0 (hn.trans (by decide)), attempt, hbit]
  by_cases hlt : w % 2 ^ maskBits n < n
  · rw [abs_le] at hmin hmax
    rw [if_pos (by exact_mod_cast hlt), if_pos hlt,
      JsNumber.round_eq (abs_le.mpr ⟨by omega, by omega⟩)]
  · rw [if_neg (by exact_mod_cast hlt), if_neg hlt]

/-- **The word of ones above a range of `2^31`.** Its masked part is `-1`. -/
theorem accept_max (hn : 2 ^ 31 < n) (hle : n ≤ 2 ^ 32) (hmin : |minInclusive| ≤ 2 ^ 53 - 1) :
    accept minInclusive n (2 ^ 32 - 1) = some (minInclusive - 1) := by
  have hbits : maskBits n = 32 :=
    le_antisymm (maskBits_le hle) (Nat.lt_size.mpr (by omega))
  have hbit : JsNumber.bitAnd (2 ^ 32 - 1 : ℕ) (2 ^ maskBits n - 1 : ℕ) = -1 := by
    rw [hbits]
    decide
  rw [abs_le] at hmin
  rw [accept, rangeMask_eq (by omega) hle, attempt, hbit, if_pos (by omega),
    JsNumber.round_eq (abs_le.mpr ⟨by omega, by omega⟩), sub_eq_add_neg]

end Accept

/-! ### Counting words -/

section Count

variable {minInclusive : ℤ} {n : ℕ}

/-- What a word of 32 bits gives. -/
abbrev acceptWord (minInclusive range : ℤ) (w : Fin (2 ^ 32)) : Option ℤ :=
  accept minInclusive range w

/-- A word gives a value of the range exactly when its masked part is the distance from
the lower bound. -/
lemma acceptWord_eq_some_iff (h0 : n ≠ 0) (hn : n ≤ 2 ^ 31) (hmin : |minInclusive| ≤ 2 ^ 53 - 1)
    (hmax : |minInclusive + n| ≤ 2 ^ 53 - 1) (w : Fin (2 ^ 32)) (v : ℤ) :
    acceptWord minInclusive n w = some v ↔
      (w : ℕ) % 2 ^ maskBits n < n ∧ v = minInclusive + ((w : ℕ) % 2 ^ maskBits n : ℕ) := by
  rw [acceptWord, accept_eq h0 hn hmin hmax w.isLt]
  split_ifs with hlt
  · rw [Option.some.injEq, eq_comm, iff_and_self]
    exact fun _ => hlt
  · constructor
    · intro h
      cases h
    · rintro ⟨h, -⟩
      exact absurd h hlt

/-- **Each value of the range has as many words as the mask leaves bits free.** -/
theorem hits_eq (h0 : n ≠ 0) (hn : n ≤ 2 ^ 31) (hmin : |minInclusive| ≤ 2 ^ 53 - 1)
    (hmax : |minInclusive + n| ≤ 2 ^ 53 - 1) {v : ℤ} (hv : minInclusive ≤ v)
    (hv' : v < minInclusive + n) :
    hits (acceptWord minInclusive n) (some v) = 2 ^ (32 - maskBits n) := by
  have hoffset : minInclusive + ((v - minInclusive).toNat : ℕ) = v := by omega
  have hlt : (v - minInclusive).toNat < n := by omega
  have hmasked := BitMask.card_masked (b := 32) (maskBits_le (hn.trans (by decide)))
    (hlt.trans_le (le_two_pow_maskBits h0).1)
  rw [hits]
  refine Eq.trans (congrArg Finset.card ?_) hmasked
  ext w
  simp only [Finset.mem_filter, Finset.mem_univ, true_and, and_mask]
  rw [acceptWord_eq_some_iff h0 hn hmin hmax]
  constructor
  · rintro ⟨-, rfl⟩
    omega
  · intro h
    rw [h]
    exact ⟨hlt, hoffset.symm⟩

/-- The draw of a range hits the values of the range equally often. -/
theorem uniform_acceptWord (h0 : n ≠ 0) (hn : n ≤ 2 ^ 31) (hmin : |minInclusive| ≤ 2 ^ 53 - 1)
    (hmax : |minInclusive + n| ≤ 2 ^ 53 - 1) :
    Uniform (acceptWord minInclusive n) (Finset.Ico minInclusive (minInclusive + n)) where
  inside w v h := by
    obtain ⟨hlt, rfl⟩ := (acceptWord_eq_some_iff h0 hn hmin hmax w v).mp h
    rw [Finset.mem_Ico]
    omega
  same v hv v' hv' := by
    rw [Finset.mem_Ico] at hv hv'
    rw [hits_eq h0 hn hmin hmax hv.1 hv.2, hits_eq h0 hn hmin hmax hv'.1 hv'.2]
  some_hit := by
    have hzero : acceptWord minInclusive n ⟨0, by decide⟩ = some minInclusive := by
      rw [acceptWord_eq_some_iff h0 hn hmin hmax]
      simp only [Nat.zero_mod, Nat.cast_zero, add_zero, and_true]
      exact Nat.pos_of_ne_zero h0
    exact ⟨_, by rw [hzero]; exact Option.some_ne_none _⟩

/-- **At least half of all words are accepted.** -/
theorem half_accepted (h0 : n ≠ 0) (hn : n ≤ 2 ^ 31) (hmin : |minInclusive| ≤ 2 ^ 53 - 1)
    (hmax : |minInclusive + n| ≤ 2 ^ 53 - 1) :
    2 ^ 32 ≤ 2 * (Finset.univ.filter fun w => acceptWord minInclusive n w ≠ none).card := by
  have hmem : minInclusive ∈ Finset.Ico minInclusive (minInclusive + n) := by
    rw [Finset.mem_Ico]
    omega
  have hcard := (uniform_acceptWord h0 hn hmin hmax).card_eq hmem
  have hsplit := hits_none_add (acceptWord minInclusive n)
  have hval : (Finset.Ico minInclusive (minInclusive + n)).card = n := by
    rw [Int.card_Ico]
    omega
  rw [hval, hits_eq h0 hn hmin hmax le_rfl (by omega)] at hcard
  have hcount : (Finset.univ.filter fun w => acceptWord minInclusive n w ≠ none).card =
      n * 2 ^ (32 - maskBits n) := Nat.add_left_cancel (hsplit.trans hcard)
  have hbits := maskBits_le (hn.trans (by decide : 2 ^ 31 ≤ 2 ^ 32))
  calc 2 ^ 32 = 2 ^ maskBits n * 2 ^ (32 - maskBits n) := by
        rw [← pow_add, Nat.add_sub_cancel' hbits]
    _ ≤ 2 * n * 2 ^ (32 - maskBits n) := Nat.mul_le_mul_right _ (le_two_pow_maskBits h0).2
    _ = _ := by rw [hcount, Nat.mul_assoc]

end Count

/-! ### The whole method -/

/-- `nextRange` is in range and exactly uniform. -/
structure UniformRange (sha512 : Bytes → ByteVec 64) (minInclusive maxExclusive : ℤ) : Prop where
  /-- What a call returns is in the range. -/
  inside : ∀ rounds s r s', (nextRange (VrfStream.nextU32 sha512) rounds (.integer minInclusive)
    (.integer maxExclusive)).call s = some (r, s') →
    ∃ v, r = .ok v ∧ minInclusive ≤ v ∧ v < maxExclusive
  /-- The mask is the least `2^k - 1` that is no smaller than the range less one. -/
  mask : ∃ k : ℕ, rangeMask (maxExclusive - minInclusive) = 2 ^ k - 1 ∧
    maxExclusive - minInclusive - 1 ≤ 2 ^ k - 1 ∧
    ∀ k' : ℕ, maxExclusive - minInclusive - 1 ≤ 2 ^ k' - 1 → (2 : ℤ) ^ k - 1 ≤ 2 ^ k' - 1
  /-- Each value of the range is given by `2^32 / (mask + 1)` words. -/
  hits : ∀ v, minInclusive ≤ v → v < maxExclusive →
    hits (acceptWord minInclusive (maxExclusive - minInclusive)) (some v) *
      (rangeMask (maxExclusive - minInclusive) + 1) = 2 ^ 32
  /-- Every other word is rejected. -/
  others : ∀ w v, acceptWord minInclusive (maxExclusive - minInclusive) w = some v →
    minInclusive ≤ v ∧ v < maxExclusive
  /-- At least half of all words are accepted. -/
  half : 2 ^ 32 ≤ 2 * (Finset.univ.filter fun w =>
    acceptWord minInclusive (maxExclusive - minInclusive) w ≠ none).card
  /-- A call that returns has drawn rejected words and an accepted one, whose value it
  returns. -/
  returns : ∀ rounds s r s', (nextRange (VrfStream.nextU32 sha512) rounds (.integer minInclusive)
    (.integer maxExclusive)).call s = some (r, s') →
    ∃ ws w v, r = .ok v ∧ Draws (VrfStream.nextU32 sha512) s (ws ++ [w]) s' ∧
      (∀ x ∈ ws, accept minInclusive (maxExclusive - minInclusive) x = none) ∧
      accept minInclusive (maxExclusive - minInclusive) w = some v
  /-- A call that draws an accepted word returns. -/
  first : ∀ s ws w v s', Draws (VrfStream.nextU32 sha512) s (ws ++ [w]) s' →
    (∀ x ∈ ws, accept minInclusive (maxExclusive - minInclusive) x = none) →
    accept minInclusive (maxExclusive - minInclusive) w = some v →
    ∀ rounds, ws.length < rounds → (nextRange (VrfStream.nextU32 sha512) rounds
      (.integer minInclusive) (.integer maxExclusive)).call s = some (.ok v, s')

/-- The largest safe integer. -/
def maxSafeInteger : ℤ := 2 ^ 53 - 1

section Bounds

variable {sha512 : Bytes → ByteVec 64} {minInclusive : ℤ} {n rounds : ℕ} {s s' : VrfStream}

/-- A call that returns has drawn rejected words and an accepted one. -/
lemma exists_accepted (h0 : n ≠ 0) (hn : n ≤ 2 ^ 32) {r : Except String ℤ}
    (h : (nextRange (VrfStream.nextU32 sha512) rounds (.integer minInclusive)
      (.integer (minInclusive + n))).call s = some (r, s')) :
    ∃ ws w v, r = .ok v ∧ Draws (VrfStream.nextU32 sha512) s (ws ++ [w]) s' ∧
      (∀ x ∈ ws, accept minInclusive n x = none) ∧ accept minInclusive n w = some v := by
  obtain ⟨hvalid, hround⟩ := validRange_add minInclusive h0 hn
  obtain ⟨ws, v, rfl, hws, hv⟩ :=
    nextRange_returns (VrfStream.nextU32_isWordSource sha512) hvalid h
  rw [hround] at hv
  obtain ⟨rejected, w, b, rfl, hrej, hw, hb⟩ := consume_singleton_iff.mp hv
  obtain rfl : v = b := by simpa using hb
  exact ⟨rejected, w, v, rfl, hws, hrej, hw⟩

/-- A call that draws rejected words and an accepted one returns. -/
lemma nextRange_of_accepted (h0 : n ≠ 0) (hn : n ≤ 2 ^ 32) {ws : List ℕ} {w : ℕ} {v : ℤ}
    (hws : Draws (VrfStream.nextU32 sha512) s (ws ++ [w]) s')
    (hrej : ∀ x ∈ ws, accept minInclusive n x = none) (hw : accept minInclusive n w = some v)
    (hrounds : ws.length < rounds) :
    (nextRange (VrfStream.nextU32 sha512) rounds (.integer minInclusive)
      (.integer (minInclusive + n))).call s = some (.ok v, s') := by
  obtain ⟨hvalid, hround⟩ := validRange_add minInclusive h0 hn
  refine nextRange_of_consume hvalid ?_ hws ?_
  · rw [List.length_append, List.length_singleton]
    exact hrounds
  · rw [hround]
    exact consume_singleton_iff.mpr ⟨ws, w, v, rfl, hrej, hw, rfl⟩

/-- Up to a range of `2^31`. -/
lemma uniformRange_of_le (h0 : n ≠ 0) (hn : n ≤ 2 ^ 31) (hmin : |minInclusive| ≤ 2 ^ 53 - 1)
    (hmax : |minInclusive + n| ≤ 2 ^ 53 - 1) :
    UniformRange sha512 minInclusive (minInclusive + n) := by
  have hn' : n ≤ 2 ^ 32 := by omega
  have hmask := rangeMask_least h0 hn'
  have hunif := uniform_acceptWord h0 hn hmin hmax
  have hsub : minInclusive + n - minInclusive = n := add_sub_cancel_left minInclusive n
  refine ⟨?_, ⟨maskBits n, ?_⟩, ?_, ?_, ?_, ?_, ?_⟩
  · intro rounds s r s' hcall
    obtain ⟨ws, w, v, rfl, hws, -, hw⟩ := exists_accepted h0 hn' hcall
    have hword := hws.words_lt (VrfStream.nextU32_isWordSource sha512) w (by simp)
    exact ⟨v, rfl, Finset.mem_Ico.mp (hunif.inside ⟨w, hword⟩ v hw)⟩
  · rwa [hsub]
  · intro v hv hv'
    have hpow : 2 ^ (32 - maskBits n) * 2 ^ maskBits n = 2 ^ 32 :=
      pow_sub_mul_pow 2 (maskBits_le hn')
    rw [hsub, hmask.1, hits_eq h0 hn hmin hmax hv hv', sub_add_cancel]
    exact_mod_cast hpow
  · intro w v hw
    rw [hsub] at hw
    exact Finset.mem_Ico.mp (hunif.inside w v hw)
  · rw [hsub]
    exact half_accepted h0 hn hmin hmax
  · rw [hsub]
    intro rounds s r s' hcall
    exact exists_accepted h0 hn' hcall
  · rw [hsub]
    intro s ws w v s' hws hrej hw rounds hrounds
    exact nextRange_of_accepted h0 hn' hws hrej hw hrounds

end Bounds

/-- **`nextRange` is in range and uniform for a range of at most `2^31`, and for no larger
one.** -/
theorem next_range_uniform_iff (sha512 : Bytes → ByteVec 64) {minInclusive maxExclusive : ℤ}
    (hmin : |minInclusive| ≤ maxSafeInteger) (hmax : |maxExclusive| ≤ maxSafeInteger)
    (hlt : minInclusive < maxExclusive) (hrange : maxExclusive - minInclusive ≤ 2 ^ 32) :
    UniformRange sha512 minInclusive maxExclusive ↔ maxExclusive - minInclusive ≤ 2 ^ 31 := by
  obtain ⟨n, hn⟩ := Int.eq_ofNat_of_zero_le (sub_nonneg.mpr hlt.le)
  have h0 : n ≠ 0 := by omega
  obtain rfl : maxExclusive = minInclusive + n := by omega
  constructor
  · intro h
    -- above `2^31` the word of ones gives the value below the lower bound
    by_contra hgt
    have hacc := accept_max (n := n) (by omega) (by omega) hmin
    have hbad := h.others ⟨2 ^ 32 - 1, by norm_num⟩ (minInclusive - 1) (by rw [hn]; exact hacc)
    omega
  · intro hle
    exact uniformRange_of_le h0 (by omega) hmin hmax

/-- A die. -/
theorem next_range_uniform_sample : UniformRange (polyHash 64) 1 7 :=
  (next_range_uniform_iff (polyHash 64) (by decide) (by decide) (by decide) (by decide)).mpr
    (by decide)

/-- A hash whose bits are all ones. -/
def onesHash (_ : Bytes) : ByteVec 64 := ⟨List.replicate 64 255, List.length_replicate⟩

/-- Its streams have the word of ones everywhere. -/
lemma wordsAt_onesHash (beta : Bytes) (path : List JsString) :
    wordsAt (streamString onesHash beta path) 0 1 = [2 ^ 32 - 1] := by
  have hbyte : ∀ i, streamString onesHash beta path i = 255 := fun i => List.getElem_replicate _
  rw [wordsAt_succ, wordAt, BlockString.window, List.map_congr_left fun i _ => hbyte (0 + i)]
  rfl

/-- With a range of `2^32` a stream can return a value below the lower bound. -/
theorem not_next_range_uniform :
    (∃ s s', vrfStream (List.replicate 64 0) [] = .ok s ∧
      (nextRange (VrfStream.nextU32 onesHash) 1 (.integer 0) (.integer (2 ^ 32))).call s =
        some (.ok (-1), s')) ∧ ¬UniformRange onesHash 0 (2 ^ 32) := by
  obtain ⟨s, hs⟩ : ∃ s, vrfStream (List.replicate 64 0) [] = .ok s := ⟨_, rfl⟩
  have hrep : VrfStream.Represents onesHash _ _ s 0 := VrfStream.represents_vrfStream hs
  obtain ⟨s', hdraws, -⟩ := VrfStream.exists_draws hrep 1
  rw [wordsAt_onesHash] at hdraws
  have hacc : accept 0 (2 ^ 32 : ℕ) (2 ^ 32 - 1) = some (-1) := by
    rw [accept_max (by norm_num) le_rfl (by norm_num), zero_sub]
  have hword : Draws (VrfStream.nextU32 onesHash) s ([] ++ [2 ^ 32 - 1]) s' := hdraws
  have hcall := nextRange_of_accepted (by norm_num) le_rfl hword (by simp) hacc Nat.zero_lt_one
  rw [zero_add, Nat.cast_pow, Nat.cast_ofNat] at hcall
  refine ⟨⟨s, s', hs, hcall⟩, fun h => ?_⟩
  obtain ⟨v, hv, hnonneg, -⟩ := h.inside 1 s _ s' hcall
  obtain rfl : -1 = v := Except.ok.inj hv
  exact absurd hnonneg (by decide)

end CcVrf
