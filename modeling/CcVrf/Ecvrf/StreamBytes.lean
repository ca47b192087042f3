import CcVrf.Ecvrf.Draws
import CcVrf.Library.BlockString

/-!
The bytes of a stream: the buffered reader of `vrfStream` against the infinite string of
its blocks.

* `streamString`: the blocks of a stream, one after the other.
* `Represents`: the closure of a stream is at a position of its string. This is the
  invariant of the reader (`represents_vrfStream`, `nextBytes.loop_spec`).
* `nextBytes_eq`, `nextU32_eq`, `nextU64_eq`: **each read gives the next bytes of the string
  and moves behind them.**
* `nextU32_isWordSource`, `draws_iff`: the words of a stream, from any state and from a
  position.
-/

namespace CcVrf

open BlockString

/-- The number of a big-endian byte string. -/
def bigEndian (b : Bytes) : ℕ := b.foldl (fun v x => 256 * v + x.toNat) 0

/-- The infinite string of a stream. -/
def streamString (sha512 : Bytes → ByteVec 64) (beta : Bytes) (path : List JsString) : ℕ → UInt8 :=
  ofBlocks fun blockIndex => sha512 (refillInput beta (encodePath path) blockIndex)

/-- The word at a position of a string. -/
def wordAt (str : ℕ → UInt8) (pos : ℕ) : ℕ := bigEndian (window str pos 4)

/-- The words from a position on. -/
def wordsAt (str : ℕ → UInt8) (pos m : ℕ) : List ℕ :=
  (List.range m).map fun i => wordAt str (pos + 4 * i)

@[simp] lemma length_wordsAt (str : ℕ → UInt8) (pos m : ℕ) : (wordsAt str pos m).length = m := by
  rw [wordsAt, List.length_map, List.length_range]

lemma wordsAt_succ (str : ℕ → UInt8) (pos m : ℕ) :
    wordsAt str pos (m + 1) = wordAt str pos :: wordsAt str (pos + 4) m := by
  rw [wordsAt, List.range_succ_eq_map, List.map_cons, List.map_map]
  refine congrArg (_ :: ·) (List.map_congr_left fun i _ => congrArg (wordAt str) ?_)
  omega

/-! ### Big-endian numbers -/

/-- The number that the shifts of `bytesToBigIntBE` read. -/
lemma bytesToBigIntBE_eq_bigEndian (b : Bytes) : bytesToBigIntBE b = bigEndian b := by
  rw [bytesToBigIntBE, bigEndian]
  congr 1
  funext v x
  exact shiftLeft_or_byte v x

/-- Four bytes as the word of the shifts and masks of `nextU32`. -/
lemma word_of_bytes (a b c d : UInt8) :
    JsNumber.unsignedShiftRight
      (JsNumber.bitOr
        (JsNumber.bitOr
          (JsNumber.bitOr (JsNumber.shiftLeft a.toNat 24) (JsNumber.shiftLeft b.toNat 16))
          (JsNumber.shiftLeft c.toNat 8))
        d.toNat) 0 = bigEndian [a, b, c, d] := by
  have ha := a.toNat_lt
  have hb := b.toNat_lt
  have hc := c.toNat_lt
  have hd := d.toNat_lt
  have hword : ∀ {n : ℕ}, n < 256 → JsNumber.toUint32 n = n := fun h =>
    JsNumber.toUint32_of_lt (by omega)
  have hshift : ∀ {n k : ℕ}, n < 256 → k ≤ 24 → n <<< k % 2 ^ 32 = n <<< k := fun {n k} hn hk => by
    refine Nat.mod_eq_of_lt ?_
    rw [Nat.shiftLeft_eq]
    calc n * 2 ^ k ≤ n * 2 ^ 24 := Nat.mul_le_mul_left n (Nat.pow_le_pow_right (by decide) hk)
      _ < 2 ^ 32 := by omega
  rw [JsNumber.unsignedShiftRight_zero]
  simp only [JsNumber.toUint32_bitOr, JsNumber.toUint32_shiftLeft, hword ha, hword hb, hword hc,
    hword hd]
  rw [hshift ha (by decide), hshift hb (by decide), hshift hc (by decide)]
  refine congrArg Nat.cast ?_
  calc a.toNat <<< 24 ||| b.toNat <<< 16 ||| c.toNat <<< 8 ||| d.toNat
      = ((a.toNat <<< 8 ||| b.toNat) <<< 8 ||| c.toNat) <<< 8 ||| d.toNat := by
        simp only [Nat.shiftLeft_or_distrib, ← Nat.shiftLeft_add]
    _ = bytesToBigIntBE [a, b, c, d] := by simp [bytesToBigIntBE]
    _ = bigEndian [a, b, c, d] := bytesToBigIntBE_eq_bigEndian _

/-- The loop of `nextU64` reads the number of its bytes. -/
lemma foldl_bytes {b : Bytes} {n : ℕ} (h : b.length = n) :
    (List.range n).foldl (fun v i => (v <<< 8) ||| (b.getD i 0).toNat) 0 = bigEndian b := by
  subst h
  have hmap : (List.range b.length).map (fun i => b.getD i 0) = b := by
    refine List.ext_getElem (by simp) fun i hi hi' => ?_
    rw [List.getElem_map, List.getElem_range, List.getD_eq_getElem _ _ hi']
  calc (List.range b.length).foldl (fun v i => (v <<< 8) ||| (b.getD i 0).toNat) 0
      = ((List.range b.length).map fun i => b.getD i 0).foldl (fun v x => (v <<< 8) ||| x.toNat)
          0 := by rw [List.foldl_map]
    _ = bytesToBigIntBE b := by rw [hmap, bytesToBigIntBE]
    _ = bigEndian b := bytesToBigIntBE_eq_bigEndian b

/-- A number of `n` bytes is below `256` to the `n`. -/
lemma bigEndian_lt (b : Bytes) : bigEndian b < 256 ^ b.length := by
  rw [← bytesToBigIntBE_eq_bigEndian, bytesToBigIntBE_eq, ← List.length_reverse]
  exact bytesToBigIntLE_lt b.reverse

/-! ### The buffered reader -/

namespace VrfStream

variable {sha512 : Bytes → ByteVec 64} {s : VrfStream}

/-- The state of a round after its refill, if it needs one. -/
def ready (sha512 : Bytes → ByteVec 64) (s : VrfStream) : VrfStream :=
  if s.buf.length ≤ s.bufOffset then s.refill sha512 else s

/-- The state after a round has taken `take` bytes. -/
def advance (s : VrfStream) (take : ℕ) : VrfStream := { s with bufOffset := s.bufOffset + take }

/-- There is something left in the buffer then. -/
lemma ready_left (sha512 : Bytes → ByteVec 64) (s : VrfStream) :
    0 < (ready sha512 s).buf.length - (ready sha512 s).bufOffset := by
  rw [ready]
  split_ifs with h
  · show 0 < (sha512 _).val.length - 0
    rw [(sha512 _).property]
    decide
  · omega

/-- A round of the loop. -/
lemma nextBytes.loop_succ {n take : ℕ} {out : Bytes} (h : out.length < n) (rounds : ℕ)
    (htake : min (n - out.length) ((ready sha512 s).buf.length - (ready sha512 s).bufOffset) =
      take) :
    nextBytes.loop sha512 n (rounds + 1) out s =
      nextBytes.loop sha512 n rounds
        (out ++ slice (ready sha512 s).buf (ready sha512 s).bufOffset
          ((ready sha512 s).bufOffset + take))
        ((ready sha512 s).advance take) := by
  rw [← htake, nextBytes.loop, if_pos h]
  rfl

/-- A loop with nothing left to write. -/
lemma nextBytes.loop_done {n : ℕ} {out : Bytes} (h : n ≤ out.length) (rounds : ℕ) :
    nextBytes.loop sha512 n rounds out s = (out, s) := by
  cases rounds with
  | zero => rfl
  | succ rounds => rw [nextBytes.loop, if_neg (not_lt.mpr h)]

/-- What a round takes has the length of what it takes off. -/
lemma length_take_ready (s : VrfStream) {take : ℕ}
    (h : take ≤ (ready sha512 s).buf.length - (ready sha512 s).bufOffset) :
    (slice (ready sha512 s).buf (ready sha512 s).bufOffset
      ((ready sha512 s).bufOffset + take)).length = take := by
  have hleft := ready_left sha512 s
  rw [slice_length _ (by omega)]
  omega

/-- From any state the loop writes all bytes. -/
lemma nextBytes.loop_length {n : ℕ} (rounds : ℕ) {out : Bytes} (hout : out.length ≤ n)
    (hrounds : n ≤ out.length + rounds) :
    (nextBytes.loop sha512 n rounds out s).1.length = n := by
  induction rounds generalizing out s with
  | zero =>
      rw [nextBytes.loop_done (by omega)]
      exact Nat.le_antisymm hout hrounds
  | succ rounds ih =>
      rcases Nat.lt_or_ge out.length n with hlt | hge
      · have hleft := ready_left sha512 s
        rw [nextBytes.loop_succ hlt rounds rfl]
        refine ih ?_ ?_
        all_goals rw [List.length_append, length_take_ready s (Nat.min_le_right _ _)]; omega
      · rw [nextBytes.loop_done hge]
        exact Nat.le_antisymm hout hge

/-- A call with a valid length. -/
lemma call_nextBytes {k : ℕ} (hk : k < 2 ^ 53) (s : VrfStream) :
    (nextBytes sha512 (.integer k)).call s =
      some (.ok (nextBytes.loop sha512 k k [] s).1, (nextBytes.loop sha512 k k [] s).2) := by
  rw [nextBytes, if_neg (by omega), if_neg (by omega), Int.toNat_natCast]
  rfl

/-- A word is the number of four bytes. -/
lemma call_nextU32 (s : VrfStream) : (nextU32 sha512).call s =
    some (.ok (bigEndian (nextBytes.loop sha512 4 4 [] s).1),
      (nextBytes.loop sha512 4 4 [] s).2) := by
  have hbytes : (nextBytes sha512 (.integer 4)).call s = _ :=
    call_nextBytes (by decide : 4 < 2 ^ 53) s
  have hlen : (nextBytes.loop sha512 4 4 [] s).1.length = 4 :=
    nextBytes.loop_length 4 (by simp) (by simp)
  obtain ⟨a, b, c, d, heq⟩ := List.length_eq_four.mp hlen
  rw [nextU32, Draw.call_bind_of_ok hbytes, heq, Draw.call_pure, ← word_of_bytes]
  rfl

/-- The words of a stream, from any state. -/
lemma nextU32_isWordSource (sha512 : Bytes → ByteVec 64) : IsWordSource (nextU32 sha512) := by
  intro s r s' h
  have hlen : (nextBytes.loop sha512 4 4 [] s).1.length = 4 :=
    nextBytes.loop_length 4 (by simp) (by simp)
  rw [call_nextU32] at h
  obtain ⟨rfl, -⟩ := Prod.mk.inj (Option.some.inj h)
  refine ⟨_, ?_, rfl⟩
  calc bigEndian (nextBytes.loop sha512 4 4 [] s).1
      < 256 ^ (nextBytes.loop sha512 4 4 [] s).1.length := bigEndian_lt _
    _ = 2 ^ 32 := by rw [hlen]; norm_num

/-- A number of 64 bits is the number of eight bytes. -/
lemma call_nextU64 (s : VrfStream) : (nextU64 sha512).call s =
    some (.ok (bigEndian (nextBytes.loop sha512 8 8 [] s).1),
      (nextBytes.loop sha512 8 8 [] s).2) := by
  have hbytes : (nextBytes sha512 (.integer 8)).call s = _ :=
    call_nextBytes (by decide : 8 < 2 ^ 53) s
  have hlen : (nextBytes.loop sha512 8 8 [] s).1.length = 8 :=
    nextBytes.loop_length 8 (by simp) (by simp)
  rw [nextU64, Draw.call_bind_of_ok hbytes, foldl_bytes hlen]
  rfl

/-- The closure of a stream with a given output and path is at a position of its
string. -/
structure Represents (sha512 : Bytes → ByteVec 64) (beta : Bytes) (path : List JsString)
    (s : VrfStream) (pos : ℕ) : Prop where
  betaCopy_eq : s.betaCopy = beta
  path_eq : s.path = path
  encodedPath_eq : s.encodedPath = encodePath path
  unread : Unread (streamString sha512 beta path) 64 s.buf s.bufOffset s.blockIndex pos

variable {beta : Bytes} {path : List JsString} {pos : ℕ}

/-- A new stream is at the start. -/
lemma represents_vrfStream (h : vrfStream beta path = .ok s) : Represents sha512 beta path s 0 := by
  rw [vrfStream] at h
  split_ifs at h
  cases h
  exact ⟨rfl, rfl, rfl, Unread.start _ _⟩

/-- A refill of an empty buffer. -/
lemma Represents.ready (h : Represents sha512 beta path s pos) :
    Represents sha512 beta path (ready sha512 s) pos := by
  rw [VrfStream.ready]
  split_ifs with hend
  · refine ⟨h.betaCopy_eq, h.path_eq, h.encodedPath_eq, ?_⟩
    show Unread _ 64 (sha512 (refillInput s.betaCopy s.encodedPath s.blockIndex)).val 0
      (s.blockIndex + 1) pos
    rw [h.betaCopy_eq, h.encodedPath_eq]
    exact h.unread.refill hend
  · exact h

/-- Taking what is left, or a part of it. -/
lemma Represents.advance (h : Represents sha512 beta path s pos) {take : ℕ}
    (htake : take ≤ s.buf.length - s.bufOffset) :
    slice s.buf s.bufOffset (s.bufOffset + take) = window (streamString sha512 beta path) pos take ∧
      Represents sha512 beta path (s.advance take) (pos + take) := by
  obtain ⟨hread, hunread⟩ := h.unread.advance htake
  refine ⟨?_, h.betaCopy_eq, h.path_eq, h.encodedPath_eq, hunread⟩
  rw [← hread, slice, List.drop_take, Nat.add_sub_cancel_left]

/-- **The loop reads the next bytes of the string.** -/
lemma nextBytes.loop_spec {n : ℕ} (rounds : ℕ) {out : Bytes} (hout : out.length ≤ n)
    (hrounds : n ≤ out.length + rounds) (h : Represents sha512 beta path s pos) :
    (nextBytes.loop sha512 n rounds out s).1 =
        out ++ window (streamString sha512 beta path) pos (n - out.length) ∧
      Represents sha512 beta path (nextBytes.loop sha512 n rounds out s).2
        (pos + (n - out.length)) := by
  induction rounds generalizing out s pos with
  | zero =>
      rw [nextBytes.loop_done (by omega), show n - out.length = 0 by omega, window_zero,
        List.append_nil]
      exact ⟨rfl, h⟩
  | succ rounds ih =>
      rcases Nat.lt_or_ge out.length n with hlt | hge
      · have hleft := ready_left sha512 s
        obtain ⟨take, htake⟩ : ∃ take, min (n - out.length) ((VrfStream.ready sha512 s).buf.length -
            (VrfStream.ready sha512 s).bufOffset) = take := ⟨_, rfl⟩
        obtain ⟨hread, hnext⟩ := h.ready.advance (htake.symm.trans_le (Nat.min_le_right _ _))
        have hlen : (out ++ window (streamString sha512 beta path) pos take).length =
            out.length + take := by rw [List.length_append, length_window]
        have hrest := ih (by rw [hlen]; omega) (by omega) hnext
        rw [hlen] at hrest
        have hsplit : n - out.length = take + (n - (out.length + take)) := by omega
        rw [nextBytes.loop_succ hlt rounds htake, hread, hsplit, window_add, ← List.append_assoc,
          ← Nat.add_assoc]
        exact hrest
      · rw [nextBytes.loop_done hge, show n - out.length = 0 by omega, window_zero, List.append_nil]
        exact ⟨rfl, h⟩

/-- **A read gives the next bytes and moves behind them.** -/
lemma loop_eq (n : ℕ) (h : Represents sha512 beta path s pos) :
    (nextBytes.loop sha512 n n [] s).1 = window (streamString sha512 beta path) pos n ∧
      Represents sha512 beta path (nextBytes.loop sha512 n n [] s).2 (pos + n) := by
  have hout : ([] : Bytes).length ≤ n := Nat.zero_le n
  have hrounds : n ≤ ([] : Bytes).length + n := Nat.le_add_left n _
  have hspec := nextBytes.loop_spec n hout hrounds h
  rwa [List.nil_append] at hspec

/-- A valid length throws nothing. -/
theorem nextBytes_eq {k : ℕ} (hk : k < 2 ^ 53) (h : Represents sha512 beta path s pos) :
    ∃ s', (nextBytes sha512 (.integer k)).call s =
        some (.ok (window (streamString sha512 beta path) pos k), s') ∧
      Represents sha512 beta path s' (pos + k) := by
  obtain ⟨hread, hnext⟩ := loop_eq k h
  exact ⟨_, by rw [call_nextBytes hk, hread], hnext⟩

theorem nextU32_eq (h : Represents sha512 beta path s pos) :
    ∃ s', (nextU32 sha512).call s =
        some (.ok (wordAt (streamString sha512 beta path) pos), s') ∧
      Represents sha512 beta path s' (pos + 4) := by
  obtain ⟨hread, hnext⟩ := loop_eq 4 h
  exact ⟨_, by rw [call_nextU32, hread, wordAt], hnext⟩

theorem nextU64_eq (h : Represents sha512 beta path s pos) :
    ∃ s', (nextU64 sha512).call s =
        some (.ok (bigEndian (window (streamString sha512 beta path) pos 8)), s') ∧
      Represents sha512 beta path s' (pos + 8) := by
  obtain ⟨hread, hnext⟩ := loop_eq 8 h
  exact ⟨_, by rw [call_nextU64, hread], hnext⟩

/-- **The words of a stream are the words of its string.** -/
lemma exists_draws (h : Represents sha512 beta path s pos) (m : ℕ) :
    ∃ s', Draws (nextU32 sha512) s (wordsAt (streamString sha512 beta path) pos m) s' ∧
      Represents sha512 beta path s' (pos + 4 * m) := by
  induction m generalizing s pos with
  | zero => exact ⟨s, rfl, h⟩
  | succ m ih =>
      obtain ⟨s₁, hcall, hnext⟩ := nextU32_eq h
      obtain ⟨s', hdraws, hrep⟩ := ih hnext
      refine ⟨s', ?_, ?_⟩
      · rw [wordsAt_succ]
        exact ⟨s₁, hcall, hdraws⟩
      · rwa [show pos + 4 * (m + 1) = pos + 4 + 4 * m by ring]

end VrfStream

/-- The words on the way between two states are determined by their number. -/
lemma Draws.unique {σ : Type} {nextU32 : Draw σ ℤ} {s s₁ s₂ : σ} {ws₁ ws₂ : List ℕ}
    (h₁ : Draws nextU32 s ws₁ s₁) (h₂ : Draws nextU32 s ws₂ s₂) (hlen : ws₁.length = ws₂.length) :
    ws₁ = ws₂ ∧ s₁ = s₂ := by
  induction ws₁ generalizing s ws₂ with
  | nil =>
      obtain rfl := List.eq_nil_of_length_eq_zero hlen.symm
      exact ⟨rfl, h₁.symm.trans h₂⟩
  | cons w ws₁ ih =>
      cases ws₂ with
      | nil => cases hlen
      | cons w' ws₂ =>
          obtain ⟨t, hw, hws⟩ := h₁
          obtain ⟨t', hw', hws'⟩ := h₂
          rw [hw] at hw'
          obtain ⟨hword, rfl⟩ := Prod.mk.inj (Option.some.inj hw')
          obtain rfl : w = w' := by exact_mod_cast Except.ok.inj hword
          obtain ⟨rfl, rfl⟩ := ih hws hws' (Nat.succ.inj hlen)
          exact ⟨rfl, rfl⟩

namespace VrfStream

/-- The words drawn from a position, and the position after them. -/
lemma draws_eq {sha512 : Bytes → ByteVec 64} {beta : Bytes} {path : List JsString}
    {s s' : VrfStream} {pos : ℕ} {ws : List ℕ} (h : Represents sha512 beta path s pos)
    (hdraws : Draws (nextU32 sha512) s ws s') :
    ws = wordsAt (streamString sha512 beta path) pos ws.length ∧
      Represents sha512 beta path s' (pos + 4 * ws.length) := by
  obtain ⟨s₁, hwords, hrep⟩ := exists_draws h ws.length
  obtain ⟨heq, rfl⟩ := hdraws.unique hwords (by rw [length_wordsAt])
  exact ⟨heq, hrep⟩

end VrfStream

end CcVrf
