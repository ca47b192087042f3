import Mathlib.Tactic

/-!
Byte strings and the integer codecs of `packages/ecvrf/src/encoding.ts`.

* `Bytes` models `Uint8Array`; `ByteVec n` is a byte string that carries its
  length, the type of the fixed arrays of the program and of the hash outputs.
* `bytesToBigIntLE`, `bigIntToBytesLE`: the loops of the source, with its shifts
  and masks. `bytesToBigIntLE_cons` and `bigIntToBytesLE.loop_spec` say once what
  a step of each does to the value; `bigIntToBytesLE_eq_ok_iff` and
  `bytesToBigIntLE_inj` are the exact conditions under which they succeed and
  are injective.
* `bytesToBigIntBE`, `bigIntToBytesBE`: the same with the bytes in reverse
  (`bytesToBigIntBE_eq`, `bigIntToBytesBE_eq_ok_iff`). `exactIntegerCodec_LE` and
  `exactIntegerCodec_BE`: both pairs are inverse to each other.
* `bytesEqual`: the comparison that accumulates differences, which decides
  equality (`bytesEqual_iff`).
-/

namespace CcVrf

/-- A `Uint8Array`. -/
abbrev Bytes := List UInt8

/-- A byte string of a fixed length. -/
abbrev ByteVec (n : ℕ) := {b : Bytes // b.length = n}

/-- A function of the source that may throw, with the message of the error. -/
abbrev Throws := Except String

/-! ### Slices and concatenations -/

/-- `bytes.slice(start, stop)`. -/
def slice (b : Bytes) (start stop : ℕ) : Bytes := (b.take stop).drop start

/-- `concatBytes(...parts)`. -/
def concatBytes (parts : List Bytes) : Bytes := parts.flatten

lemma slice_length {b : Bytes} (start : ℕ) {stop : ℕ} (h : stop ≤ b.length) :
    (slice b start stop).length = stop - start := by
  rw [slice, List.length_drop, List.length_take, Nat.min_eq_left h]

/-- A byte string of length `l + m + n` is the concatenation of its three
slices. -/
lemma slice_append_slice {b : Bytes} {l m n : ℕ} (h : b.length = l + m + n) :
    slice b 0 l ++ slice b l (l + m) ++ slice b (l + m) (l + m + n) = b := by
  have h1 : b.take (l + m) = b.take l ++ (b.take (l + m)).drop l := by
    conv_lhs => rw [← List.take_append_drop l (b.take (l + m))]
    rw [List.take_take, Nat.min_eq_left (Nat.le_add_right l m)]
  simp only [slice, List.drop_zero]
  rw [← h1, ← h, List.take_length, List.take_append_drop]

/-- The slices of a concatenation of three parts are the parts. -/
lemma slice_concat (a b c : Bytes) :
    slice (a ++ b ++ c) 0 a.length = a ∧
      slice (a ++ b ++ c) a.length (a.length + b.length) = b ∧
      slice (a ++ b ++ c) (a.length + b.length) (a.length + b.length + c.length) = c := by
  refine ⟨?_, ?_, ?_⟩
  · simp [slice, List.append_assoc]
  · rw [slice, ← List.length_append, List.take_left, List.drop_left]
  · rw [slice, ← List.length_append, ← List.length_append, List.take_length, List.drop_left]

/-! ### Little-endian integers -/

/-- `bytesToBigIntLE`: the loop reads the bytes from the last to the first. -/
def bytesToBigIntLE (bytes : Bytes) : ℕ :=
  bytes.foldr (fun b n => (n <<< 8) ||| b.toNat) 0

@[simp] lemma bytesToBigIntLE_nil : bytesToBigIntLE [] = 0 := rfl

/-- The bit operations of one step are `256·n + b`. -/
lemma shiftLeft_or_byte (n : ℕ) (b : UInt8) : (n <<< 8) ||| b.toNat = 256 * n + b.toNat := by
  rw [← Nat.shiftLeft_add_eq_or_of_lt (by exact b.toNat_lt), Nat.shiftLeft_eq]
  ring

@[simp] lemma bytesToBigIntLE_cons (b : UInt8) (bs : Bytes) :
    bytesToBigIntLE (b :: bs) = 256 * bytesToBigIntLE bs + b.toNat :=
  shiftLeft_or_byte (bytesToBigIntLE bs) b

/-- The bytes behind the first `a.length` count that many powers of `256` more. -/
lemma bytesToBigIntLE_append (a b : Bytes) :
    bytesToBigIntLE (a ++ b) = bytesToBigIntLE a + 256 ^ a.length * bytesToBigIntLE b := by
  induction a with
  | nil => simp
  | cons x a ih =>
      rw [List.cons_append, bytesToBigIntLE_cons, ih, bytesToBigIntLE_cons, List.length_cons,
        pow_succ]
      ring

/-- A little-endian number is below `256` to the number of its bytes. -/
lemma bytesToBigIntLE_lt (bytes : Bytes) : bytesToBigIntLE bytes < 256 ^ bytes.length := by
  induction bytes with
  | nil => simp
  | cons b bs ih =>
      have hb := b.toNat_lt
      rw [bytesToBigIntLE_cons, List.length_cons, pow_succ]
      omega

/-- The number in a slice is bounded by the length of the slice. -/
lemma bytesToBigIntLE_slice_lt {b : Bytes} (start : ℕ) {stop : ℕ} (h : stop ≤ b.length) :
    bytesToBigIntLE (slice b start stop) < 256 ^ (stop - start) := by
  have hlt := bytesToBigIntLE_lt (slice b start stop)
  rwa [slice_length start h] at hlt

/-- Byte strings of one length are determined by their value. -/
lemma bytesToBigIntLE_inj : ∀ {a b : Bytes}, a.length = b.length →
    bytesToBigIntLE a = bytesToBigIntLE b → a = b
  | [], [], _, _ => rfl
  | x :: a, y :: b, hlen, h => by
      have hx := x.toNat_lt
      have hy := y.toNat_lt
      rw [bytesToBigIntLE_cons, bytesToBigIntLE_cons] at h
      have hxy : x = y := UInt8.toNat_inj.mp (by omega)
      have hab : a = b := bytesToBigIntLE_inj (Nat.succ.inj hlen) (by omega)
      rw [hxy, hab]

/-- The loop of `bigIntToBytesLE` over the remaining `length` bytes: the bytes
written and the rest of `v`. -/
def bigIntToBytesLE.loop : ℕ → ℕ → Bytes × ℕ
  | 0, v => ([], v)
  | length + 1, v =>
      let rest := bigIntToBytesLE.loop length (v >>> 8)
      (UInt8.ofNat (v &&& 0xff) :: rest.1, rest.2)

/-- `bigIntToBytesLE(n, length)`. -/
def bigIntToBytesLE (n : ℤ) (length : ℕ) : Throws Bytes :=
  if n < 0 then .error "cannot encode negative integer"
  else
    let out := bigIntToBytesLE.loop length n.toNat
    if out.2 ≠ 0 then .error ("integer overflow encoding " ++ toString length ++ " bytes LE")
    else .ok out.1

/-- What the loop computes: `length` bytes with the value of `v` modulo
`256^length`, and the quotient. -/
lemma bigIntToBytesLE.loop_spec (length v : ℕ) :
    (bigIntToBytesLE.loop length v).1.length = length ∧
      bytesToBigIntLE (bigIntToBytesLE.loop length v).1 = v % 256 ^ length ∧
      (bigIntToBytesLE.loop length v).2 = v / 256 ^ length := by
  induction length generalizing v with
  | zero => simp [bigIntToBytesLE.loop, Nat.mod_one]
  | succ length ih =>
      obtain ⟨hlen, hval, hrest⟩ := ih (v >>> 8)
      have hshift : v >>> 8 = v / 256 := Nat.shiftRight_eq_div_pow v 8
      have hmask : (UInt8.ofNat (v &&& 0xff)).toNat = v % 256 := by
        rw [show (0xff : ℕ) = 2 ^ 8 - 1 from rfl, Nat.and_two_pow_sub_one_eq_mod]
        simp
      refine ⟨?_, ?_, ?_⟩
      · simp only [bigIntToBytesLE.loop, List.length_cons, hlen]
      · simp only [bigIntToBytesLE.loop]
        rw [bytesToBigIntLE_cons, hval, hshift, hmask, pow_succ', Nat.mod_mul, Nat.add_comm]
      · simp only [bigIntToBytesLE.loop]
        rw [hrest, hshift, pow_succ', Nat.div_div_eq_div_mul]

@[simp] lemma bigIntToBytesLE.length_loop (length v : ℕ) :
    (bigIntToBytesLE.loop length v).1.length = length :=
  (bigIntToBytesLE.loop_spec length v).1

/-- The bytes written have the value of a number that fits. -/
lemma bigIntToBytesLE.loop_value {length v : ℕ} (hfit : v < 256 ^ length) :
    bytesToBigIntLE (bigIntToBytesLE.loop length v).1 = v := by
  rw [(bigIntToBytesLE.loop_spec length v).2.1, Nat.mod_eq_of_lt hfit]

/-- The loop writes back the bytes that a number was read from. -/
lemma bigIntToBytesLE.loop_bytesToBigIntLE (b : Bytes) :
    (bigIntToBytesLE.loop b.length (bytesToBigIntLE b)).1 = b :=
  bytesToBigIntLE_inj (bigIntToBytesLE.length_loop _ _)
    (bigIntToBytesLE.loop_value (bytesToBigIntLE_lt b))

/-- **The exact success condition**: a natural number encodes into `length` bytes
exactly when it fits, and then to the one byte string of that length with its
value. -/
theorem bigIntToBytesLE_eq_ok_iff (n length : ℕ) (b : Bytes) :
    bigIntToBytesLE n length = .ok b ↔ b.length = length ∧ bytesToBigIntLE b = n := by
  obtain ⟨hlen, hval, hrest⟩ := bigIntToBytesLE.loop_spec length n
  have hpos : 0 < 256 ^ length := by positivity
  simp only [bigIntToBytesLE, Int.toNat_natCast, Int.natCast_nonneg, not_lt.mpr, if_false]
  by_cases hfit : n < 256 ^ length
  · rw [if_neg (by rw [hrest, Nat.div_eq_of_lt hfit]; simp)]
    rw [Nat.mod_eq_of_lt hfit] at hval
    constructor
    · intro h
      cases h
      exact ⟨hlen, hval⟩
    · rintro ⟨hb, hbn⟩
      rw [bytesToBigIntLE_inj (hlen.trans hb.symm) (hval.trans hbn.symm)]
  · rw [if_pos (by rw [hrest]; exact (Nat.div_pos (not_lt.mp hfit) hpos).ne')]
    constructor
    · intro h
      cases h
    · rintro ⟨rfl, rfl⟩
      exact absurd (bytesToBigIntLE_lt b) hfit

/-- A number that fits is encoded by the loop. -/
lemma bigIntToBytesLE_of_lt {n length : ℕ} (hfit : n < 256 ^ length) :
    bigIntToBytesLE n length = .ok (bigIntToBytesLE.loop length n).1 :=
  (bigIntToBytesLE_eq_ok_iff n length _).mpr
    ⟨bigIntToBytesLE.length_loop length n, bigIntToBytesLE.loop_value hfit⟩

/-- A natural number encodes into `length` bytes exactly when it fits. -/
lemma bigIntToBytesLE_returns_iff (n length : ℕ) :
    (∃ b, bigIntToBytesLE n length = .ok b) ↔ n < 256 ^ length := by
  constructor
  · rintro ⟨b, hb⟩
    obtain ⟨rfl, rfl⟩ := (bigIntToBytesLE_eq_ok_iff n length b).mp hb
    exact bytesToBigIntLE_lt b
  · intro hfit
    exact ⟨_, bigIntToBytesLE_of_lt hfit⟩

/-! ### Big-endian integers -/

/-- `bytesToBigIntBE`: the loop reads the bytes from the first to the last. -/
def bytesToBigIntBE (bytes : Bytes) : ℕ :=
  bytes.foldl (fun n b => (n <<< 8) ||| b.toNat) 0

/-- The loop of `bigIntToBytesBE`: the bytes before index `i`, the last one first, in front
of those already written, and the rest of `v`. -/
def bigIntToBytesBE.loop : ℕ → ℕ → Bytes → Bytes × ℕ
  | 0, v, out => (out, v)
  | i + 1, v, out => bigIntToBytesBE.loop i (v >>> 8) (UInt8.ofNat (v &&& 0xff) :: out)

/-- `bigIntToBytesBE(n, length)`. -/
def bigIntToBytesBE (n : ℤ) (length : ℕ) : Throws Bytes :=
  if n < 0 then .error "cannot encode negative integer"
  else
    let out := bigIntToBytesBE.loop length n.toNat []
    if out.2 ≠ 0 then .error ("integer overflow encoding " ++ toString length ++ " bytes BE")
    else .ok out.1

/-- Reading from the front is reading the reversed bytes from the back. -/
lemma bytesToBigIntBE_eq (bytes : Bytes) :
    bytesToBigIntBE bytes = bytesToBigIntLE bytes.reverse := by
  rw [bytesToBigIntLE, List.foldr_reverse, bytesToBigIntBE]

/-- The loop writes the bytes of the little-endian one in reverse. -/
lemma bigIntToBytesBE.loop_eq (i v : ℕ) (out : Bytes) :
    bigIntToBytesBE.loop i v out =
      ((bigIntToBytesLE.loop i v).1.reverse ++ out, (bigIntToBytesLE.loop i v).2) := by
  induction i generalizing v out with
  | zero => rfl
  | succ i ih => rw [bigIntToBytesBE.loop, ih, bigIntToBytesLE.loop, List.reverse_cons,
      List.append_assoc, List.singleton_append]

/-- **The two encoders** return for the same numbers and lengths, one the reversed bytes of
the other. -/
theorem bigIntToBytesBE_eq_ok_iff (n : ℤ) (length : ℕ) (b : Bytes) :
    bigIntToBytesBE n length = .ok b ↔ bigIntToBytesLE n length = .ok b.reverse := by
  simp only [bigIntToBytesBE, bigIntToBytesLE, bigIntToBytesBE.loop_eq, List.append_nil]
  split_ifs with hneg hrest
  · simp
  · simp
  · rw [Except.ok.injEq, Except.ok.injEq, List.reverse_eq_iff]

/-- An encoder of natural numbers into a given number of bytes that returns exactly when the
number fits, and a decoder, inverse to each other. -/
structure ExactIntegerCodec (encode : ℤ → ℕ → Throws Bytes) (decode : Bytes → ℕ) : Prop where
  returns_iff : ∀ n length : ℕ, (∃ b, encode n length = .ok b) ↔ n < 256 ^ length
  length_eq : ∀ (n length : ℕ) b, encode n length = .ok b → b.length = length
  decode_eq : ∀ (n length : ℕ) b, encode n length = .ok b → decode b = n
  encode_decode : ∀ b : Bytes, encode (decode b) b.length = .ok b

/-- The little-endian functions are such a codec. -/
theorem exactIntegerCodec_LE : ExactIntegerCodec bigIntToBytesLE bytesToBigIntLE where
  returns_iff := bigIntToBytesLE_returns_iff
  length_eq n length b h := ((bigIntToBytesLE_eq_ok_iff n length b).mp h).1
  decode_eq n length b h := ((bigIntToBytesLE_eq_ok_iff n length b).mp h).2
  encode_decode _ := (bigIntToBytesLE_eq_ok_iff _ _ _).mpr ⟨rfl, rfl⟩

/-- So are the big-endian ones. -/
theorem exactIntegerCodec_BE : ExactIntegerCodec bigIntToBytesBE bytesToBigIntBE where
  returns_iff n length := by
    rw [← bigIntToBytesLE_returns_iff]
    constructor
    · rintro ⟨b, hb⟩
      exact ⟨b.reverse, (bigIntToBytesBE_eq_ok_iff _ _ _).mp hb⟩
    · rintro ⟨b, hb⟩
      refine ⟨b.reverse, (bigIntToBytesBE_eq_ok_iff _ _ _).mpr ?_⟩
      rwa [List.reverse_reverse]
  length_eq n length b h := by
    rw [← List.length_reverse]
    exact exactIntegerCodec_LE.length_eq n length _ ((bigIntToBytesBE_eq_ok_iff _ _ _).mp h)
  decode_eq n length b h := by
    rw [bytesToBigIntBE_eq]
    exact exactIntegerCodec_LE.decode_eq n length _ ((bigIntToBytesBE_eq_ok_iff _ _ _).mp h)
  encode_decode b := by
    rw [bigIntToBytesBE_eq_ok_iff, bytesToBigIntBE_eq, ← List.length_reverse]
    exact exactIntegerCodec_LE.encode_decode b.reverse

/-! ### Comparison and hexadecimal digits -/

/-- `bytesEqual`: the comparison that ors the differences of all bytes. -/
def bytesEqual (a b : Bytes) : Bool :=
  if a.length ≠ b.length then false
  else (a.zip b).foldl (fun diff p => diff ||| (p.1 ^^^ p.2)) 0 == 0

/-- An accumulated difference is `0` exactly when every byte agreed. -/
lemma foldl_diff_eq_zero_iff (l : List (UInt8 × UInt8)) (d : UInt8) :
    l.foldl (fun diff p => diff ||| (p.1 ^^^ p.2)) d = 0 ↔ d = 0 ∧ ∀ p ∈ l, p.1 = p.2 := by
  induction l generalizing d with
  | nil => simp
  | cons p l ih =>
      rw [List.foldl_cons, ih, List.forall_mem_cons, ← and_assoc]
      refine and_congr_left fun _ => ?_
      rw [UInt8.or_eq_zero_iff, UInt8.xor_eq_zero_iff]

/-- The comparison decides equality. -/
@[simp] theorem bytesEqual_iff (a b : Bytes) : bytesEqual a b = true ↔ a = b := by
  by_cases hlen : a.length = b.length
  · rw [bytesEqual, if_neg (not_not.mpr hlen), beq_iff_eq, foldl_diff_eq_zero_iff]
    constructor
    · rintro ⟨-, h⟩
      exact List.ext_getElem hlen fun i hi hi' =>
        h (a[i], b[i]) (List.mem_iff_getElem.mpr ⟨i, by simp [hi, hi'], by simp⟩)
    · rintro rfl
      refine ⟨rfl, fun p hp => ?_⟩
      obtain ⟨i, hi, rfl⟩ := List.mem_iff_getElem.mp hp
      simp
  · have hne : a ≠ b := fun h => hlen (congrArg List.length h)
    simp [bytesEqual, hlen, hne]

/-- `bytesToHex`: two lower-case digits for each byte. -/
def bytesToHex (bytes : Bytes) : String :=
  String.join (bytes.map fun b =>
    let digits := String.ofList (Nat.toDigits 16 b.toNat)
    if digits.length < 2 then "0" ++ digits else digits)

end CcVrf
