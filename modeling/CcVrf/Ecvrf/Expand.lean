import CcVrf.Ecvrf.Suite
import CcVrf.Ecvrf.TextEncoder
import CcVrf.Library.JsNumber

/-!
The expansion of a VRF output into a stream of typed random values
(`packages/ecvrf/src/expand.ts`), function by function.

* `Draw`: a method that draws from a source of words. It returns or throws, and leaves the
  source in a new state; a method that never ends has no outcome.
* `nextRange`, `pick`, `shuffle`: the methods that only draw words. They are stated over
  any source of words, which in the package is `VrfStream.nextU32`.
* `JsArray`: an array with its properties, also those at negative keys; `shuffle` works on
  arrays in a heap.
* `VrfStream`: the variables of the closure that `vrfStream` returns, and its methods.
-/

namespace CcVrf

/-! ### Encodings -/

/-- `EXPAND_TAG`. -/
def expandTag : Bytes := "ecvrf-expand-v1".toUTF8.toList

/-- A number written into a `Uint8Array`. -/
def toUint8 (x : ℤ) : UInt8 := UInt8.ofNat (JsNumber.toUint32 x)

/-- `u32be(n)`. -/
def u32be (n : ℕ) : Bytes :=
  [toUint8 (JsNumber.bitAnd (JsNumber.unsignedShiftRight n 24) 0xff),
    toUint8 (JsNumber.bitAnd (JsNumber.unsignedShiftRight n 16) 0xff),
    toUint8 (JsNumber.bitAnd (JsNumber.unsignedShiftRight n 8) 0xff),
    toUint8 (JsNumber.bitAnd n 0xff)]

/-- The loop of `u64be`: the bytes before index `i` in front of those already written. -/
def u64be.loop : ℕ → ℕ → Bytes → Bytes
  | 0, _, out => out
  | i + 1, v, out => u64be.loop i (v >>> 8) (UInt8.ofNat (v &&& 0xff) :: out)

/-- `u64be(n)`. -/
def u64be (n : ℕ) : Bytes := u64be.loop 8 n []

/-- The two parts of a segment of `encodePath`. -/
def encodeSegment (b : Bytes) : Bytes := concatBytes [u32be b.length, b]

/-- `encodePath(path)`. -/
def encodePath (path : List JsString) : Bytes :=
  concatBytes (u32be path.length :: path.map fun p => encodeSegment (textEncode p))

/-- The string hashed into block `blockIndex`. -/
def refillInput (beta encodedPath : Bytes) (blockIndex : ℕ) : Bytes :=
  concatBytes [expandTag, beta, encodedPath, u64be blockIndex]

/-! ### Arguments -/

/-- An argument of type `number`, as `Number.isInteger` sees it. -/
inductive Number where
  | integer (n : ℤ)
  | notInteger

/-- An array: its length, and its properties by integer key. A property that is missing
reads as `undefined`. -/
structure JsArray (α : Type) where
  length : ℕ
  get : ℤ → Option α
  /-- Lengths are below `2^32`. -/
  length_lt : length < 2 ^ 32

namespace JsArray

variable {α : Type}

instance : Inhabited (JsArray α) := ⟨⟨0, fun _ => none, by decide⟩⟩

/-- `arr.slice()`: the elements, and no other properties. -/
def slice (arr : JsArray α) : JsArray α :=
  { arr with get := fun i => if 0 ≤ i ∧ i < arr.length then arr.get i else none }

/-- `arr[i] = x`, for `i` below the length. -/
def set (arr : JsArray α) (i : ℤ) (x : Option α) : JsArray α :=
  { arr with get := Function.update arr.get i x }

end JsArray

/-- The arrays in memory, by reference. -/
abbrev Heap (α : Type) := List (JsArray α)

/-- The array at a reference. -/
def Heap.read {α : Type} (heap : Heap α) (ref : ℕ) : JsArray α := heap.getD ref default

/-! ### Methods -/

/-- A method over a source with states in `σ`. -/
abbrev Draw (σ : Type) := ExceptT String (StateT σ Option)

namespace Draw

variable {σ α β : Type}

/-- The outcome of a method called in a state: what it returns or throws, and the new
state. There is none when the method has not ended. -/
def call (x : Draw σ α) (s : σ) : Option (Except String α × σ) := x.run.run s

/-- A loop that has not ended after as many rounds as it was given. -/
def notEnded : Draw σ α := ExceptT.mk fun _ => none

@[simp] lemma call_pure (a : α) (s : σ) : (pure a : Draw σ α).call s = some (.ok a, s) := rfl

/-- A call that has thrown or not ended stays so. -/
lemma call_bind (x : Draw σ α) (f : α → Draw σ β) (s : σ) :
    (x >>= f).call s = (x.call s).bind fun out =>
      match out.1 with
      | .ok a => (f a).call out.2
      | .error e => some (.error e, out.2) := by
  show (x.run.run s).bind _ = (x.run.run s).bind _
  congr 1
  funext out
  obtain ⟨r, s'⟩ := out
  cases r <;> rfl

/-- A method goes on after a call that returned. -/
lemma call_bind_of_ok {x : Draw σ α} {f : α → Draw σ β} {s s' : σ} {a : α}
    (h : x.call s = some (.ok a, s')) : (x >>= f).call s = (f a).call s' := by
  rw [call_bind, h]
  rfl

end Draw

/-! ### The methods that draw words -/

section Words

variable {σ α : Type} (nextU32 : Draw σ ℤ)

/-- The mask of `nextRange`: `range - 1`, smeared to the right. -/
def rangeMask (range : ℤ) : ℤ :=
  let mask := range - 1
  let mask := JsNumber.bitOr mask (JsNumber.unsignedShiftRight mask 1)
  let mask := JsNumber.bitOr mask (JsNumber.unsignedShiftRight mask 2)
  let mask := JsNumber.bitOr mask (JsNumber.unsignedShiftRight mask 4)
  let mask := JsNumber.bitOr mask (JsNumber.unsignedShiftRight mask 8)
  let mask := JsNumber.bitOr mask (JsNumber.unsignedShiftRight mask 16)
  JsNumber.unsignedShiftRight mask 0

/-- A round of the loop of `nextRange`, for the word drawn: the value returned, unless the
word is rejected. -/
def attempt (minInclusive range mask word : ℤ) : Option ℤ :=
  let v := JsNumber.bitAnd word mask
  if v < range then some (JsNumber.round (minInclusive + v)) else none

/-- The loop of `nextRange`. -/
def nextRange.loop (minInclusive range mask : ℤ) : ℕ → Draw σ ℤ
  | 0 => Draw.notEnded
  | rounds + 1 => do
      let word ← nextU32
      match attempt minInclusive range mask word with
      | some v => return v
      | none => nextRange.loop minInclusive range mask rounds

/-- `nextRange(minInclusive, maxExclusive)`, with at most `rounds` rounds of its loop. -/
def nextRange (rounds : ℕ) : Number → Number → Draw σ ℤ
  | .integer minInclusive, .integer maxExclusive =>
      if maxExclusive ≤ minInclusive then throw "nextRange: maxExclusive must exceed minInclusive"
      else
        let range := JsNumber.round (maxExclusive - minInclusive)
        if 0x100000000 < range then throw "nextRange: range exceeds 2^32"
        else nextRange.loop nextU32 minInclusive range (rangeMask range) rounds
  | _, _ => throw "nextRange: bounds must be integers"

/-- `pick(arr)`. -/
def pick (rounds : ℕ) (arr : JsArray α) : Draw σ (Option α) :=
  if arr.length = 0 then throw "pick: empty array"
  else do
    let j ← nextRange nextU32 rounds (.integer 0) (.integer arr.length)
    return arr.get j

/-- The three assignments that swap two elements of `out`. -/
def swapElements (out : JsArray α) (i j : ℤ) : JsArray α :=
  let tmp := out.get i
  (out.set i (out.get j)).set j tmp

/-- The loop of `shuffle` over the positions from `i` down. -/
def shuffle.loop (rounds out : ℕ) : ℕ → Heap α → Draw σ (Heap α)
  | 0, heap => return heap
  | i + 1, heap => do
      let j ← nextRange nextU32 rounds (.integer 0) (.integer (i + 1 + 1 : ℕ))
      shuffle.loop rounds out i (heap.set out (swapElements (heap.read out) (i + 1 : ℕ) j))

/-- `shuffle(arr)`, for the reference of an array: the new heap, and the reference of the
array that is returned. -/
def shuffle (rounds : ℕ) (heap : Heap α) (arr : ℕ) : Draw σ (Heap α × ℕ) := do
  let out := heap.length
  let heap := heap ++ [(heap.read arr).slice]
  let heap ← shuffle.loop nextU32 rounds out ((heap.read out).length - 1) heap
  return (heap, out)

end Words

/-! ### Streams -/

/-- A stream: the properties `beta` and `path` of the object, and the variables of its
closure. The object's `beta` is a copy that its holder may write to; `path` is frozen. -/
structure VrfStream where
  beta : Bytes
  path : List JsString
  betaCopy : Bytes
  encodedPath : Bytes
  blockIndex : ℕ
  buf : Bytes
  bufOffset : ℕ
deriving DecidableEq

/-- `vrfStream(beta, ...path)`. -/
def vrfStream (beta : Bytes) (path : List JsString) : Throws VrfStream :=
  if beta.length ≠ hashLen then
    .error ("beta must be " ++ toString hashLen ++ " bytes (SHA-512 output)")
  else .ok
    { beta := beta
      path := path
      betaCopy := beta
      encodedPath := encodePath path
      blockIndex := 0
      buf := []
      bufOffset := 0 }

namespace VrfStream

variable (sha512 : Bytes → ByteVec 64) {α : Type}

/-- `refill()`. -/
def refill (s : VrfStream) : VrfStream :=
  { s with
    buf := (sha512 (refillInput s.betaCopy s.encodedPath s.blockIndex)).val
    bufOffset := 0
    blockIndex := s.blockIndex + 1 }

/-- The loop of `nextBytes(n)`, where `out` holds the bytes written so far. A round writes
at least one of them, so `n` rounds are enough. -/
def nextBytes.loop (n : ℕ) : ℕ → Bytes → VrfStream → Bytes × VrfStream
  | 0, out, s => (out, s)
  | rounds + 1, out, s =>
      if out.length < n then
        let s := if s.buf.length ≤ s.bufOffset then s.refill sha512 else s
        let take := min (n - out.length) (s.buf.length - s.bufOffset)
        nextBytes.loop n rounds (out ++ slice s.buf s.bufOffset (s.bufOffset + take))
          { s with bufOffset := s.bufOffset + take }
      else (out, s)

/-- `nextBytes(n)`. -/
def nextBytes : Number → Draw VrfStream Bytes
  | .notInteger => throw "nextBytes: n must be a non-negative integer"
  | .integer n =>
      if n < 0 then throw "nextBytes: n must be a non-negative integer"
      -- the constructor of `Uint8Array` takes lengths up to `2^53 - 1`
      else if 2 ^ 53 ≤ n then throw ("Invalid typed array length: " ++ toString n)
      else do
        let read := nextBytes.loop sha512 n.toNat n.toNat [] (← get)
        set read.2
        return read.1

/-- `nextU32()`. -/
def nextU32 : Draw VrfStream ℤ := do
  let b ← nextBytes sha512 (.integer 4)
  return JsNumber.unsignedShiftRight
    (JsNumber.bitOr
      (JsNumber.bitOr
        (JsNumber.bitOr (JsNumber.shiftLeft (b.getD 0 0).toNat 24)
          (JsNumber.shiftLeft (b.getD 1 0).toNat 16))
        (JsNumber.shiftLeft (b.getD 2 0).toNat 8))
      (b.getD 3 0).toNat) 0

/-- `nextU64()`. -/
def nextU64 : Draw VrfStream ℕ := do
  let b ← nextBytes sha512 (.integer 8)
  return (List.range 8).foldl (fun v i => (v <<< 8) ||| (b.getD i 0).toNat) 0

/-- `nextFloat()`. The quotient is exact: the dividend has at most 53 bits. -/
def nextFloat : Draw VrfStream ℚ := do
  let v ← nextU64 sha512
  return ((v >>> 11 : ℕ) : ℚ) / 2 ^ 53

/-- `fork(...label)`. -/
def fork (s : VrfStream) (label : List JsString) : Throws VrfStream :=
  vrfStream s.betaCopy (s.path ++ label)

/-- `stream.beta[i] = b`, by the holder of a stream. -/
def writeBeta (s : VrfStream) (i : ℕ) (b : UInt8) : VrfStream :=
  { s with beta := s.beta.set i b }

end VrfStream

end CcVrf
