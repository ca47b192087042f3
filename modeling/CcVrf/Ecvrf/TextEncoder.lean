import CcVrf.Ecvrf.Encoding

/-!
JavaScript strings and the UTF-8 encoder that both packages apply to them.

* `JsString`: a string as its UTF-16 code units, which need not be well formed.
* `codePoints`: the scalar values of a string; a lone surrogate becomes U+FFFD.
* `textEncode`: `new TextEncoder().encode(text)`.
* `StringOrBytes`: an argument that is a string or already bytes.
-/

namespace CcVrf

/-- A JavaScript string: its UTF-16 code units. -/
abbrev JsString := List UInt16

/-- A leading surrogate. -/
def isHighSurrogate (u : UInt16) : Bool := 0xD800 ≤ u && u ≤ 0xDBFF

/-- A trailing surrogate. -/
def isLowSurrogate (u : UInt16) : Bool := 0xDC00 ≤ u && u ≤ 0xDFFF

/-- The replacement character. -/
def replacementCharacter : ℕ := 0xFFFD

/-- The code point of a surrogate pair. -/
def pairCodePoint (high low : UInt16) : ℕ :=
  0x10000 + (high.toNat - 0xD800) * 0x400 + (low.toNat - 0xDC00)

/-- The scalar values of a string. -/
def codePoints : JsString → List ℕ
  | [] => []
  | [u] => [if isHighSurrogate u || isLowSurrogate u then replacementCharacter else u.toNat]
  | u :: v :: rest =>
      if isHighSurrogate u then
        if isLowSurrogate v then pairCodePoint u v :: codePoints rest
        else replacementCharacter :: codePoints (v :: rest)
      else if isLowSurrogate u then replacementCharacter :: codePoints (v :: rest)
      else u.toNat :: codePoints (v :: rest)

/-- A continuation byte with the six low bits of `n`. -/
def continuationByte (n : ℕ) : UInt8 := UInt8.ofNat (0x80 + n % 0x40)

/-- The UTF-8 bytes of a scalar value. -/
def utf8 (n : ℕ) : Bytes :=
  if n < 0x80 then [UInt8.ofNat n]
  else if n < 0x800 then [UInt8.ofNat (0xC0 + n / 0x40), continuationByte n]
  else if n < 0x10000 then
    [UInt8.ofNat (0xE0 + n / 0x1000), continuationByte (n / 0x40), continuationByte n]
  else
    [UInt8.ofNat (0xF0 + n / 0x40000), continuationByte (n / 0x1000), continuationByte (n / 0x40),
      continuationByte n]

/-- `new TextEncoder().encode(text)`. -/
def textEncode (text : JsString) : Bytes := (codePoints text).flatMap utf8

/-- A string as it shows in the message of an error. -/
def JsString.show (text : JsString) : String := String.ofList ((codePoints text).map Char.ofNat)

/-- An argument of type `string | Uint8Array`. -/
inductive StringOrBytes where
  | string (text : JsString)
  | bytes (b : Bytes)

/-- The bytes of an argument, a string in UTF-8. -/
def StringOrBytes.toBytes : StringOrBytes → Bytes
  | string text => textEncode text
  | bytes b => b

/-- The letters of an ASCII string are its own bytes; the euro sign, a surrogate
pair and a lone surrogate take three, four and three. -/
example : textEncode [0x76, 0x72, 0x66] = [0x76, 0x72, 0x66] ∧
    textEncode [0x20AC] = [0xE2, 0x82, 0xAC] ∧
    textEncode [0xD83D, 0xDE00] = [0xF0, 0x9F, 0x98, 0x80] ∧
    textEncode [0xD83D, 0x41] = [0xEF, 0xBF, 0xBD, 0x41] := by decide +kernel

end CcVrf
