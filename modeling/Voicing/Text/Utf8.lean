/-!
Reading text from bytes.

Text is read as UTF-8. Where the bytes are no text, each longest run that could have
begun a character, or else each byte by itself, is read as the replacement character, so
that every list of bytes has a reading.
-/

namespace Voicing.Text

/-- The beginning of a character: the number read so far, how many bytes are still owed,
and the bounds of the next one. -/
structure Begun where
  value : Nat
  owed : Nat
  least : UInt8
  greatest : UInt8

/-- The replacement character. -/
def replacement : Char := '\ufffd'

/-- What the first byte of a longer character begins. The bounds of its second byte rule
out overlong forms, surrogates and numbers beyond the last character. -/
def begin? (b : UInt8) : Option Begun :=
  if 0xC2 ≤ b ∧ b ≤ 0xDF then some ⟨b.toNat % 32, 1, 0x80, 0xBF⟩
  else if b = 0xE0 then some ⟨0, 2, 0xA0, 0xBF⟩
  else if b = 0xED then some ⟨13, 2, 0x80, 0x9F⟩
  else if 0xE1 ≤ b ∧ b ≤ 0xEF then some ⟨b.toNat % 16, 2, 0x80, 0xBF⟩
  else if b = 0xF0 then some ⟨0, 3, 0x90, 0xBF⟩
  else if 0xF1 ≤ b ∧ b ≤ 0xF3 then some ⟨b.toNat % 8, 3, 0x80, 0xBF⟩
  else if b = 0xF4 then some ⟨4, 3, 0x80, 0x8F⟩
  else none

/-- What a byte between characters gives: characters that are complete, and what it
begins. -/
def readFirst (b : UInt8) : List Char × Option Begun :=
  if b < 0x80 then ([Char.ofNat b.toNat], none)
  else
    match begin? b with
    | some begun => ([], some begun)
    | none => ([replacement], none)

/-- What a byte gives after the beginning of a character. -/
def readNext (begun : Option Begun) (b : UInt8) : List Char × Option Begun :=
  match begun with
  | none => readFirst b
  | some begun =>
    if begun.least ≤ b ∧ b ≤ begun.greatest then
      let value := begun.value * 64 + b.toNat % 64
      if begun.owed ≤ 1 then ([Char.ofNat value], none)
      else ([], some ⟨value, begun.owed - 1, 0x80, 0xBF⟩)
    else
      let (chars, begun) := readFirst b
      (replacement :: chars, begun)

/-- The characters of bytes that follow the beginning of one. -/
def decodeFrom : Option Begun → List UInt8 → List Char
  | none, [] => []
  | some _, [] => [replacement]
  | begun, b :: bytes =>
    let (chars, begun) := readNext begun b
    chars ++ decodeFrom begun bytes

/-- The text of a list of bytes. -/
def decode (bytes : List UInt8) : String := String.ofList (decodeFrom none bytes)

/-- The bytes without the mark that some programs put in front of a text. -/
def dropByteOrderMark : List UInt8 → List UInt8
  | 0xEF :: 0xBB :: 0xBF :: rest => rest
  | bytes => bytes

end Voicing.Text
