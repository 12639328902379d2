/-!
# EfiLoader.Text.Utf16

UTF-16 code units.  Encoding is exact; decoding never fails, and puts the
replacement character where a surrogate has no partner.
-/

namespace EfiLoader.Text.Utf16

/-- The character that stands in for an unpaired surrogate. -/
def replacement : Char := '\ufffd'

/-- A unit that opens a surrogate pair. -/
def isHigh (u : UInt16) : Bool := 0xD800 ≤ u && u < 0xDC00

/-- A unit that closes a surrogate pair. -/
def isLow (u : UInt16) : Bool := 0xDC00 ≤ u && u < 0xE000

/-- The character of a surrogate pair. -/
def pair (high low : UInt16) : Char :=
  Char.ofNat (0x10000 + (high.toNat - 0xD800) * 0x400 + (low.toNat - 0xDC00))

/-- The one or two units of a character. -/
def encodeChar (c : Char) : List UInt16 :=
  if c.toNat < 0x10000 then
    [UInt16.ofNat c.toNat]
  else
    let n := c.toNat - 0x10000
    [UInt16.ofNat (0xD800 + n / 0x400), UInt16.ofNat (0xDC00 + n % 0x400)]

/-- The units of a list of characters. -/
def encodeChars (cs : List Char) : List UInt16 := cs.flatMap encodeChar

/-- The units of a text. -/
def encode (s : String) : List UInt16 := encodeChars s.toList

/-- The character of a unit that is in no pair. -/
def single (u : UInt16) : Char :=
  if isHigh u || isLow u then replacement else Char.ofNat u.toNat

/-- The characters of a list of units. -/
def decode : List UInt16 → List Char
  | [] => []
  | [u] => [single u]
  | u :: v :: rest =>
    if isHigh u && isLow v then pair u v :: decode rest else single u :: decode (v :: rest)

/-- The units before the first NUL. -/
def untilNul (units : List UInt16) : List UInt16 := units.takeWhile (· != 0)

end EfiLoader.Text.Utf16
