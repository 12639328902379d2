/-!
# EfiLoader.Text.Hex

Hexadecimal numbers as they appear in log lines: lower-case digits after
`0x`, optionally padded with zeros to a number of digits.
-/

namespace EfiLoader.Text

/-- The lower-case hexadecimal digits of `n`, without leading zeros. -/
def hexDigits (n : Nat) : String := String.ofList (Nat.toDigits 16 n)

/-- `n` in hexadecimal after `0x`. -/
def hex (n : Nat) : String := "0x" ++ hexDigits n

/-- The hexadecimal digits of `n`, padded with zeros to `width` of them. -/
def hexDigitsPadded (width n : Nat) : String :=
  let digits := Nat.toDigits 16 n
  String.ofList (List.replicate (width - digits.length) '0' ++ digits)

/-- `n` in hexadecimal after `0x`, padded with zeros to `width` digits. -/
def hexPadded (width n : Nat) : String := "0x" ++ hexDigitsPadded width n

end EfiLoader.Text
