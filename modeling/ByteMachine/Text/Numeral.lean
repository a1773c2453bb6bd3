/-!
# Numerals

Bytes, addresses and counts are shown in bases two, ten and sixteen. Every form is the usual
positional one, most significant digit first, with zeros in front up to a least width that
belongs to the form. A value that needs more digits than the least width gets all of them.
-/

namespace ByteMachine.Text

/-- Digits of `n` in `base`, with zeros in front up to `width` characters. -/
def digits (base width n : Nat) : List Char :=
  (Nat.toDigits base n).leftpad width '0'

/-- Plain decimal, without a sign or leading zeros. -/
def decimal (n : Nat) : String :=
  String.ofList (digits 10 1 n)

/-- Binary with at least eight digits. -/
def binary (n : Nat) : String :=
  String.ofList (digits 2 8 n)

/-- Hexadecimal in lower case with at least two digits. -/
def lowerHex (n : Nat) : String :=
  String.ofList (digits 16 2 n)

/-- Hexadecimal in upper case with at least two digits. -/
def upperHex (n : Nat) : String :=
  String.ofList ((digits 16 2 n).map Char.toUpper)

/-- A decimal numeral always has a digit, so asking for one adds nothing. -/
theorem decimal_toList (n : Nat) : (decimal n).toList = Nat.toDigits 10 n := by
  have hpos : 1 - (Nat.toDigits 10 n).length = 0 := by
    have := Nat.length_toDigits_pos (b := 10) (n := n)
    omega
  simp [decimal, digits, List.leftpad, hpos]

end ByteMachine.Text
