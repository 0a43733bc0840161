/-!
# Numerals of a least width

Numbers in decimal or lower-case hexadecimal, filled up with zeros on the left.
-/

namespace Reshape.Numeral

def fill (width : Nat) (digits : List Char) : String :=
  String.ofList (List.replicate (width - digits.length) '0' ++ digits)

def decimal (width n : Nat) : String := fill width (Nat.toDigits 10 n)

def hex (width n : Nat) : String := fill width (Nat.toDigits 16 n)

end Reshape.Numeral
