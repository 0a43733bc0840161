import Reshape.Decimal.Shortest

/-!
# Written forms of floating-point numbers

The digits are the shortest ones; a `Layout` decides how they are set out.  Listings write
every number in positional form and whole numbers without a point.  Messages keep a point in
whole numbers and use an exponent below `10^-4` and from `10^16` on.
-/

namespace Reshape.Decimal

structure Layout where
  /-- Whole numbers in positional form end in `.0`. -/
  keepsPoint : Bool
  /-- Whether a number with this exponent of its leading digit is written positionally. -/
  positional : Int → Bool

def Layout.listing : Layout := ⟨false, fun _ => true⟩

def Layout.message : Layout := ⟨true, fun x => -4 ≤ x && x < 16⟩

/-- The number `digits · 10^e` in positional form. -/
def Layout.positionally (l : Layout) (digits : List Char) (e : Int) : List Char :=
  let places := (digits.length : Int) + e
  let whole := if l.keepsPoint then ['.', '0'] else []
  if 0 ≤ e then digits ++ List.replicate e.toNat '0' ++ whole
  else if 0 < places then digits.take places.toNat ++ '.' :: digits.drop places.toNat
  else ['0', '.'] ++ List.replicate (-places).toNat '0' ++ digits

/-- The number `digits · 10^e` with one digit before the point and an exponent. -/
def Layout.scientifically (digits : List Char) (e : Int) : List Char :=
  let exponent := (digits.length : Int) - 1 + e
  let tail := digits.drop 1
  digits.take 1 ++ (if tail.isEmpty then [] else '.' :: tail) ++ 'e' :: (toString exponent).toList

def Layout.magnitude (l : Layout) (m : Nat) (q : Int) (narrow : Bool) : List Char :=
  if m = 0 then l.positionally ['0'] 0
  else
    let (n, e) := shortest m q narrow
    let digits := Nat.toDigits 10 n
    if l.positional ((digits.length : Int) - 1 + e) then l.positionally digits e
    else Layout.scientifically digits e

def Layout.render (l : Layout) (f : BinaryFormat) (bits : Nat) : String :=
  match f.read bits with
  | .notANumber => "NaN"
  | .infinite negative => if negative then "-inf" else "inf"
  | .finite negative m q narrow =>
    String.ofList ((if negative then ['-'] else []) ++ l.magnitude m q narrow)

def Layout.single (l : Layout) (bits : UInt32) : String := l.render .single bits.toNat

def Layout.double (l : Layout) (bits : UInt64) : String := l.render .double bits.toNat

end Reshape.Decimal
