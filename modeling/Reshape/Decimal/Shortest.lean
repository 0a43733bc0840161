/-!
# Shortest decimal numerals of binary floating-point numbers

A finite number of a binary format is `m · 2^q`.  The real numbers that round to it form an
interval around it, which contains its ends when `m` is even.  Its shortest numeral is the
multiple of a power of ten inside the interval for the largest such power; if two multiples
lie inside, the nearer one is taken.
-/

namespace Reshape.Decimal

/-! ## §1 Binary formats -/

/-- Widths of the stored fraction and of the exponent field. -/
structure BinaryFormat where
  fraction : Nat
  exponent : Nat
  deriving DecidableEq, Repr

def BinaryFormat.single : BinaryFormat := ⟨23, 8⟩

def BinaryFormat.double : BinaryFormat := ⟨52, 11⟩

/-- What a bit pattern stands for. -/
inductive Reading
  | notANumber
  | infinite (negative : Bool)
  /-- The number `m · 2^q`; `narrow` tells that the gap below it is half the gap above. -/
  | finite (negative : Bool) (m : Nat) (q : Int) (narrow : Bool)
  deriving DecidableEq, Repr

def BinaryFormat.read (f : BinaryFormat) (bits : Nat) : Reading :=
  let fraction := bits % Nat.pow 2 f.fraction
  let exponent := bits / Nat.pow 2 f.fraction % Nat.pow 2 f.exponent
  let negative := bits / Nat.pow 2 (f.fraction + f.exponent) % 2 == 1
  let lowest : Int := 2 - Nat.pow 2 (f.exponent - 1) - f.fraction
  if exponent = Nat.pow 2 f.exponent - 1 then
    if fraction = 0 then .infinite negative else .notANumber
  else if exponent = 0 then .finite negative fraction lowest false
  else
    .finite negative (Nat.pow 2 f.fraction + fraction) (lowest + (exponent - 1))
      (fraction == 0 && 1 < exponent)

/-! ## §2 The interval and its decimal points -/

/-- The interval of reals that round to a positive number, over a common denominator. -/
structure Interval where
  low : Nat
  point : Nat
  high : Nat
  denominator : Nat
  closed : Bool
  deriving DecidableEq, Repr

def Interval.around (m : Nat) (q : Int) (narrow : Bool) : Interval :=
  let scale := Nat.pow 2 (q - 2).toNat
  { low := (4 * m - if narrow then 1 else 2) * scale
    point := 4 * m * scale
    high := (4 * m + 2) * scale
    denominator := Nat.pow 2 (2 - q).toNat
    closed := m % 2 == 0 }

/-- Whether `n · 10^e` lies in the interval. -/
def Interval.contains (i : Interval) (n : Nat) (e : Int) : Bool :=
  let x := n * i.denominator * Nat.pow 10 e.toNat
  let unit := Nat.pow 10 (-e).toNat
  if i.closed then i.low * unit ≤ x && x ≤ i.high * unit
  else i.low * unit < x && x < i.high * unit

/-- The multiple of `10^e` in the interval that is nearest to its point, if there is one.  Only
the two neighbours of the point have to be looked at. -/
def Interval.onGrid? (i : Interval) (e : Int) : Option Nat :=
  let step := i.denominator * Nat.pow 10 e.toNat
  let point := i.point * Nat.pow 10 (-e).toNat
  let below := point / step
  match i.contains below e, i.contains (below + 1) e with
  | true, true => some (if 2 * (point % step) < step then below else below + 1)
  | true, false => some below
  | false, true => some (below + 1)
  | false, false => none

/-- The coarsest of `fuel` grids, from `10^e` downwards, with a point in the interval. -/
def Interval.search (i : Interval) : Nat → Int → Nat × Int
  | 0, e => (0, e)
  | fuel + 1, e =>
    match i.onGrid? e with
    | some n => (n, e)
    | none => i.search fuel (e - 1)

/-- A power of ten above the interval, at most two places too high. -/
def Interval.top (i : Interval) : Int :=
  if i.denominator ≤ i.high then ((Nat.toDigits 10 (i.high / i.denominator)).length : Int)
  else 2 - ((Nat.toDigits 10 (i.denominator / i.high)).length : Int)

/-- The shortest numeral `n · 10^e` of the positive number `m · 2^q`.  Seventeen digits always
suffice for the formats above. -/
def shortest (m : Nat) (q : Int) (narrow : Bool) : Nat × Int :=
  let i := Interval.around m q narrow
  i.search 20 i.top

end Reshape.Decimal
