import Reshape.Bytes.Cursor

/-!
# Modified UTF-8

The text encoding of the constant pool: every UTF-16 code unit is one group of one to three
bytes, zero takes two bytes, and a supplementary character is its two surrogates, three bytes
each.  Decoding accepts groups longer than necessary, but no zero byte, no lead byte of `F0`
or above and no surrogate out of place.
-/

namespace Reshape.ModifiedUtf8

/-! ## §1 Code units and bytes -/

/-- The shortest group of a code unit, except that zero takes two bytes. -/
def group (unit : Nat) : Bytes :=
  if 0 < unit ∧ unit < 0x80 then [UInt8.ofNat unit]
  else if unit < 0x800 then [UInt8.ofNat (0xC0 + unit / 64), UInt8.ofNat (0x80 + unit % 64)]
  else [UInt8.ofNat (0xE0 + unit / 4096), UInt8.ofNat (0x80 + unit / 64 % 64),
    UInt8.ofNat (0x80 + unit % 64)]

/-- The six payload bits of a continuation byte. -/
def continuation? (b : UInt8) : Option Nat :=
  if 0x80 ≤ b.toNat ∧ b.toNat < 0xC0 then some (b.toNat - 0x80) else none

/-- The code units of the groups in `bs`, after those already `done` (held in reverse).  The
fault names the position where the offending group starts. -/
def unitsAfter (position : Nat) (done : List Nat) : Bytes → Except ReadFault (List Nat)
  | [] => .ok done.reverse
  | a :: bs =>
    if a = 0 then .error (.invalidModifiedUtf8 position)
    else if a.toNat < 0x80 then unitsAfter (position + 1) (a.toNat :: done) bs
    else if 0xC0 ≤ a.toNat ∧ a.toNat < 0xE0 then
      match bs with
      | b :: bs =>
        match continuation? b with
        | some x => unitsAfter (position + 2) (((a.toNat - 0xC0) * 64 + x) :: done) bs
        | none => .error (.invalidModifiedUtf8 position)
      | [] => .error (.invalidModifiedUtf8 position)
    else if 0xE0 ≤ a.toNat ∧ a.toNat < 0xF0 then
      match bs with
      | b :: c :: bs =>
        match continuation? b, continuation? c with
        | some x, some y =>
          unitsAfter (position + 3) (((a.toNat - 0xE0) * 4096 + x * 64 + y) :: done) bs
        | _, _ => .error (.invalidModifiedUtf8 position)
      | _ => .error (.invalidModifiedUtf8 position)
    else .error (.invalidModifiedUtf8 position)

/-! ## §2 Code units and characters -/

/-- The UTF-16 code units of a character. -/
def unitsOf (c : Char) : List Nat :=
  if c.toNat < 0x10000 then [c.toNat]
  else [0xD800 + (c.toNat - 0x10000) / 0x400, 0xDC00 + (c.toNat - 0x10000) % 0x400]

def isHighSurrogate (unit : Nat) : Bool := 0xD800 ≤ unit && unit < 0xDC00

def isLowSurrogate (unit : Nat) : Bool := 0xDC00 ≤ unit && unit < 0xE000

/-- The characters of well-formed UTF-16, after those already `done` (held in reverse). -/
def charsAfter (done : List Char) : List Nat → Option (List Char)
  | [] => some done.reverse
  | u :: us =>
    if isHighSurrogate u then
      match us with
      | v :: us =>
        if isLowSurrogate v then
          let c := Char.ofNat (0x10000 + (u - 0xD800) * 0x400 + (v - 0xDC00))
          charsAfter (c :: done) us
        else none
      | [] => none
    else if isLowSurrogate u then none
    else charsAfter (Char.ofNat u :: done) us

/-! ## §3 The encoding -/

def encode (text : String) : Bytes :=
  text.toList.flatMap fun c => (unitsOf c).flatMap group

/-- Surrogates out of place are reported at position zero. -/
def decode (bs : Bytes) : Except ReadFault String :=
  match unitsAfter 0 [] bs with
  | .error e => .error e
  | .ok units =>
    match charsAfter [] units with
    | some cs => .ok (String.ofList cs)
    | none => .error (.invalidModifiedUtf8 0)

end Reshape.ModifiedUtf8
