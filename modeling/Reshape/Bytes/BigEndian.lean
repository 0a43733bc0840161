/-!
# Big-endian words

A word of fixed width is a byte sequence, most significant byte first.  `value` reads a
sequence as a number in base 256 and `digits` writes the low part of a number in a chosen
width; they are inverse to each other at that width.
-/

namespace Reshape

/-- A run of bytes, in reading order. -/
abbrev Bytes := List UInt8

namespace BigEndian

/-- The number whose base-256 digits are the given bytes. -/
def value (bs : Bytes) : Nat :=
  bs.foldl (fun n b => 256 * n + b.toNat) 0

/-- The low `width` base-256 digits of `n`. -/
def digits : Nat → Nat → Bytes
  | 0, _ => []
  | width + 1, n => digits width (n / 256) ++ [UInt8.ofNat n]

def u8 (v : UInt8) : Bytes := [v]

def u16 (v : UInt16) : Bytes := digits 2 v.toNat

def u32 (v : UInt32) : Bytes := digits 4 v.toNat

def u64 (v : UInt64) : Bytes := digits 8 v.toNat

@[simp] theorem length_digits (width n : Nat) : (digits width n).length = width := by
  induction width generalizing n with
  | zero => rfl
  | succ width ih => simp [digits, ih]

@[simp] theorem length_u16 (v : UInt16) : (u16 v).length = 2 := length_digits 2 v.toNat

theorem value_append_singleton (bs : Bytes) (b : UInt8) :
    value (bs ++ [b]) = 256 * value bs + b.toNat := by
  simp [value]

/-- Writing and reading at one width keeps what the width can hold. -/
theorem value_digits (width n : Nat) : value (digits width n) = n % Nat.pow 256 width := by
  induction width generalizing n with
  | zero => simp [digits, value, Nat.mod_one]
  | succ width ih =>
    rw [digits, value_append_singleton, ih]
    show _ = n % (Nat.pow 256 width * 256)
    rw [Nat.mul_comm (Nat.pow 256 width), Nat.mod_mul]
    simp only [UInt8.toNat_ofNat']
    omega

theorem value_u16 (v : UInt16) : value (u16 v) = v.toNat := by
  rw [u16, value_digits]
  exact Nat.mod_eq_of_lt v.toNat_lt

theorem value_u32 (v : UInt32) : value (u32 v) = v.toNat := by
  rw [u32, value_digits]
  exact Nat.mod_eq_of_lt v.toNat_lt

theorem value_u64 (v : UInt64) : value (u64 v) = v.toNat := by
  rw [u64, value_digits]
  exact Nat.mod_eq_of_lt v.toNat_lt

end BigEndian

end Reshape
