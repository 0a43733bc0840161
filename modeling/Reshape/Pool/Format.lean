import Reshape.Pool.Constant
import Reshape.Text.ModifiedUtf8

/-!
# The pool in class files

The pool is stored as its number of slots and then, for each constant, a tag and its content;
slots without a constant are not stored.
-/

namespace Reshape

namespace Constant

/-- Reads the content that a tag announces; `index` is the slot it goes to. -/
def content (index : Nat) (tag : UInt8) : Reader FormatError Constant := do
  match tag.toNat with
  | 1 => do
    let payload ← Reader.prefixed16
    let text ← Reader.ofExcept FormatError.read (ModifiedUtf8.decode payload)
    return .utf8 text
  | 3 => return .integer (← Reader.i32)
  | 4 => return .float (← Reader.u32)
  | 5 => return .long (← Reader.i64)
  | 6 => return .double (← Reader.u64)
  | 7 => return .classRef (← Reader.u16)
  | 8 => return .stringRef (← Reader.u16)
  | 9 => return .fieldRef (← Reader.u16) (← Reader.u16)
  | 10 => return .methodRef (← Reader.u16) (← Reader.u16)
  | 11 => return .interfaceMethodRef (← Reader.u16) (← Reader.u16)
  | 12 => return .nameAndType (← Reader.u16) (← Reader.u16)
  | 15 => return .methodHandle (← Reader.u8) (← Reader.u16)
  | 16 => return .methodType (← Reader.u16)
  | 17 => return .dynamic (← Reader.u16) (← Reader.u16)
  | 18 => return .invokeDynamic (← Reader.u16) (← Reader.u16)
  | 19 => return .moduleRef (← Reader.u16)
  | 20 => return .packageRef (← Reader.u16)
  | _ => throw (.invalidConstantTag index tag)

def read (index : Nat) : Reader FormatError Constant := do
  let tag ← Reader.u8
  content index tag

open BigEndian in
/-- The stored form; a text must not take more bytes than its length field can count. -/
def encode : Constant → Except BuildError Bytes
  | unused => .ok []
  | utf8 text =>
    let payload := ModifiedUtf8.encode text
    match Table.utf8Bytes.count payload.length with
    | .ok count => .ok (1 :: (count ++ payload))
    | .error e => .error e
  | integer value => .ok (3 :: u32 value.toUInt32)
  | float bits => .ok (4 :: u32 bits)
  | long value => .ok (5 :: u64 value.toUInt64)
  | double bits => .ok (6 :: u64 bits)
  | classRef name => .ok (7 :: u16 name)
  | stringRef text => .ok (8 :: u16 text)
  | fieldRef owner nat => .ok (9 :: (u16 owner ++ u16 nat))
  | methodRef owner nat => .ok (10 :: (u16 owner ++ u16 nat))
  | interfaceMethodRef owner nat => .ok (11 :: (u16 owner ++ u16 nat))
  | nameAndType name descriptor => .ok (12 :: (u16 name ++ u16 descriptor))
  | methodHandle kind reference => .ok (15 :: (u8 kind ++ u16 reference))
  | methodType descriptor => .ok (16 :: u16 descriptor)
  | dynamic bootstrap nat => .ok (17 :: (u16 bootstrap ++ u16 nat))
  | invokeDynamic bootstrap nat => .ok (18 :: (u16 bootstrap ++ u16 nat))
  | moduleRef name => .ok (19 :: u16 name)
  | packageRef name => .ok (20 :: u16 name)

end Constant

namespace Pool

theorem size_lt_size_push (p : Pool) (c : Constant) : p.size < (p.push c).size := by
  unfold Pool.push Pool.size
  split <;> simp only [Array.size_push] <;> omega

/-- The pool after reading the constants that are missing to `count` slots.  The index of the next
slot has sixteen bits.  Behind a wide constant in slot 65534 it would need more, and no pool is read:
the arithmetic on it overflows there. -/
def readUpTo (count : Nat) (p : Pool) : Reader FormatError Pool := do
  if _ : p.size < count then
    let c ← Constant.read p.size
    if (p.push c).size < 65536 then readUpTo count (p.push c)
    else throw .indexOverflow
  else return p
  termination_by count - p.size
  decreasing_by
    have := size_lt_size_push p c
    omega

def read : Reader FormatError Pool := do
  let count ← Reader.u16
  readUpTo count.toNat empty

def encode (p : Pool) : Except BuildError Bytes :=
  if p.size ≤ maxSlots then do
    let entries ← p.slots.toList.mapM Constant.encode
    return BigEndian.u16 (UInt16.ofNat p.size) ++ entries.flatten
  else .error .poolOverflow

end Pool

end Reshape
