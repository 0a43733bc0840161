import Reshape.Code.Opcode
import Reshape.Descriptor.FieldType
import Reshape.Pool.Intern

/-!
# Code fragments

A fragment is code in the making.  Every instruction is appended in its shortest encoding, and
the constants it needs are interned into the pool of the class for which the fragment is meant.
A branch is appended with an open target and patched once the target is known.
-/

namespace Reshape

structure Fragment where
  code : Array UInt8
  deriving DecidableEq, Repr

/-- Why code cannot be filled up: no size but zero is a multiple of zero. -/
inductive AlignmentFault
  | zero
  deriving DecidableEq, Repr

def AlignmentFault.message : AlignmentFault → String
  | .zero => "attempt to calculate the remainder with a divisor of zero"

namespace Fragment

def empty : Fragment := ⟨#[]⟩

def size (f : Fragment) : Nat := f.code.size

def isEmpty (f : Fragment) : Bool := f.code.isEmpty

/-! ## §1 Plain instructions -/

def op (opcode : Opcode) (f : Fragment) : Fragment := ⟨f.code.push opcode.byte⟩

def op8 (opcode : Opcode) (operand : UInt8) (f : Fragment) : Fragment :=
  ⟨(f.code.push opcode.byte).push operand⟩

def op16 (opcode : Opcode) (operand : UInt16) (f : Fragment) : Fragment :=
  ⟨f.code.push opcode.byte ++ BigEndian.u16 operand⟩

/-- Loads the reference in a local variable. -/
def aload (index : UInt16) (f : Fragment) : Fragment :=
  if index = 0 then f.op .aload0
  else if index = 1 then f.op .aload1
  else if index = 2 then f.op .aload2
  else if index = 3 then f.op .aload3
  else if index < 256 then f.op8 .aload index.toUInt8
  else (f.op .wide).op16 .aload index

/-- Pushes the zero of a primitive type. -/
def pushZero (p : Primitive) (f : Fragment) : Fragment :=
  match p with
  | .long => f.op .lconst0
  | .float => f.op .fconst0
  | .double => f.op .dconst0
  | _ => f.op .iconst0

/-! ## §2 Instructions with constants -/

/-- Pushes an integer: from the opcode, from one or two bytes, or from the pool. -/
def pushInt (value : Int32) (f : Fragment) : Interning Fragment :=
  let v := value.toInt
  if v = -1 then pure (f.op .iconstM1)
  else if v = 0 then pure (f.op .iconst0)
  else if v = 1 then pure (f.op .iconst1)
  else if v = 2 then pure (f.op .iconst2)
  else if v = 3 then pure (f.op .iconst3)
  else if v = 4 then pure (f.op .iconst4)
  else if v = 5 then pure (f.op .iconst5)
  else if -128 ≤ v ∧ v < 128 then pure (f.op8 .bipush value.toUInt32.toUInt8)
  else if -32768 ≤ v ∧ v < 32768 then pure (f.op16 .sipush value.toUInt32.toUInt16)
  else do
    let index ← Pool.addInteger value
    return if index < 256 then f.op8 .ldc index.toUInt8 else f.op16 .ldcW index

/-- An instruction that names a field. -/
def onField (opcode : Opcode) (m : MemberRef) (f : Fragment) : Interning Fragment := do
  return f.op16 opcode (← Pool.addFieldRef m)

/-- An instruction that names a method. -/
def onMethod (opcode : Opcode) (m : MemberRef) (f : Fragment) : Interning Fragment := do
  return f.op16 opcode (← Pool.addMethodRef m)

/-- Creates an array of references. -/
def anewarray (element : String) (f : Fragment) : Interning Fragment := do
  return f.op16 .anewArray (← Pool.addClass element)

/-! ## §3 Branches and alignment -/

/-- A branch with an open target; it will be patched at the size the fragment has now. -/
def branch (opcode : Opcode) (f : Fragment) : Fragment := f.op16 opcode 0

/-- Offsets are 64-bit words, and those of the upper half count as lying before the start. -/
def signedOffset (offset : Nat) : Int :=
  if offset < 0x8000000000000000 then offset else offset - 0x10000000000000000

/-- Lets the branch at one offset lead to another. -/
def patch (position target : Nat) (f : Fragment) : Except BuildError Fragment :=
  let relative := signedOffset target - signedOffset position
  if -32768 ≤ relative ∧ relative < 32768 then
    if position + 3 ≤ f.code.size then
      match BigEndian.digits 2 (relative % 65536).toNat with
      | [high, low] =>
        .ok ⟨(f.code.setIfInBounds (position + 1) high).setIfInBounds (position + 2) low⟩
      | _ => .ok f
    else .error (.invalidInsertionPoint position)
  else .error (.branchOffsetOverflow position (signedOffset target))

/-- The least multiple of `alignment` from `size` on. -/
def alignedSize (size alignment : Nat) : Nat := (size + alignment - 1) / alignment * alignment

/-- Fills up with operations that do nothing to a given size. -/
def fillTo (size : Nat) (f : Fragment) : Fragment :=
  ⟨f.code ++ Array.replicate (size - f.code.size) Opcode.nop.byte⟩

/-- Fills up with operations that do nothing to a multiple of `alignment`. -/
def padTo (alignment : Nat) (f : Fragment) : Except AlignmentFault Fragment :=
  if alignment = 0 then .error .zero else .ok (f.fillTo (alignedSize f.size alignment))

end Fragment

end Reshape
