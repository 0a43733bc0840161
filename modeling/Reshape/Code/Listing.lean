import Reshape.Code.Instruction
import Reshape.Decimal.Layout
import Reshape.Pool.Constant

/-!
# Listings

A listing shows one instruction on a line: its offset, its mnemonic and its operands, with
references into the pool resolved.
-/

namespace Reshape.Listing

open Code

/-- A constant that an instruction loads. -/
def constant (pool : Pool) (index : UInt16) : Except FormatError String := do
  match ← pool.constant index with
  | .integer value => return toString value.toInt
  | .float bits => return Decimal.Layout.listing.single bits ++ "f"
  | .long value => return toString value.toInt ++ "L"
  | .double bits => return Decimal.Layout.listing.double bits ++ "d"
  | .stringRef text => return Quoted.text (← pool.utf8 text)
  | .classRef _ => pool.className index
  | _ => return "#" ++ toString index.toNat

def memberRef (pool : Pool) (index : UInt16) : Except FormatError String := do
  let m ← pool.memberRef index
  return m.owner ++ "." ++ m.name ++ ":" ++ m.descriptor

def unsigned (b : UInt8) : String := toString b.toNat

def signed (b : UInt8) : String := toString b.toInt8.toInt

/-- An operation on a local variable beyond the first 256, or with a wide increment. -/
def widened (code : Array UInt8) (offset : Nat) : Except FormatError String := do
  let byte ← byteAt code (offset + 1)
  match Opcode.ofByte? byte with
  | none => throw (.invalidOpcode (offset + 1) byte)
  | some inner =>
    let text := inner.mnemonic ++ " " ++ toString (← u16At code (offset + 2)).toNat
    if inner = .iinc then return text ++ ", " ++ toString (← i16At code (offset + 4))
    else return text

/-- The operands of an instruction, if it shows any. -/
def operand? (pool : Pool) (code : Array UInt8) (i : Instruction) :
    Except FormatError (Option String) := do
  let first := i.offset + 1
  match i.opcode with
  | .bipush => return some (signed (← byteAt code first))
  | .sipush => return some (toString (← i16At code first))
  | .ldc => return some (← constant pool (← byteAt code first).toUInt16)
  | .ldcW | .ldc2W => return some (← constant pool (← u16At code first))
  | .iload | .lload | .fload | .dload | .aload | .istore | .lstore | .fstore | .dstore | .astore
  | .ret | .newArray =>
    return some (unsigned (← byteAt code first))
  | .iinc =>
    let index ← byteAt code first
    let amount ← byteAt code (first + 1)
    return some (unsigned index ++ ", " ++ signed amount)
  | .getStatic | .putStatic | .getField | .putField | .invokeVirtual | .invokeSpecial
  | .invokeStatic | .invokeInterface =>
    return some (← memberRef pool (← u16At code first))
  | .invokeDynamic => return some ("#" ++ toString (← u16At code first).toNat)
  | .newObject | .anewArray | .checkCast | .instanceOf =>
    return some (← pool.className (← u16At code first))
  | .multiAnewArray =>
    let element ← pool.className (← u16At code first)
    return some (element ++ ", " ++ unsigned (← byteAt code (first + 2)))
  | .wide => return some (← widened code i.offset)
  | op =>
    if op.isSwitch || op.isShortBranch || op.isWideBranch then
      let targets ← i.jumpTargets code
      return some (", ".intercalate (targets.map toString))
    else return none

def line (pool : Pool) (code : Array UInt8) (i : Instruction) : Except FormatError String := do
  let start := Numeral.decimal 4 i.offset ++ ": " ++ i.opcode.mnemonic
  match ← operand? pool code i with
  | some operand => return start ++ " " ++ operand ++ "\n"
  | none => return start ++ "\n"

/-- The listing of some code.  A line that cannot be shown is met before a later fault of the
code itself. -/
def render (pool : Pool) (code : Array UInt8) : Except FormatError String := do
  let decoding := decodeAll code
  let lines ← decoding.instructions.mapM (line pool code)
  match decoding.fault with
  | none => return String.join lines
  | some e => throw e

end Reshape.Listing
