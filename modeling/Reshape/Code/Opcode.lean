/-!
# Opcodes

The operations of the instruction set, in the order of their codes.  The codes run without a
gap from zero up to `breakpoint`; the two last ones are reserved at the top of the byte range.
Apart from its code and its name, an operation is known by the size of its instruction, by the
kind of jump it makes and by whether control can pass on to the next instruction.
-/

namespace Reshape

inductive Opcode
  | nop | aconstNull | iconstM1 | iconst0 | iconst1 | iconst2 | iconst3 | iconst4 | iconst5
  | lconst0 | lconst1 | fconst0 | fconst1 | fconst2 | dconst0 | dconst1 | bipush | sipush | ldc
  | ldcW | ldc2W | iload | lload | fload | dload | aload | iload0 | iload1 | iload2 | iload3
  | lload0 | lload1 | lload2 | lload3 | fload0 | fload1 | fload2 | fload3 | dload0 | dload1
  | dload2 | dload3 | aload0 | aload1 | aload2 | aload3 | iaload | laload | faload | daload
  | aaload | baload | caload | saload | istore | lstore | fstore | dstore | astore | istore0
  | istore1 | istore2 | istore3 | lstore0 | lstore1 | lstore2 | lstore3 | fstore0 | fstore1
  | fstore2 | fstore3 | dstore0 | dstore1 | dstore2 | dstore3 | astore0 | astore1 | astore2
  | astore3 | iastore | lastore | fastore | dastore | aastore | bastore | castore | sastore | pop
  | pop2 | dup | dupX1 | dupX2 | dup2 | dup2X1 | dup2X2 | swap | iadd | ladd | fadd | dadd | isub
  | lsub | fsub | dsub | imul | lmul | fmul | dmul | idiv | ldiv | fdiv | ddiv | irem | lrem
  | frem | drem | ineg | lneg | fneg | dneg | ishl | lshl | ishr | lshr | iushr | lushr | iand
  | land | ior | lor | ixor | lxor | iinc | i2l | i2f | i2d | l2i | l2f | l2d | f2i | f2l | f2d
  | d2i | d2l | d2f | i2b | i2c | i2s | lcmp | fcmpl | fcmpg | dcmpl | dcmpg | ifEq | ifNe | ifLt
  | ifGe | ifGt | ifLe | ifIcmpEq | ifIcmpNe | ifIcmpLt | ifIcmpGe | ifIcmpGt | ifIcmpLe
  | ifAcmpEq | ifAcmpNe | goto | jsr | ret | tableSwitch | lookupSwitch | ireturn | lreturn
  | freturn | dreturn | areturn | returnVoid | getStatic | putStatic | getField | putField
  | invokeVirtual | invokeSpecial | invokeStatic | invokeInterface | invokeDynamic | newObject
  | newArray | anewArray | arrayLength | athrow | checkCast | instanceOf | monitorEnter
  | monitorExit | wide | multiAnewArray | ifNull | ifNonNull | gotoW | jsrW | breakpoint | impdep1
  | impdep2
  deriving DecidableEq, Repr

namespace Opcode

/-! ## §1 Codes and names -/

/-- The operations whose codes run without a gap from zero. -/
def table : Array Opcode := #[
  .nop, .aconstNull, .iconstM1, .iconst0, .iconst1, .iconst2, .iconst3, .iconst4, .iconst5,
  .lconst0, .lconst1, .fconst0, .fconst1, .fconst2, .dconst0, .dconst1, .bipush, .sipush, .ldc,
  .ldcW, .ldc2W, .iload, .lload, .fload, .dload, .aload, .iload0, .iload1, .iload2, .iload3,
  .lload0, .lload1, .lload2, .lload3, .fload0, .fload1, .fload2, .fload3, .dload0, .dload1,
  .dload2, .dload3, .aload0, .aload1, .aload2, .aload3, .iaload, .laload, .faload, .daload,
  .aaload, .baload, .caload, .saload, .istore, .lstore, .fstore, .dstore, .astore, .istore0,
  .istore1, .istore2, .istore3, .lstore0, .lstore1, .lstore2, .lstore3, .fstore0, .fstore1,
  .fstore2, .fstore3, .dstore0, .dstore1, .dstore2, .dstore3, .astore0, .astore1, .astore2,
  .astore3, .iastore, .lastore, .fastore, .dastore, .aastore, .bastore, .castore, .sastore, .pop,
  .pop2, .dup, .dupX1, .dupX2, .dup2, .dup2X1, .dup2X2, .swap, .iadd, .ladd, .fadd, .dadd, .isub,
  .lsub, .fsub, .dsub, .imul, .lmul, .fmul, .dmul, .idiv, .ldiv, .fdiv, .ddiv, .irem, .lrem,
  .frem, .drem, .ineg, .lneg, .fneg, .dneg, .ishl, .lshl, .ishr, .lshr, .iushr, .lushr, .iand,
  .land, .ior, .lor, .ixor, .lxor, .iinc, .i2l, .i2f, .i2d, .l2i, .l2f, .l2d, .f2i, .f2l, .f2d,
  .d2i, .d2l, .d2f, .i2b, .i2c, .i2s, .lcmp, .fcmpl, .fcmpg, .dcmpl, .dcmpg, .ifEq, .ifNe, .ifLt,
  .ifGe, .ifGt, .ifLe, .ifIcmpEq, .ifIcmpNe, .ifIcmpLt, .ifIcmpGe, .ifIcmpGt, .ifIcmpLe,
  .ifAcmpEq, .ifAcmpNe, .goto, .jsr, .ret, .tableSwitch, .lookupSwitch, .ireturn, .lreturn,
  .freturn, .dreturn, .areturn, .returnVoid, .getStatic, .putStatic, .getField, .putField,
  .invokeVirtual, .invokeSpecial, .invokeStatic, .invokeInterface, .invokeDynamic, .newObject,
  .newArray, .anewArray, .arrayLength, .athrow, .checkCast, .instanceOf, .monitorEnter,
  .monitorExit, .wide, .multiAnewArray, .ifNull, .ifNonNull, .gotoW, .jsrW, .breakpoint]

def ofByte? (code : UInt8) : Option Opcode :=
  if code = 0xFE then some .impdep1
  else if code = 0xFF then some .impdep2
  else table[code.toNat]?

def byte : Opcode → UInt8
  | .impdep1 => 0xFE
  | .impdep2 => 0xFF
  | op => UInt8.ofNat op.ctorIdx

def mnemonic : Opcode → String
  | .nop => "nop" | .aconstNull => "aconstnull" | .iconstM1 => "iconstm1" | .iconst0 => "iconst0"
  | .iconst1 => "iconst1" | .iconst2 => "iconst2" | .iconst3 => "iconst3" | .iconst4 => "iconst4"
  | .iconst5 => "iconst5" | .lconst0 => "lconst0" | .lconst1 => "lconst1" | .fconst0 => "fconst0"
  | .fconst1 => "fconst1" | .fconst2 => "fconst2" | .dconst0 => "dconst0" | .dconst1 => "dconst1"
  | .bipush => "bipush" | .sipush => "sipush" | .ldc => "ldc" | .ldcW => "ldcw"
  | .ldc2W => "ldc2w" | .iload => "iload" | .lload => "lload" | .fload => "fload"
  | .dload => "dload" | .aload => "aload" | .iload0 => "iload0" | .iload1 => "iload1"
  | .iload2 => "iload2" | .iload3 => "iload3" | .lload0 => "lload0" | .lload1 => "lload1"
  | .lload2 => "lload2" | .lload3 => "lload3" | .fload0 => "fload0" | .fload1 => "fload1"
  | .fload2 => "fload2" | .fload3 => "fload3" | .dload0 => "dload0" | .dload1 => "dload1"
  | .dload2 => "dload2" | .dload3 => "dload3" | .aload0 => "aload0" | .aload1 => "aload1"
  | .aload2 => "aload2" | .aload3 => "aload3" | .iaload => "iaload" | .laload => "laload"
  | .faload => "faload" | .daload => "daload" | .aaload => "aaload" | .baload => "baload"
  | .caload => "caload" | .saload => "saload" | .istore => "istore" | .lstore => "lstore"
  | .fstore => "fstore" | .dstore => "dstore" | .astore => "astore" | .istore0 => "istore0"
  | .istore1 => "istore1" | .istore2 => "istore2" | .istore3 => "istore3" | .lstore0 => "lstore0"
  | .lstore1 => "lstore1" | .lstore2 => "lstore2" | .lstore3 => "lstore3" | .fstore0 => "fstore0"
  | .fstore1 => "fstore1" | .fstore2 => "fstore2" | .fstore3 => "fstore3" | .dstore0 => "dstore0"
  | .dstore1 => "dstore1" | .dstore2 => "dstore2" | .dstore3 => "dstore3" | .astore0 => "astore0"
  | .astore1 => "astore1" | .astore2 => "astore2" | .astore3 => "astore3" | .iastore => "iastore"
  | .lastore => "lastore" | .fastore => "fastore" | .dastore => "dastore" | .aastore => "aastore"
  | .bastore => "bastore" | .castore => "castore" | .sastore => "sastore" | .pop => "pop"
  | .pop2 => "pop2" | .dup => "dup" | .dupX1 => "dupx1" | .dupX2 => "dupx2" | .dup2 => "dup2"
  | .dup2X1 => "dup2x1" | .dup2X2 => "dup2x2" | .swap => "swap" | .iadd => "iadd"
  | .ladd => "ladd" | .fadd => "fadd" | .dadd => "dadd" | .isub => "isub" | .lsub => "lsub"
  | .fsub => "fsub" | .dsub => "dsub" | .imul => "imul" | .lmul => "lmul" | .fmul => "fmul"
  | .dmul => "dmul" | .idiv => "idiv" | .ldiv => "ldiv" | .fdiv => "fdiv" | .ddiv => "ddiv"
  | .irem => "irem" | .lrem => "lrem" | .frem => "frem" | .drem => "drem" | .ineg => "ineg"
  | .lneg => "lneg" | .fneg => "fneg" | .dneg => "dneg" | .ishl => "ishl" | .lshl => "lshl"
  | .ishr => "ishr" | .lshr => "lshr" | .iushr => "iushr" | .lushr => "lushr" | .iand => "iand"
  | .land => "land" | .ior => "ior" | .lor => "lor" | .ixor => "ixor" | .lxor => "lxor"
  | .iinc => "iinc" | .i2l => "i2l" | .i2f => "i2f" | .i2d => "i2d" | .l2i => "l2i"
  | .l2f => "l2f" | .l2d => "l2d" | .f2i => "f2i" | .f2l => "f2l" | .f2d => "f2d" | .d2i => "d2i"
  | .d2l => "d2l" | .d2f => "d2f" | .i2b => "i2b" | .i2c => "i2c" | .i2s => "i2s"
  | .lcmp => "lcmp" | .fcmpl => "fcmpl" | .fcmpg => "fcmpg" | .dcmpl => "dcmpl"
  | .dcmpg => "dcmpg" | .ifEq => "ifeq" | .ifNe => "ifne" | .ifLt => "iflt" | .ifGe => "ifge"
  | .ifGt => "ifgt" | .ifLe => "ifle" | .ifIcmpEq => "ificmpeq" | .ifIcmpNe => "ificmpne"
  | .ifIcmpLt => "ificmplt" | .ifIcmpGe => "ificmpge" | .ifIcmpGt => "ificmpgt"
  | .ifIcmpLe => "ificmple" | .ifAcmpEq => "ifacmpeq" | .ifAcmpNe => "ifacmpne" | .goto => "goto"
  | .jsr => "jsr" | .ret => "ret" | .tableSwitch => "tableswitch"
  | .lookupSwitch => "lookupswitch" | .ireturn => "ireturn" | .lreturn => "lreturn"
  | .freturn => "freturn" | .dreturn => "dreturn" | .areturn => "areturn"
  | .returnVoid => "return" | .getStatic => "getstatic" | .putStatic => "putstatic"
  | .getField => "getfield" | .putField => "putfield" | .invokeVirtual => "invokevirtual"
  | .invokeSpecial => "invokespecial" | .invokeStatic => "invokestatic"
  | .invokeInterface => "invokeinterface" | .invokeDynamic => "invokedynamic"
  | .newObject => "new" | .newArray => "newarray" | .anewArray => "anewarray"
  | .arrayLength => "arraylength" | .athrow => "athrow" | .checkCast => "checkcast"
  | .instanceOf => "instanceof" | .monitorEnter => "monitorenter" | .monitorExit => "monitorexit"
  | .wide => "wide" | .multiAnewArray => "multianewarray" | .ifNull => "ifnull"
  | .ifNonNull => "ifnonnull" | .gotoW => "gotow" | .jsrW => "jsrw" | .breakpoint => "breakpoint"
  | .impdep1 => "impdep1" | .impdep2 => "impdep2"

/-! ## §2 Sizes -/

/-- The size of the whole instruction, unless it depends on its operands. -/
def size? : Opcode → Option Nat
  | .tableSwitch | .lookupSwitch | .wide => none
  | .bipush | .ldc | .iload | .lload | .fload | .dload | .aload | .istore | .lstore | .fstore
    | .dstore | .astore | .ret | .newArray =>
    some 2
  | .sipush | .ldcW | .ldc2W | .iinc | .ifEq | .ifNe | .ifLt | .ifGe | .ifGt | .ifLe
    | .ifIcmpEq | .ifIcmpNe | .ifIcmpLt | .ifIcmpGe | .ifIcmpGt | .ifIcmpLe | .ifAcmpEq
    | .ifAcmpNe | .goto | .jsr | .getStatic | .putStatic | .getField | .putField
    | .invokeVirtual | .invokeSpecial | .invokeStatic | .newObject | .anewArray | .checkCast
    | .instanceOf | .ifNull | .ifNonNull =>
    some 3
  | .multiAnewArray => some 4
  | .invokeInterface | .invokeDynamic | .gotoW | .jsrW => some 5
  | _ => some 1

/-! ## §3 Jumps -/

/-- Jumps with a signed 16-bit offset. -/
def isShortBranch : Opcode → Bool
  | .ifEq | .ifNe | .ifLt | .ifGe | .ifGt | .ifLe | .ifIcmpEq | .ifIcmpNe | .ifIcmpLt
    | .ifIcmpGe | .ifIcmpGt | .ifIcmpLe | .ifAcmpEq | .ifAcmpNe | .goto | .jsr | .ifNull
    | .ifNonNull =>
    true
  | _ => false

/-- Jumps with a signed 32-bit offset. -/
def isWideBranch : Opcode → Bool
  | .gotoW | .jsrW => true
  | _ => false

def isSwitch : Opcode → Bool
  | .tableSwitch | .lookupSwitch => true
  | _ => false

/-- Calls of a subroutine, which leave a return address on the stack of their target. -/
def isSubroutineCall : Opcode → Bool
  | .jsr | .jsrW => true
  | _ => false

/-- Control never passes on to the next instruction. -/
def endsFlow : Opcode → Bool
  | .goto | .gotoW | .ret | .tableSwitch | .lookupSwitch | .ireturn | .lreturn | .freturn
    | .dreturn | .areturn | .returnVoid | .athrow =>
    true
  | _ => false

def isInvoke : Opcode → Bool
  | .invokeVirtual | .invokeSpecial | .invokeStatic | .invokeInterface | .invokeDynamic => true
  | _ => false

end Opcode

end Reshape
