import Reshape.Code.Body
import Reshape.Code.Instruction

/-!
# Stack depth

The depth of the operand stack is followed through the code from its start and from every
exception handler.  An instruction changes the depth by a fixed amount or by one that its
constant decides, and hands it on to where it jumps and, unless it ends the flow, to the next
instruction.  An offset that is met again must be met with the same depth.  The analysis ends
because every offset is expanded at most once.  No instruction adds more than two slots, so only
code of 2^30 bytes or more could bring a depth out of 32 bits; here it is an integer of any size.
-/

namespace Reshape

namespace StackDepth

/-! ## §1 The effect of one instruction -/

/-- The change of depth that the opcode alone decides. -/
def fixedChange? : Opcode → Option Int
  | .nop | .iinc | .goto | .gotoW | .ret | .returnVoid | .swap | .ineg | .fneg | .lneg
  | .dneg | .i2f | .l2d | .f2i | .d2l | .i2b | .i2c | .i2s | .newArray | .anewArray
  | .arrayLength | .checkCast | .instanceOf | .laload | .daload | .jsr | .jsrW | .breakpoint
  | .impdep1 | .impdep2 => some 0
  | .aconstNull | .iconstM1 | .iconst0 | .iconst1 | .iconst2 | .iconst3 | .iconst4
  | .iconst5 | .fconst0 | .fconst1 | .fconst2 | .bipush | .sipush | .iload | .fload | .aload
  | .iload0 | .iload1 | .iload2 | .iload3 | .fload0 | .fload1 | .fload2 | .fload3 | .aload0
  | .aload1 | .aload2 | .aload3 | .dup | .dupX1 | .dupX2 | .i2l | .i2d | .f2l | .f2d
  | .newObject => some 1
  | .lconst0 | .lconst1 | .dconst0 | .dconst1 | .ldc2W | .lload | .dload | .lload0 | .lload1
  | .lload2 | .lload3 | .dload0 | .dload1 | .dload2 | .dload3 | .dup2 | .dup2X1 | .dup2X2 => some 2
  | .iaload | .faload | .aaload | .baload | .caload | .saload | .istore | .fstore | .astore
  | .istore0 | .istore1 | .istore2 | .istore3 | .fstore0 | .fstore1 | .fstore2 | .fstore3
  | .astore0 | .astore1 | .astore2 | .astore3 | .pop | .iadd | .fadd | .isub | .fsub | .imul
  | .fmul | .idiv | .fdiv | .irem | .frem | .ishl | .ishr | .iushr | .lshl | .lshr | .lushr
  | .iand | .ior | .ixor | .l2i | .l2f | .d2i | .d2f | .fcmpl | .fcmpg | .ifEq | .ifNe
  | .ifLt | .ifGe | .ifGt | .ifLe | .ifNull | .ifNonNull | .tableSwitch | .lookupSwitch
  | .ireturn | .freturn | .areturn | .athrow | .monitorEnter | .monitorExit => some (-1)
  | .lstore | .dstore | .lstore0 | .lstore1 | .lstore2 | .lstore3 | .dstore0 | .dstore1
  | .dstore2 | .dstore3 | .pop2 | .ladd | .dadd | .lsub | .dsub | .lmul | .dmul | .ldiv
  | .ddiv | .lrem | .drem | .land | .lor | .lxor | .ifIcmpEq | .ifIcmpNe | .ifIcmpLt
  | .ifIcmpGe | .ifIcmpGt | .ifIcmpLe | .ifAcmpEq | .ifAcmpNe | .lreturn | .dreturn => some (-2)
  | .iastore | .fastore | .aastore | .bastore | .castore | .sastore | .lcmp | .dcmpl
  | .dcmpg => some (-3)
  | .lastore | .dastore => some (-4)
  | _ => none

def fieldSlots (descriptor : String) : Int := if isWideDescriptor descriptor then 2 else 1

/-- The change of depth of a call: the arguments and the receiver go, the result comes.  The slots of
the arguments are counted in sixteen bits. -/
def callChange (descriptor : String) (receiver : Int) : Except FormatError Int :=
  match MethodType.ofDescriptor? descriptor with
  | .ok m => .ok (m.resultSlots - m.parameterSlots.toNat - receiver)
  | .error e => .error (.methodDescriptor e)

/-- The slots of a loaded constant. -/
def constantSlots (pool : Pool) (index : UInt16) : Except FormatError Int := do
  match ← pool.constant index with
  | .long _ | .double _ => return 2
  | .dynamic _ nat => return fieldSlots (← pool.nameAndType nat).2
  | _ => return 1

/-- The change of depth of an operation on a local variable beyond the first 256. -/
def widenedChange (code : Array UInt8) (position : Nat) : Except FormatError Int := do
  let byte ← Code.byteAt code position
  match Opcode.ofByte? byte with
  | some .iload | some .fload | some .aload => return 1
  | some .lload | some .dload => return 2
  | some .istore | some .fstore | some .astore => return -1
  | some .lstore | some .dstore => return -2
  | some _ => return 0
  | none => throw (.invalidOpcode position byte)

/-- The net change of depth of an instruction.  The return address that a subroutine call leaves
at its target is not counted. -/
def change (pool : Pool) (code : Array UInt8) (i : Instruction) : Except FormatError Int := do
  let first := i.offset + 1
  let referenced : Except FormatError String := do
    return (← pool.memberRef (← Code.u16At code first)).descriptor
  match fixedChange? i.opcode with
  | some amount => return amount
  | none =>
    match i.opcode with
    | .ldc => constantSlots pool (← Code.byteAt code first).toUInt16
    | .ldcW => constantSlots pool (← Code.u16At code first)
    | .getStatic => return fieldSlots (← referenced)
    | .putStatic => return -fieldSlots (← referenced)
    | .getField => return fieldSlots (← referenced) - 1
    | .putField => return -fieldSlots (← referenced) - 1
    | .invokeVirtual | .invokeSpecial | .invokeInterface => callChange (← referenced) 1
    | .invokeStatic => callChange (← referenced) 0
    | .invokeDynamic => callChange (← pool.dynamicDescriptor (← Code.u16At code first)) 0
    | .multiAnewArray => return 1 - ((← Code.byteAt code (first + 2)).toNat : Int)
    | _ => widenedChange code first

/-! ## §2 Following the flow -/

/-- An offset that control reaches with some depth. -/
structure Point where
  offset : Nat
  depth : Int
  deriving DecidableEq, Repr

/-- What one instruction does at a point: the greatest depth it sees and the points it hands
control to. -/
structure Flow where
  peak : Int
  successors : List Point
  deriving DecidableEq, Repr

def flow (pool : Pool) (code : Array UInt8) (p : Point) : Except FormatError Flow := do
  let i ← Instruction.decode code p.offset
  let after := p.depth + (← change pool code i)
  if after < 0 then throw (.negativeStackDepth p.offset)
  let jumping := if i.opcode.isSubroutineCall then after + 1 else after
  let targets ← i.jumpTargets code
  let falling :=
    if !i.opcode.endsFlow && i.next < code.size then [Point.mk i.next after] else []
  return ⟨max p.depth (max after jumping), targets.map (Point.mk · jumping) ++ falling⟩

/-- The depths known so far, by offset. -/
abbrev Depths := Array (Option Int)

/-- The number of offsets that have not been met. -/
def Depths.unknown (depths : Depths) : Nat := depths.count none

theorem unknown_set (depths : Depths) (offset : Nat) (hn : depths[offset]? = some none)
    (depth : Int) :
    Depths.unknown (depths.setIfInBounds offset (some depth)) < Depths.unknown depths := by
  obtain ⟨h, hn⟩ := Array.getElem?_eq_some_iff.mp hn
  have hpos : 0 < depths.count none := Array.count_pos_iff.2 (hn ▸ Array.getElem_mem h)
  have hold : (depths[offset] == none) = true := by rw [hn]; rfl
  have hnew : (some depth == (none : Option Int)) = false := rfl
  rw [Depths.unknown, Depths.unknown, Array.setIfInBounds, dif_pos h, Array.count_set, if_pos hold,
    hnew, if_neg (by decide)]
  omega

/-- The pending points without those at the front that were met before, each of which must have
been met with the depth it has now. -/
def unmet (depths : Depths) : List Point → Except FormatError (List Point)
  | [] => .ok []
  | p :: pending =>
    match depths[p.offset]? with
    | none => .error (.truncatedInstruction p.offset)
    | some none => .ok (p :: pending)
    | some (some seen) =>
      if seen = p.depth then unmet depths pending
      else .error (.inconsistentStackDepth p.offset)

theorem unknown_of_unmet {depths : Depths} {pending rest : List Point} {p : Point}
    (h : unmet depths pending = .ok (p :: rest)) : depths[p.offset]? = some none := by
  fun_induction unmet depths pending with
  | case1 => simp at h
  | case2 => simp at h
  | case3 q pending hq =>
      cases h
      exact hq
  | case4 q pending hq ih => exact ih h
  | case5 => simp at h

/-- Expands the pending points, last added first, and returns the greatest depth seen. -/
def run (pool : Pool) (code : Array UInt8) (depths : Depths) (peak : Int)
    (pending : List Point) : Except FormatError Int :=
  match _h : unmet depths pending with
  | .error e => .error e
  | .ok [] => .ok peak
  | .ok (p :: rest) =>
    match flow pool code p with
    | .error e => .error e
    | .ok f =>
      run pool code (depths.setIfInBounds p.offset (some p.depth)) (max peak f.peak)
        (f.successors.reverse ++ rest)
  termination_by depths.unknown
  decreasing_by exact unknown_set depths p.offset (unknown_of_unmet _h) p.depth

/-- Where control starts: at the first instruction and, with the exception on the stack, at
every handler. -/
def entries (b : Body) : List Point :=
  (if b.code.isEmpty then [] else [⟨0, 0⟩]) ++
    b.handlers.map fun h => ⟨h.target.toNat, 1⟩

/-- The greatest depth of the operand stack, cut to the width of its field. -/
def greatest (pool : Pool) (b : Body) : Except FormatError UInt16 := do
  let peak ← run pool b.code (Array.replicate b.code.size none) 0 (entries b).reverse
  return UInt16.ofNat peak.toNat

end StackDepth

end Reshape
