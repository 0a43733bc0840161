import Reshape.Code.Opcode
import Reshape.Error

/-!
# Instructions

An instruction is an opcode at an offset with the length of its whole encoding.  The operands
of a switch are aligned to four bytes, counted from the start of the code.  `decodeAll` reads
code from front to back; `jumpOperands` and `jumpTargets` say where an instruction keeps its
relative jumps and where they lead.
-/

namespace Reshape

/-! ## §1 Bytes of the code -/

namespace Code

def byteAt (code : Array UInt8) (position : Nat) : Except FormatError UInt8 :=
  match code[position]? with
  | some b => .ok b
  | none => .error (.truncatedInstruction position)

def u16At (code : Array UInt8) (position : Nat) : Except FormatError UInt16 := do
  let a ← byteAt code position
  let b ← byteAt code (position + 1)
  return UInt16.ofNat (BigEndian.value [a, b])

def i16At (code : Array UInt8) (position : Nat) : Except FormatError Int := do
  return (← u16At code position).toInt16.toInt

def i32At (code : Array UInt8) (position : Nat) : Except FormatError Int := do
  let a ← byteAt code position
  let b ← byteAt code (position + 1)
  let c ← byteAt code (position + 2)
  let d ← byteAt code (position + 3)
  return (UInt32.ofNat (BigEndian.value [a, b, c, d])).toInt32.toInt

end Code

/-! ## §2 Decoding -/

structure Instruction where
  offset : Nat
  opcode : Opcode
  /-- The encoded length, operands and alignment included. -/
  length : Nat
  deriving DecidableEq, Repr

/-- The offset behind the instruction. -/
def Instruction.next (i : Instruction) : Nat := i.offset + i.length

/-- The bytes between a switch opcode at `offset` and its aligned operands. -/
def switchPadding (offset : Nat) : Nat := (4 - (offset + 1) % 4) % 4

/-- Where the aligned operands of a switch at `offset` start. -/
def switchOperands (offset : Nat) : Nat := offset + 1 + switchPadding offset

/-- The number of targets of a table switch besides its default. -/
def tableEntries (code : Array UInt8) (offset : Nat) : Except FormatError Nat := do
  let low ← Code.i32At code (switchOperands offset + 4)
  let high ← Code.i32At code (switchOperands offset + 8)
  return (high - low + 1).toNat

/-- The number of match pairs of a look-up switch. -/
def lookupPairs (code : Array UInt8) (offset : Nat) : Except FormatError Nat := do
  return (← Code.i32At code (switchOperands offset + 4)).toNat

namespace Instruction

/-- The length an opcode at `offset` announces, whether or not the code is that long. -/
def announcedLength (code : Array UInt8) (offset : Nat) (opcode : Opcode) :
    Except FormatError Nat := do
  match opcode.size? with
  | some size => return size
  | none =>
    match opcode with
    | .tableSwitch =>
      return switchOperands offset + 12 + (← tableEntries code offset) * 4 - offset
    | .lookupSwitch =>
      return switchOperands offset + 8 + (← lookupPairs code offset) * 8 - offset
    | _ =>
      let inner ← Code.byteAt code (offset + 1)
      return if inner = Opcode.iinc.byte then 6 else 4

def decode (code : Array UInt8) (offset : Nat) : Except FormatError Instruction := do
  let byte ← Code.byteAt code offset
  match Opcode.ofByte? byte with
  | none => throw (.invalidOpcode offset byte)
  | some opcode =>
    let length ← announcedLength code offset opcode
    if offset + length ≤ code.size then return ⟨offset, opcode, length⟩
    else throw (.truncatedInstruction offset)

theorem size?_pos {op : Opcode} {n : Nat} (h : op.size? = some n) : 0 < n := by
  unfold Opcode.size? at h
  split at h <;> simp_all <;> omega

theorem announcedLength_pos {code : Array UInt8} {offset n : Nat} {op : Opcode}
    (h : announcedLength code offset op = .ok n) : 0 < n := by
  unfold announcedLength at h
  split at h
  · next hs =>
    cases h
    exact size?_pos hs
  · split at h
    · cases ht : tableEntries code offset <;>
        simp [ht, bind, Except.bind, pure, Except.pure, switchOperands] at h
      omega
    · cases ht : lookupPairs code offset <;>
        simp [ht, bind, Except.bind, pure, Except.pure, switchOperands] at h
      omega
    · cases hb : Code.byteAt code (offset + 1) <;>
        simp [hb, bind, Except.bind, pure, Except.pure] at h
      split at h <;> omega

/-- A decoded instruction starts where it was looked for, is not empty and lies in the code. -/
theorem decode_bounds {code : Array UInt8} {offset : Nat} {i : Instruction}
    (h : decode code offset = .ok i) :
    i.offset = offset ∧ 0 < i.length ∧ offset + i.length ≤ code.size := by
  unfold decode at h
  cases hb : Code.byteAt code offset with
  | error e => simp [hb, bind, Except.bind] at h
  | ok byte =>
    simp only [hb, bind, Except.bind] at h
    split at h
    · cases h
    · next op _ =>
      cases hl : announcedLength code offset op with
      | error e => simp [hl] at h
      | ok n =>
        simp only [hl] at h
        split at h
        · cases h
          exact ⟨rfl, announcedLength_pos hl, by assumption⟩
        · cases h

end Instruction

/-- The instructions of some code from front to back, and the fault that ended the reading
early, if one did. -/
structure Decoding where
  instructions : List Instruction
  fault : Option FormatError
  deriving DecidableEq, Repr

/-- Decodes from `offset` on; the instructions before it are `done`, held in reverse. -/
def decodeFrom (code : Array UInt8) (offset : Nat) (done : List Instruction) : Decoding :=
  if offset < code.size then
    match h : Instruction.decode code offset with
    | .ok i =>
      have : 0 < i.length ∧ i.offset = offset :=
        ⟨(Instruction.decode_bounds h).2.1, (Instruction.decode_bounds h).1⟩
      decodeFrom code i.next (i :: done)
    | .error e => ⟨done.reverse, some e⟩
  else ⟨done.reverse, none⟩
  termination_by code.size - offset
  decreasing_by
    simp only [Instruction.next]
    omega

def decodeAll (code : Array UInt8) : Decoding := decodeFrom code 0 []

/-- All instructions, or the fault that ended the reading. -/
def Decoding.complete (d : Decoding) : Except FormatError (List Instruction) :=
  match d.fault with
  | none => .ok d.instructions
  | some e => .error e

/-! ## §3 Jumps -/

/-- The stored width of a relative jump. -/
inductive JumpWidth
  | short | wide
  deriving DecidableEq, Repr

def JumpWidth.bytes : JumpWidth → Nat
  | .short => 2
  | .wide => 4

/-- A relative jump stored in the code. -/
structure JumpOperand where
  position : Nat
  width : JumpWidth
  deriving DecidableEq, Repr

/-- The stored value of a jump, relative to the opcode of its instruction. -/
def JumpOperand.relative (code : Array UInt8) (o : JumpOperand) : Except FormatError Int :=
  match o.width with
  | .short => Code.i16At code o.position
  | .wide => Code.i32At code o.position

namespace Instruction

/-- The relative jumps of an instruction, in the order in which they are stored. -/
def jumpOperands (code : Array UInt8) (i : Instruction) :
    Except FormatError (List JumpOperand) := do
  if i.opcode.isShortBranch then return [⟨i.offset + 1, .short⟩]
  else if i.opcode.isWideBranch then return [⟨i.offset + 1, .wide⟩]
  else
    let start := switchOperands i.offset
    match i.opcode with
    | .tableSwitch =>
      let entries ← tableEntries code i.offset
      return ⟨start, .wide⟩ ::
        (List.range entries).map fun k => ⟨start + 12 + k * 4, .wide⟩
    | .lookupSwitch =>
      let pairs ← lookupPairs code i.offset
      return ⟨start, .wide⟩ ::
        (List.range pairs).map fun k => ⟨start + 8 + k * 8 + 4, .wide⟩
    | _ => return []

/-- The offset a stored jump leads to, which must lie in the code. -/
def targetOf (code : Array UInt8) (i : Instruction) (o : JumpOperand) :
    Except FormatError Nat := do
  let target := i.offset + (← o.relative code)
  if 0 ≤ target ∧ target < code.size then return target.toNat
  else throw (.truncatedInstruction i.offset)

def jumpTargets (code : Array UInt8) (i : Instruction) : Except FormatError (List Nat) := do
  (← i.jumpOperands code).mapM (i.targetOf code)

end Instruction

end Reshape
