import Reshape.Code.StackDepth
import Reshape.Frame.State
import Reshape.Part

/-!
# Inserting code

A block of code is put into a method body at the start of an instruction or at the end.  What
lies at or behind the insertion point moves by the length of the block, and every jump,
protected range, debug entry and frame follows, so that nothing outside the block leads into it.
An edit is carried out step by step on the body and the pool; when a step fails, the earlier
ones have been made.
-/

namespace Reshape

/-! ## §1 Where offsets go -/

/-- A gap of `length` bytes that opens at `position`. -/
structure Relocation where
  position : Nat
  length : Nat
  deriving DecidableEq, Repr

namespace Relocation

/-- The new offset of an instruction. -/
def start (r : Relocation) (offset : Nat) : Nat :=
  if offset < r.position then offset else offset + r.length

/-- The new end of a range; a range that ends at the gap stays short of it. -/
def stop (r : Relocation) (offset : Nat) : Nat :=
  if r.position < offset then offset + r.length else offset

/-- The new offset of a jump's target, also where it leads out of the code. -/
def target (r : Relocation) (offset : Int) : Int :=
  if 0 ≤ offset ∧ offset < r.position then offset else offset + r.length

def start16 (r : Relocation) (offset : UInt16) : UInt16 := UInt16.ofNat (r.start offset.toNat)

def stop16 (r : Relocation) (offset : UInt16) : UInt16 := UInt16.ofNat (r.stop offset.toNat)

/-! ## §2 Jumps -/

/-- Bytes to be written over the code. -/
structure Patch where
  position : Nat
  bytes : Bytes
  deriving DecidableEq, Repr

/-- Writes bytes over the code from a position on. -/
def overwrite (code : Array UInt8) (position : Nat) : Bytes → Array UInt8
  | [] => code
  | b :: bs => overwrite (code.setIfInBounds position b) (position + 1) bs

/-- The new content of one jump operand. -/
def patch (r : Relocation) (code : Array UInt8) (i : Instruction) (o : JumpOperand) :
    Except BuildError Patch := do
  let relative ← (o.relative code).mapError BuildError.format
  let moved := r.start i.offset
  let target := r.target (i.offset + relative)
  let shifted := target - moved
  let position := moved + (o.position - i.offset)
  match o.width with
  | .short =>
    if -32768 ≤ shifted ∧ shifted < 32768 then
      return ⟨position, BigEndian.digits 2 (shifted % 65536).toNat⟩
    else throw (.branchOffsetOverflow moved target)
  | .wide => return ⟨position, BigEndian.digits 4 (shifted % 4294967296).toNat⟩

def patchesOf (r : Relocation) (code : Array UInt8) (i : Instruction) :
    Except BuildError (List Patch) := do
  let operands ← (i.jumpOperands code).mapError BuildError.format
  operands.mapM (r.patch code i)

/-- The new contents of all jump operands of the code. -/
def patches (r : Relocation) (code : Array UInt8) (instructions : List Instruction) :
    Except BuildError (List Patch) := do
  return (← instructions.mapM (r.patchesOf code)).flatten

/-! ## §3 Tables -/

def handler (r : Relocation) (h : Handler) : Handler :=
  { h with start := r.start16 h.start, stop := r.stop16 h.stop, target := r.start16 h.target }

def lineNumber (r : Relocation) (l : LineNumber) : LineNumber :=
  { l with start := r.start16 l.start }

def localVariable (r : Relocation) (v : LocalVariable) : LocalVariable :=
  let start := r.start v.start.toNat
  let stop := r.stop (v.start.toNat + v.length.toNat)
  { v with start := UInt16.ofNat start, length := UInt16.ofNat (stop - start) }

def verificationType (r : Relocation) : VerificationType → VerificationType
  | .uninitialized offset => .uninitialized (r.start16 offset)
  | t => t

def frameState (r : Relocation) (s : FrameState) : FrameState :=
  ⟨r.start s.offset, s.locals.map r.verificationType, s.stack.map r.verificationType⟩

end Relocation

/-! ## §4 The insertion -/

structure Insertion where
  position : Nat
  block : Array UInt8
  /-- The locals at the end of the block.  If given, a frame with an empty stack is recorded
  there unless there is one, so the block may jump to its own end. -/
  join : Option (List VerificationType)

/-- A body under edit, with the pool of its class. -/
structure Edit where
  body : Body
  pool : Pool

/-- An editing step, which may fail half-way. -/
abbrev Editing (α : Type) := EStateM BuildError Edit α

namespace Editing

def ofExcept {α : Type} : Except BuildError α → Editing α
  | .ok a => pure a
  | .error e => throw e

/-- Interns constants into the pool of the class. -/
def interning {α : Type} (action : Interning α) : Editing α :=
  onPart Edit.pool (fun s pool => { s with pool }) action

end Editing

namespace Insertion

def relocation (ins : Insertion) : Relocation := ⟨ins.position, ins.block.size⟩

/-- The offset at which control leaves the block. -/
def joinOffset (ins : Insertion) : Nat := ins.position + ins.block.size

/-- The state that holds behind the block, if it is to be recorded. -/
def joinState? (ins : Insertion) : Option FrameState :=
  ins.join.map fun locals => ⟨ins.joinOffset, locals, []⟩

/-- The instructions of the code, in which the switches must stay aligned. -/
def instructions (ins : Insertion) (code : Array UInt8) :
    Except BuildError (List Instruction) :=
  let decoding := decodeAll code
  let gap := ins.block.size
  let misaligned (i : Instruction) : Bool :=
    i.opcode.isSwitch && ins.position ≤ i.offset && gap % 4 != 0
  match decoding.instructions.find? misaligned with
  | some i => .error (.misalignedSwitch i.offset gap)
  | none => decoding.complete.mapError BuildError.format

/-- The code with the block in place and all other jumps adjusted. -/
def splice (ins : Insertion) (code : Array UInt8) : Except BuildError (Array UInt8) := do
  let instructions ← ins.instructions code
  let boundary := ins.position == code.size || instructions.any (·.offset == ins.position)
  if !boundary then throw (.invalidInsertionPoint ins.position)
  let size := code.size + ins.block.size
  if Body.maxCode < size then throw (.codeTooLarge size)
  let patches ← ins.relocation.patches code instructions
  let spread :=
    code.extract 0 ins.position ++ ins.block ++ code.extract ins.position code.size
  return patches.foldl (fun c p => Relocation.overwrite c p.position p.bytes) spread

/-- The states with the one behind the block added, unless its offset has one. -/
def addJoin (ins : Insertion) (states : List FrameState) : List FrameState :=
  match ins.joinState? with
  | none => states
  | some join =>
    if states.any (·.offset == join.offset) then states
    else
      let isBefore (s : FrameState) : Bool := s.offset < join.offset
      states.takeWhile isBefore ++ join :: states.dropWhile isBefore

/-- The frame table after the insertion. -/
def frames (ins : Insertion) (entry : List VerificationType) (payload : Bytes) :
    Except BuildError Bytes := do
  let frames ← (Frame.parseAll payload).mapError BuildError.format
  let states ← (FrameState.expand frames entry).mapError BuildError.format
  let states := ins.addJoin (states.map ins.relocation.frameState)
  Frame.encodeAll (FrameState.compress states entry)

/-- The new payload of an attribute of the body. -/
def payload (ins : Insertion) (entry : List VerificationType) (name : String) (old : Bytes) :
    Except BuildError Bytes :=
  if name = Attribute.lineNumberTableName then do
    let lines ← (LineNumber.parseAll old).mapError BuildError.format
    LineNumber.encodeAll (lines.map ins.relocation.lineNumber)
  else if name = Attribute.localVariableTableName ∨
      name = Attribute.localVariableTypeTableName then do
    let locals ← (LocalVariable.parseAll old).mapError BuildError.format
    LocalVariable.encodeAll (locals.map ins.relocation.localVariable)
  else if name = Attribute.stackMapTableName then ins.frames entry old
  else .ok old

/-- The attributes after the insertion, as far as it got, and whether a frame table was among
them. -/
def attributes (ins : Insertion) (pool : Pool) (entry : List VerificationType)
    (mapped : Bool) : List Attribute → List Attribute × Except BuildError Bool
  | [] => ([], .ok mapped)
  | a :: rest =>
    let step : Except BuildError (Attribute × Bool) := do
      let name ← (pool.utf8 a.name).mapError BuildError.format
      let payload ← ins.payload entry name a.payload
      return ({ a with payload }, name == Attribute.stackMapTableName)
    match step with
    | .error e => (a :: rest, .error e)
    | .ok (a, isMap) =>
      let (rest, outcome) := ins.attributes pool entry (mapped || isMap) rest
      (a :: rest, outcome)

/-- Records the state behind the block in a frame table of its own. -/
def recordJoin (entry : List VerificationType) (join : FrameState) : Editing Unit := do
  let payload ← Editing.ofExcept (Frame.encodeAll (FrameState.compress [join] entry))
  let s ← get
  let attributes ←
    Editing.interning (Attribute.set Attribute.stackMapTableName payload s.body.attributes)
  modify fun s => { s with body := { s.body with attributes } }

/-- Makes room on the stack for what the code needs now. -/
def raiseMaxStack : Editing Unit := do
  let s ← get
  let depth ← Editing.ofExcept ((StackDepth.greatest s.pool s.body).mapError BuildError.format)
  set { s with body := { s.body with maxStack := max s.body.maxStack depth } }

/-- Inserts the block; `entry` are the locals at the start of the method. -/
def run (ins : Insertion) (entry : List VerificationType) : Editing Unit := do
  let s ← get
  let code ← Editing.ofExcept (ins.splice s.body.code)
  let handlers := s.body.handlers.map ins.relocation.handler
  let (attributes, outcome) := ins.attributes s.pool entry false s.body.attributes
  set { s with body := { s.body with code, handlers, attributes } }
  let mapped ← Editing.ofExcept outcome
  match mapped, ins.joinState? with
  | false, some join => recordJoin entry join
  | _, _ => pure ()
  raiseMaxStack

end Insertion

end Reshape
