import Reshape.Proofs.Code.Path
import Reshape.Proofs.Code.Relocation
import Reshape.Proofs.Pool.Growth
import Reshape.Storage.Layout

/-!
# The host that constructs an object

Constructors run on a machine with an operand stack.  Of the object under construction only the
storage field is kept, and of the heap the arrays.  A number on the stack is no object until it is
boxed, and a box holds the number as it is.  Whatever the storage block does not need is no step of
this machine.  `Executes` follows control until it arrives at an offset, and `Does` says what a
stretch of code comes to wherever it stands.
-/

namespace Reshape.Host

/-! ## §1 States -/

inductive Operand
  /-- The object under construction. -/
  | this
  | array (address : Nat)
  /-- The box of a value, or null. -/
  | object (value : StoredValue)
  /-- A number without a box. -/
  | number (value : StoredValue)
  deriving DecidableEq, Repr

/-- An object with the arrays that were allocated, oldest first, and the address of the one in its
storage field, if that is not null. -/
structure Object where
  arrays : List Container := []
  storage : Option Nat := none
  deriving DecidableEq, Repr

/-- The array in the storage field. -/
def Object.values? (o : Object) : Option Container := o.storage.bind (o.arrays[·]?)

/-- What the storage field gives when it is read. -/
def Object.held (o : Object) : Operand :=
  match o.storage with
  | some address => .array address
  | none => .object .null

/-- The object with one more array, which its storage field holds. -/
def Object.allocated (o : Object) (values : Container) : Object :=
  ⟨o.arrays ++ [values], some o.arrays.length⟩

/-- The object with storage: its own if it has some, and else a new array. -/
def Object.provided (o : Object) (l : StorageLayout) : Object :=
  if o.storage.isSome then o else o.allocated (Container.allocate l)

/-- Control at an offset, with the top of the stack first. -/
structure Machine where
  offset : Nat
  stack : List Operand
  object : Object
  deriving DecidableEq, Repr

/-! ## §2 Steps -/

/-- The method that boxes the values of a primitive type. -/
def boxing : Primitive → MemberRef
  | .byte => ⟨"java/lang/Byte", "valueOf", "(B)Ljava/lang/Byte;"⟩
  | .char => ⟨"java/lang/Character", "valueOf", "(C)Ljava/lang/Character;"⟩
  | .double => ⟨"java/lang/Double", "valueOf", "(D)Ljava/lang/Double;"⟩
  | .float => ⟨"java/lang/Float", "valueOf", "(F)Ljava/lang/Float;"⟩
  | .int => ⟨"java/lang/Integer", "valueOf", "(I)Ljava/lang/Integer;"⟩
  | .long => ⟨"java/lang/Long", "valueOf", "(J)Ljava/lang/Long;"⟩
  | .short => ⟨"java/lang/Short", "valueOf", "(S)Ljava/lang/Short;"⟩
  | .boolean => ⟨"java/lang/Boolean", "valueOf", "(Z)Ljava/lang/Boolean;"⟩

/-- The primitive type that a method boxes. -/
def boxedBy? (m : MemberRef) : Option Primitive := Primitive.all.find? fun p => boxing p = m

/-- What an operation without operands pushes. -/
def pushed? : Opcode → Option Operand
  | .aload0 => some .this
  | .aconstNull => some (.object .null)
  | .iconstM1 => some (.number (.integer (-1)))
  | .iconst0 => some (.number (.integer 0))
  | .iconst1 => some (.number (.integer 1))
  | .iconst2 => some (.number (.integer 2))
  | .iconst3 => some (.number (.integer 3))
  | .iconst4 => some (.number (.integer 4))
  | .iconst5 => some (.number (.integer 5))
  | .lconst0 => some (.number (.long 0))
  | .fconst0 => some (.number (.float 0))
  | .dconst0 => some (.number (.double 0))
  | _ => none

/-- The integer that an operation pushes from its operand. -/
def loaded? (pool : Pool) (code : Array UInt8) (i : Instruction) : Option Int32 := do
  let first := i.offset + 1
  match i.opcode with
  | .bipush => return (← (Code.byteAt code first).toOption).toInt8.toInt32
  | .sipush => return Int32.ofInt (← (Code.i16At code first).toOption)
  | .ldc => (pool.integer (← (Code.byteAt code first).toOption).toUInt16).toOption
  | .ldcW => (pool.integer (← (Code.u16At code first).toOption)).toOption
  | _ => none

/-- The member that an instruction names. -/
def member? (pool : Pool) (code : Array UInt8) (i : Instruction) : Option MemberRef := do
  (pool.memberRef (← (Code.u16At code (i.offset + 1)).toOption)).toOption

/-- The class that an instruction names. -/
def class? (pool : Pool) (code : Array UInt8) (i : Instruction) : Option String := do
  (pool.className (← (Code.u16At code (i.offset + 1)).toOption)).toOption

/-- What an operation does to the stack and to the object, unless it jumps. -/
def act (pool : Pool) (storage : MemberRef) (code : Array UInt8) (i : Instruction)
    (stack : List Operand) (o : Object) : Option (List Operand × Object) :=
  match pushed? i.opcode, loaded? pool code i with
  | some x, _ => some (x :: stack, o)
  | none, some n => some (.number (.integer n) :: stack, o)
  | none, none =>
    match i.opcode, stack with
    | .nop, _ => some (stack, o)
    | .dup, x :: rest => some (x :: x :: rest, o)
    | .dupX1, x :: y :: rest => some (x :: y :: x :: rest, o)
    | .pop, _ :: rest => some (rest, o)
    | .getField, .this :: rest =>
      if member? pool code i = some storage then some (o.held :: rest, o) else none
    | .putField, .array address :: .this :: rest =>
      if member? pool code i = some storage then some (rest, { o with storage := some address })
      else none
    | .anewArray, .number (.integer n) :: rest =>
      if class? pool code i = some "java/lang/Object" ∧ 0 ≤ n.toInt then
        some (.array o.arrays.length :: rest,
          { o with arrays := o.arrays ++ [List.replicate n.toInt.toNat .null] })
      else none
    | .aastore, .object v :: .number (.integer n) :: .array address :: rest => do
      let values ← o.arrays[address]?
      if 0 ≤ n.toInt ∧ n.toInt < values.length then
        some (rest, { o with arrays := o.arrays.set address (values.set n.toInt.toNat v) })
      else none
    | .invokeStatic, .number v :: rest => do
      let p ← boxedBy? (← member? pool code i)
      if v.fits (.primitive p) then some (.object v :: rest, o) else none
    | _, _ => none

/-- Where the null check goes on. -/
def branch? (code : Array UInt8) (i : Instruction) : Operand → Option Nat
  | .number _ => none
  | .object .null => some i.next
  | _ => do
    let relative ← (JumpOperand.relative code ⟨i.offset + 1, .short⟩).toOption
    return (i.offset + relative).toNat

def step? (pool : Pool) (storage : MemberRef) (code : Array UInt8) (m : Machine) :
    Option Machine := do
  let i ← (Instruction.decode code m.offset).toOption
  match i.opcode, m.stack with
  | .ifNonNull, [] => none
  | .ifNonNull, x :: rest => return ⟨← branch? code i x, rest, m.object⟩
  | _, _ =>
    let (stack, object) ← act pool storage code i m.stack m.object
    return ⟨i.next, stack, object⟩

/-- An instruction that does not jump hands control on to the next one. -/
theorem step?_of_act {pool : Pool} {storage : MemberRef} {code : Array UInt8} {i : Instruction}
    {offset : Nat} {s s' : List Operand} {o o' : Object}
    (decoded : Instruction.decode code offset = .ok i) (straight : i.opcode ≠ .ifNonNull)
    (acts : act pool storage code i s o = some (s', o')) :
    step? pool storage code ⟨offset, s, o⟩ = some ⟨i.next, s', o'⟩ := by
  unfold step?
  simp only [decoded, acts, Except.toOption, Option.bind_eq_bind, Option.bind_some]
  split
  · exact absurd (by assumption) straight
  · exact absurd (by assumption) straight
  · rfl

/-- Control goes on until it arrives at an offset. -/
inductive Executes (pool : Pool) (storage : MemberRef) (code : Array UInt8) (stop : Nat) :
    Machine → Machine → Prop
  | arrived {m : Machine} (there : m.offset = stop) : Executes pool storage code stop m m
  | step {m next last : Machine} (away : m.offset ≠ stop)
      (taken : step? pool storage code m = some next)
      (behind : Executes pool storage code stop next last) :
      Executes pool storage code stop m last

section Control

variable {pool : Pool} {storage : MemberRef} {code : Array UInt8} {stop : Nat}
  {m next last : Machine}

theorem executes_iff_of_arrived (there : m.offset = stop) :
    Executes pool storage code stop m last ↔ last = m := by
  constructor
  · intro h
    cases h with
    | arrived => rfl
    | step away => exact absurd there away
  · rintro rfl
    exact .arrived there

theorem executes_iff_of_step (away : m.offset ≠ stop)
    (taken : step? pool storage code m = some next) :
    Executes pool storage code stop m last ↔ Executes pool storage code stop next last := by
  constructor
  · intro h
    cases h with
    | arrived there => exact absurd there away
    | step _ taken' behind =>
        cases taken.symm.trans taken'
        exact behind
  · exact .step away taken

end Control

/-! ## §3 Stretches of code -/

/-- Wherever these bytes stand, control that is led to their start comes to their end. -/
def Does (pool : Pool) (storage : MemberRef) (bytes : Bytes) (stack : List Operand) (o : Object)
    (stack' : List Operand) (o' : Object) : Prop :=
  ∀ code offset stop last, Code.Holds code offset bytes → offset + bytes.length ≤ stop →
    (Executes pool storage code stop ⟨offset, stack, o⟩ last ↔
      Executes pool storage code stop ⟨offset + bytes.length, stack', o'⟩ last)

namespace Does

variable {pool : Pool} {storage : MemberRef} {bs cs : Bytes} {s s' s'' : List Operand}
  {o o' o'' : Object}

theorem nil : Does pool storage [] s o s o := fun _ _ _ _ _ _ => Iff.rfl

theorem append (h : Does pool storage bs s o s' o') (h' : Does pool storage cs s' o' s'' o'') :
    Does pool storage (bs ++ cs) s o s'' o'' := by
  intro code offset stop last holds fits
  rw [List.length_append, ← Nat.add_assoc] at fits ⊢
  exact (h code offset stop last holds.left (by omega)).trans
    (h' code _ stop last holds.right fits)

/-- One operation that does not jump. -/
theorem of_act {op : Opcode} {operands : Bytes} (sized : op.size? = some (operands.length + 1))
    (straight : op ≠ .ifNonNull)
    (acts : ∀ code offset, Code.Holds code offset (op.byte :: operands) →
      act pool storage code ⟨offset, op, operands.length + 1⟩ s o = some (s', o')) :
    Does pool storage (op.byte :: operands) s o s' o' := by
  intro code offset stop last holds fits
  refine executes_iff_of_step (Nat.ne_of_lt ?_) ?_
  · exact Nat.lt_of_lt_of_le (Nat.lt_add_of_pos_right (Nat.succ_pos _)) fits
  · exact step?_of_act (holds.decode_eq sized) straight (acts code offset holds)

/-- Operations that do nothing. -/
theorem nops (n : Nat) : Does pool storage (List.replicate n Opcode.nop.byte) s o s o := by
  induction n with
  | zero => exact .nil
  | succ n ih =>
      have hnop : Does pool storage [Opcode.nop.byte] s o s o :=
        .of_act rfl (by decide) fun _ _ _ => rfl
      exact hnop.append ih

end Does

/-! ## §4 Storage -/

namespace Object

/-- One slot of the storage is written.  Without storage there is nothing to write to. -/
def write (o : Object) (slot : Nat) (v : StoredValue) : Object :=
  match o.storage with
  | some address => { o with arrays := o.arrays.modify address fun values => values.set slot v }
  | none => o

def writeAll (o : Object) (writes : List (Nat × StoredValue)) : Object :=
  writes.foldl (fun o w => o.write w.1 w.2) o

/-- The values of an array after some writes. -/
def written (values : Container) (writes : List (Nat × StoredValue)) : Container :=
  writes.foldl (fun values w => values.set w.1 w.2) values

variable (o : Object) (slot : Nat) (v : StoredValue) (l : StorageLayout)

@[simp] theorem storage_write : (o.write slot v).storage = o.storage := by
  unfold write
  split <;> simp_all

@[simp] theorem length_arrays_write : (o.write slot v).arrays.length = o.arrays.length := by
  unfold write
  split <;> simp

@[simp] theorem values?_write :
    (o.write slot v).values? = o.values?.map fun values => values.set slot v := by
  unfold write values?
  cases hstorage : o.storage with
  | none => simp [hstorage]
  | some address => simp

theorem writeAll_spec (writes : List (Nat × StoredValue)) : ∀ o : Object,
    (o.writeAll writes).storage = o.storage ∧
      (o.writeAll writes).arrays.length = o.arrays.length ∧
      (o.writeAll writes).values? = o.values?.map fun values => written values writes := by
  induction writes with
  | nil => simp [writeAll, written]
  | cons w writes ih =>
      intro o
      obtain ⟨hstorage, hlength, hvalues⟩ := ih (o.write w.1 w.2)
      refine ⟨hstorage.trans (by simp), hlength.trans (by simp), hvalues.trans ?_⟩
      rw [values?_write, Option.map_map]
      rfl

@[simp] theorem isSome_storage_provided : (o.provided l).storage.isSome = true := by
  unfold provided
  split
  · assumption
  · rfl

theorem provided_of_isSome {o : Object} (h : o.storage.isSome = true) : o.provided l = o :=
  if_pos h

theorem provided_of_none {o : Object} (h : o.storage = none) :
    o.provided l = o.allocated (Container.allocate l) :=
  if_neg (by simp [h])

@[simp] theorem values?_allocated (values : Container) :
    (o.allocated values).values? = some values := by
  simp [values?, allocated]

end Object

end Reshape.Host
