import Reshape.Error

/-!
# The constant pool

A pool is a sequence of slots, numbered from zero.  Slot zero holds no constant, and a long or
double constant is followed by a slot that holds none.  Floating-point constants are kept as bit
patterns, so equal constants are equal bit by bit.  The look-ups below follow references through
the pool and report the first one that leads astray.
-/

namespace Reshape

inductive Constant
  /-- No constant: slot zero and the second slot of a wide constant. -/
  | unused
  | utf8 (text : String)
  | integer (value : Int32)
  | float (bits : UInt32)
  | long (value : Int64)
  | double (bits : UInt64)
  | classRef (name : UInt16)
  | stringRef (text : UInt16)
  | fieldRef (owner nameAndType : UInt16)
  | methodRef (owner nameAndType : UInt16)
  | interfaceMethodRef (owner nameAndType : UInt16)
  | nameAndType (name descriptor : UInt16)
  | methodHandle (kind : UInt8) (reference : UInt16)
  | methodType (descriptor : UInt16)
  | dynamic (bootstrap nameAndType : UInt16)
  | invokeDynamic (bootstrap nameAndType : UInt16)
  | moduleRef (name : UInt16)
  | packageRef (name : UInt16)
  deriving DecidableEq, Repr

/-- Whether the constant takes two slots. -/
def Constant.isWide : Constant → Bool
  | .long _ | .double _ => true
  | _ => false

def Constant.slots (c : Constant) : Nat := if c.isWide then 2 else 1

structure Pool where
  slots : Array Constant
  deriving DecidableEq, Repr

/-- A field or method reference with everything it names looked up. -/
structure MemberRef where
  owner : String
  name : String
  descriptor : String
  deriving DecidableEq, Repr

namespace Pool

def empty : Pool := ⟨#[.unused]⟩

/-- The most slots a pool may have; the count is stored in sixteen bits. -/
def maxSlots : Nat := 65535

def size (p : Pool) : Nat := p.slots.size

/-- Whether the pool holds no constant. -/
def isEmpty (p : Pool) : Bool := p.slots.size ≤ 1

/-- The pool with the constant at its end; a wide one takes a second slot. -/
def push (p : Pool) (c : Constant) : Pool :=
  ⟨if c.isWide then (p.slots.push c).push .unused else p.slots.push c⟩

/-- The content of a slot; the slots past the end hold no constant. -/
def slot (p : Pool) (index : UInt16) : Constant := p.slots.getD index.toNat .unused

def constant (p : Pool) (index : UInt16) : Except FormatError Constant :=
  match p.slot index with
  | .unused => .error (.invalidConstantIndex index .any)
  | c => .ok c

def utf8 (p : Pool) (index : UInt16) : Except FormatError String :=
  match p.slot index with
  | .utf8 text => .ok text
  | _ => .error (.invalidConstantIndex index .utf8)

def className (p : Pool) (index : UInt16) : Except FormatError String :=
  match p.slot index with
  | .classRef name => p.utf8 name
  | _ => .error (.invalidConstantIndex index .classRef)

def integer (p : Pool) (index : UInt16) : Except FormatError Int32 :=
  match p.slot index with
  | .integer value => .ok value
  | _ => .error (.invalidConstantIndex index .integer)

/-- A name and a descriptor. -/
def nameAndType (p : Pool) (index : UInt16) : Except FormatError (String × String) :=
  match p.slot index with
  | .nameAndType name descriptor => do
    let name ← p.utf8 name
    let descriptor ← p.utf8 descriptor
    return (name, descriptor)
  | _ => .error (.invalidConstantIndex index .nameAndType)

/-- A reference to a field or method; the name is looked up before the owner. -/
def memberRef (p : Pool) (index : UInt16) : Except FormatError MemberRef :=
  let resolve (owner nameAndType : UInt16) : Except FormatError MemberRef := do
    let (name, descriptor) ← p.nameAndType nameAndType
    let owner ← p.className owner
    return ⟨owner, name, descriptor⟩
  match p.slot index with
  | .fieldRef owner nat => resolve owner nat
  | .methodRef owner nat => resolve owner nat
  | .interfaceMethodRef owner nat => resolve owner nat
  | _ => .error (.invalidConstantIndex index .member)

/-- The descriptor of a dynamically computed constant or call site. -/
def dynamicDescriptor (p : Pool) (index : UInt16) : Except FormatError String :=
  match p.slot index with
  | .dynamic _ nat => (p.nameAndType nat).map Prod.snd
  | .invokeDynamic _ nat => (p.nameAndType nat).map Prod.snd
  | _ => .error (.invalidConstantIndex index .dynamic)

end Pool

end Reshape
