import Reshape.ClassFile.Member

/-!
# Class files

A class file is a pool with everything that refers to it: the class and its superclass, the
interfaces, fields, methods and attributes.
-/

namespace Reshape

structure ClassFile where
  minorVersion : UInt16
  majorVersion : UInt16
  pool : Pool
  access : ClassAccess
  thisClass : UInt16
  superClass : UInt16
  interfaces : List UInt16
  fields : List Field
  methods : List Method
  attributes : List Attribute
  deriving DecidableEq, Repr

/-- An edit of a class, which may fail half-way. -/
abbrev ClassEdit (α : Type) := EStateM BuildError ClassFile α

namespace ClassEdit

/-- Interns constants into the pool of the class. -/
def interning {α : Type} (action : Interning α) : ClassEdit α :=
  onPart ClassFile.pool (fun c pool => { c with pool }) action

def ofExcept {α : Type} : Except BuildError α → ClassEdit α
  | .ok a => pure a
  | .error e => throw e

/-- Takes over a reading of the class as it stands. -/
def reading {α : Type} (look : ClassFile → Except FormatError α) : ClassEdit α := do
  ofExcept ((look (← get)).mapError BuildError.format)

end ClassEdit

namespace ClassFile

/-- A class without members. -/
def create (majorVersion : UInt16) (access : ClassAccess) (name superName : String) :
    Except BuildError ClassFile :=
  let constants : Interning (UInt16 × UInt16) := do
    let thisClass ← Pool.addClass name
    let superClass ← Pool.addClass superName
    return (thisClass, superClass)
  match constants Pool.empty with
  | .ok (thisClass, superClass) pool =>
    .ok ⟨0, majorVersion, pool, access, thisClass, superClass, [], [], [], []⟩
  | .error e _ => .error e

/-- The first major version whose verifier wants stack map frames. -/
def stackMapVersion : UInt16 := 50

def requiresStackMap (c : ClassFile) : Bool := stackMapVersion ≤ c.majorVersion

def name (c : ClassFile) : Except FormatError String := c.pool.className c.thisClass

/-- The superclass; only the root of all classes has none. -/
def superName? (c : ClassFile) : Except FormatError (Option String) :=
  if c.superClass = 0 then .ok none else (c.pool.className c.superClass).map some

def findField? (c : ClassFile) (name descriptor : String) : Except FormatError (Option Nat) :=
  Member.position? c.pool name descriptor 0 c.fields

def findMethod? (c : ClassFile) (name descriptor : String) : Except FormatError (Option Nat) :=
  Member.position? c.pool name descriptor 0 c.methods

/-- Adds a field at the end and returns its position; a class declares no two fields with the
same name and descriptor. -/
def addField (f : Field) : ClassEdit Nat := do
  let c ← get
  let fields ← ClassEdit.ofExcept (Member.add c.pool c.fields f)
  set { c with fields }
  return c.fields.length

def addMethod (m : Method) : ClassEdit Nat := do
  let c ← get
  let methods ← ClassEdit.ofExcept (Member.add c.pool c.methods m)
  set { c with methods }
  return c.methods.length

/-- Declares a field without attributes and adds it. -/
def declareField (access : FieldAccess) (name descriptor : String) : ClassEdit Nat := do
  addField (← ClassEdit.interning (Member.declare access name descriptor))

def declareMethod (access : MethodAccess) (name descriptor : String) : ClassEdit Nat := do
  addMethod (← ClassEdit.interning (Member.declare access name descriptor))

end ClassFile

end Reshape
