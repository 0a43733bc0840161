import Reshape.Access
import Reshape.Attribute.Metadata
import Reshape.Code.Body
import Reshape.Code.ConstructorCall

/-!
# Fields and methods

A member has flags, a name, a descriptor and attributes; name and descriptor are references into
the pool of its class.  The body of a method is one of its attributes.
-/

namespace Reshape

structure Member (carrier : Carrier) where
  access : Access carrier
  name : UInt16
  descriptor : UInt16
  attributes : List Attribute
  deriving DecidableEq, Repr

abbrev Field := Member .ofField

abbrev Method := Member .ofMethod

namespace Member

variable {carrier : Carrier}

/-- A member without attributes. -/
def declare (access : Access carrier) (name descriptor : String) :
    Interning (Member carrier) := do
  let name ← Pool.addUtf8 name
  let descriptor ← Pool.addUtf8 descriptor
  return ⟨access, name, descriptor, []⟩

def nameIn (pool : Pool) (m : Member carrier) : Except FormatError String := pool.utf8 m.name

def descriptorIn (pool : Pool) (m : Member carrier) : Except FormatError String :=
  pool.utf8 m.descriptor

/-- Name and descriptor. -/
def identityIn (pool : Pool) (m : Member carrier) : Except FormatError (String × String) := do
  let name ← m.nameIn pool
  let descriptor ← m.descriptorIn pool
  return (name, descriptor)

/-- The position of the first member with a name and descriptor.  Descriptors are looked up only
where the name fits. -/
def position? (pool : Pool) (name descriptor : String) (position : Nat) :
    List (Member carrier) → Except FormatError (Option Nat)
  | [] => .ok none
  | m :: rest =>
    match m.nameIn pool with
    | .error e => .error e
    | .ok n =>
      if n = name then
        match m.descriptorIn pool with
        | .error e => .error e
        | .ok d =>
          if d = descriptor then .ok (some position)
          else position? pool name descriptor (position + 1) rest
      else position? pool name descriptor (position + 1) rest

/-- The members with one more at the end, unless one of its name and descriptor is there. -/
def add (pool : Pool) (members : List (Member carrier)) (m : Member carrier) :
    Except BuildError (List (Member carrier)) := do
  let (name, descriptor) ← (m.identityIn pool).mapError BuildError.format
  match ← (position? pool name descriptor 0 members).mapError BuildError.format with
  | some _ => throw (.duplicateMember name descriptor)
  | none => return members ++ [m]

/-! ## Stored form -/

def read : Reader FormatError (Member carrier) := do
  let access ← Reader.u16
  let name ← Reader.u16
  let descriptor ← Reader.u16
  let attributes ← Attribute.readAll
  return ⟨⟨access⟩, name, descriptor, attributes⟩

open BigEndian in
def encode (m : Member carrier) : Except BuildError Bytes := do
  let attributes ← Attribute.encodeAll m.attributes
  return u16 m.access.raw ++ u16 m.name ++ u16 m.descriptor ++ attributes

/-- A counted table of members. -/
def encodeAll (table : Table) (members : List (Member carrier)) : Except BuildError Bytes := do
  let count ← table.count members.length
  let encoded ← members.mapM encode
  return count ++ encoded.flatten

end Member

namespace Method

def isConstructor (pool : Pool) (m : Method) : Except FormatError Bool := do
  return (← m.nameIn pool) == ConstructorCall.constructorName

/-- The body, which abstract and native methods lack. -/
def body? (pool : Pool) (m : Method) : Except FormatError (Option Body) := do
  match ← Attribute.find? pool Attribute.codeName m.attributes with
  | none => return none
  | some a => return some (← Body.parse a.payload)

def setBody (b : Body) (m : Method) : Interning Method := do
  let payload ← Interning.ofExcept b.encode
  return { m with attributes := ← Attribute.set Attribute.codeName payload m.attributes }

end Method

end Reshape
