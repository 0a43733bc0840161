import Reshape.ClassFile.Basic

/-!
# Field schemas

The fields of a class as the host knows them, in order.  A normal field is declared by the
loaded class, a removed one is declared still but no longer reported, and a fake one is reported
but kept in a generated class.
-/

namespace Reshape

inductive FieldKind
  | normal
  | removed
  /-- The field is backed by a generated class. -/
  | fake (proxy : String)
  deriving DecidableEq, Repr

structure SchemaField where
  name : String
  descriptor : String
  access : FieldAccess
  kind : FieldKind
  deriving DecidableEq, Repr

namespace SchemaField

def isNormal (f : SchemaField) : Bool := f.kind matches .normal

def isFake (f : SchemaField) : Bool := f.kind matches .fake _

/-- Whether the field has the given name and descriptor. -/
def isNamed (f : SchemaField) (name descriptor : String) : Bool :=
  f.name == name && f.descriptor == descriptor

/-- The same field after its class stopped declaring it. -/
def toRemoved (f : SchemaField) : SchemaField := { f with kind := .removed }

end SchemaField

structure Schema where
  className : String
  fields : List SchemaField
  deriving DecidableEq, Repr

namespace Schema

/-- The fields a class declares, all of them normal. -/
def ofClass (c : ClassFile) : Except FormatError Schema := do
  let fields ← c.fields.mapM fun f => do
    let (name, descriptor) ← f.identityIn c.pool
    return SchemaField.mk name descriptor f.access .normal
  return ⟨← c.name, fields⟩

def find? (s : Schema) (name descriptor : String) : Option SchemaField :=
  s.fields.find? (·.isNamed name descriptor)

def fakeFields (s : Schema) : List SchemaField := s.fields.filter SchemaField.isFake

/-- The fields that reflection reports: neither removed ones nor the storage field. -/
def visibleFields (s : Schema) (storageName : String) : List SchemaField :=
  s.fields.filter fun f =>
    match f.kind with
    | .normal => f.name != storageName
    | .removed => false
    | .fake _ => true

end Schema

end Reshape
