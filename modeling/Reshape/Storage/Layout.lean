import Reshape.Redefinition.Request
import Reshape.Storage.Value

/-!
# Storage

An object whose class gained instance fields keeps their values in one array, its container.  A
layout gives the type of every slot.  An accessor belongs to one slot of a layout; it reads the
initial value where an object has no container or too short a one, and writing through it
allocates or extends the container first.
-/

namespace Reshape

/-! ## §1 Layouts -/

structure StorageLayout where
  owner : String
  slots : List FieldType
  deriving DecidableEq, Repr

namespace StorageLayout

/-- Puts a record before the first one whose ordinal is not smaller. -/
def insertRecord (r : AddedField) : List AddedField → List AddedField
  | [] => [r]
  | next :: rest =>
    if r.ordinal ≤ next.ordinal then r :: next :: rest else next :: insertRecord r rest

/-- The records by ordinal; records of one ordinal keep their order. -/
def sortRecords (records : List AddedField) : List AddedField := records.foldr insertRecord []

/-- The slots of the added fields by ordinal. -/
def ofRecords? (owner : String) (records : List AddedField) :
    Except TypeFault StorageLayout := do
  return ⟨owner, ← (sortRecords records).mapM fun r => FieldType.ofDescriptor? r.descriptor⟩

def size (l : StorageLayout) : Nat := l.slots.length

def isEmpty (l : StorageLayout) : Bool := l.slots.isEmpty

/-- The initial values of the slots. -/
def initial (l : StorageLayout) : List StoredValue := l.slots.map StoredValue.initialOf

end StorageLayout

/-! ## §2 Containers -/

abbrev Container := List StoredValue

namespace Container

def allocate (l : StorageLayout) : Container := l.initial

def get (values : Container) (ordinal : Nat) : Except StorageFault StoredValue :=
  match values[ordinal]? with
  | some v => .ok v
  | none => .error (.slotOutOfRange ordinal values.length)

def put (c : Container) (ordinal : Nat) (v : StoredValue) : Except StorageFault Container :=
  if ordinal < c.length then .ok (c.set ordinal v)
  else .error (.slotOutOfRange ordinal c.length)

/-- The container with initial values in the slots that it lacks. -/
def extend (c : Container) (l : StorageLayout) : Container := c ++ l.initial.drop c.length

end Container

/-! ## §3 Accessors -/

structure Accessor where
  ordinal : Nat
  layout : StorageLayout
  deriving DecidableEq, Repr

namespace Accessor

def slotType (a : Accessor) : Except StorageFault FieldType :=
  match a.layout.slots[a.ordinal]? with
  | some t => .ok t
  | none => .error (.slotOutOfRange a.ordinal a.layout.size)

/-- The value of the field in an object with the given container. -/
def get (a : Accessor) (c : Option Container) : Except StorageFault StoredValue :=
  match a.slotType with
  | .error e => .error e
  | .ok t =>
    match c.bind fun values => values[a.ordinal]? with
    | some v => .ok v
    | none => .ok (StoredValue.initialOf t)

/-- The container of the object after the field is written. -/
def set (a : Accessor) (c : Option Container) (v : StoredValue) :
    Except StorageFault Container :=
  match a.slotType with
  | .error e => .error e
  | .ok t =>
    if v.fits t then
      Container.put ((c.getD (Container.allocate a.layout)).extend a.layout) a.ordinal v
    else .error (.typeMismatch a.ordinal t.descriptor v)

end Accessor

end Reshape
