import Reshape.Pool.Format
import Reshape.Pool.Intern

/-!
# Attributes

An attribute is a named payload whose content is kept as it is, so that attributes nobody knows
survive.  Looking one up by name reads the names from the pool in order and stops at the first
that cannot be read.  Setting one replaces the first attribute whose name has the index of the
interned name, and otherwise appends.
-/

namespace Reshape

structure Attribute where
  name : UInt16
  payload : Bytes
  deriving DecidableEq, Repr

namespace Attribute

/-! ## §1 Names with a meaning -/

def codeName : String := "Code"
def stackMapTableName : String := "StackMapTable"
def lineNumberTableName : String := "LineNumberTable"
def localVariableTableName : String := "LocalVariableTable"
def localVariableTypeTableName : String := "LocalVariableTypeTable"
def signatureName : String := "Signature"
def visibleAnnotationsName : String := "RuntimeVisibleAnnotations"

/-! ## §2 Stored form -/

def read : Reader FormatError Attribute := do
  let name ← Reader.u16
  let payload ← Reader.prefixed32
  return ⟨name, payload⟩

def readAll : Reader FormatError (List Attribute) := Reader.counted read

def encode (a : Attribute) : Bytes :=
  BigEndian.u16 a.name ++ BigEndian.u32 (UInt32.ofNat a.payload.length) ++ a.payload

def encodeAll (attributes : List Attribute) : Except BuildError Bytes :=
  Table.attributes.encode encode attributes

/-! ## §3 Look-up and editing -/

/-- The first attribute of a name, with its position. -/
def locate? (pool : Pool) (name : String) (position : Nat) :
    List Attribute → Except FormatError (Option (Nat × Attribute))
  | [] => .ok none
  | a :: rest =>
    match pool.utf8 a.name with
    | .error e => .error e
    | .ok text => if text = name then .ok (some (position, a)) else locate? pool name (position + 1) rest

def find? (pool : Pool) (name : String) (attributes : List Attribute) :
    Except FormatError (Option Attribute) :=
  (locate? pool name 0 attributes).map (·.map Prod.snd)

/-- The attributes without the first one of a name, and that one. -/
def remove (pool : Pool) (name : String) (attributes : List Attribute) :
    Except FormatError (Option Attribute × List Attribute) :=
  match locate? pool name 0 attributes with
  | .error e => .error e
  | .ok none => .ok (none, attributes)
  | .ok (some (position, a)) => .ok (some a, attributes.eraseIdx position)

/-- The attributes with the first one that has the new one's name index replaced. -/
def put (a : Attribute) (attributes : List Attribute) : List Attribute :=
  match attributes.findIdx? (·.name == a.name) with
  | some position => attributes.set position a
  | none => attributes ++ [a]

def set (name : String) (payload : Bytes) (attributes : List Attribute) :
    Interning (List Attribute) := do
  return put ⟨← Pool.addUtf8 name, payload⟩ attributes

/-! ## §4 Generic signatures -/

/-- The text a signature attribute refers to. -/
def signature? (pool : Pool) (attributes : List Attribute) :
    Except FormatError (Option String) := do
  match ← find? pool signatureName attributes with
  | none => return none
  | some a => return some (← pool.utf8 (← Reader.u16.runOn a.payload))

def setSignature (signature : String) (attributes : List Attribute) :
    Interning (List Attribute) := do
  let index ← Pool.addUtf8 signature
  set signatureName (BigEndian.u16 index) attributes

end Attribute

end Reshape
