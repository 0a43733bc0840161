import Reshape.Decimal.Layout
import Reshape.Descriptor.FieldType

/-!
# Stored values

The value of an added field is kept as an object: a primitive as its box, a reference as it is.
Bytes, characters, shorts and booleans are kept as integers.
-/

namespace Reshape

inductive StoredValue
  | integer (value : Int32)
  | long (value : Int64)
  | float (bits : UInt32)
  | double (bits : UInt64)
  | ref (address : Nat)
  | null
  deriving DecidableEq, Repr

/-- Why a stored value could not be read or written. -/
inductive StorageFault
  | slotOutOfRange (ordinal size : Nat)
  | typeMismatch (ordinal : Nat) (expected : String) (found : StoredValue)
  | unexpectedValue (expected : String) (found : StoredValue)
  | notAReference (found : StoredValue)
  deriving DecidableEq, Repr

namespace StoredValue

/-- The value as messages show it. -/
def render : StoredValue → String
  | .integer v => Quoted.tagged "Integer" (toString v.toInt)
  | .long v => Quoted.tagged "Long" (toString v.toInt)
  | .float bits => Quoted.tagged "Float" (Decimal.Layout.message.single bits)
  | .double bits => Quoted.tagged "Double" (Decimal.Layout.message.double bits)
  | .ref address => Quoted.tagged "Ref" (toString address)
  | .null => "Null"

def asInt : StoredValue → Except StorageFault Int32
  | .integer v => .ok v
  | v => .error (.unexpectedValue "int" v)

def asLong : StoredValue → Except StorageFault Int64
  | .long v => .ok v
  | v => .error (.unexpectedValue "long" v)

/-- The bits of a double. -/
def asDouble : StoredValue → Except StorageFault UInt64
  | .double bits => .ok bits
  | v => .error (.unexpectedValue "double" v)

/-- The address of a reference, none for null. -/
def asReference : StoredValue → Except StorageFault (Option Nat)
  | .ref address => .ok (some address)
  | .null => .ok none
  | v => .error (.notAReference v)

/-- Whether a field of the given type can hold the value. -/
def fits (v : StoredValue) : FieldType → Bool
  | .primitive .long => (v matches .long _)
  | .primitive .float => (v matches .float _)
  | .primitive .double => (v matches .double _)
  | .primitive _ => (v matches .integer _)
  | .object _ | .array _ => (v matches .ref _ | .null)

/-- What a field holds before it is first written. -/
def initialOf : FieldType → StoredValue
  | .primitive .long => .long 0
  | .primitive .float => .float 0
  | .primitive .double => .double 0
  | .primitive _ => .integer 0
  | .object _ | .array _ => .null

end StoredValue

def StorageFault.message : StorageFault → String
  | .slotOutOfRange ordinal size =>
    Quoted.record "SlotOutOfRange" [("ordinal", toString ordinal), ("len", toString size)]
  | .typeMismatch ordinal expected found =>
    Quoted.record "TypeMismatch"
      [("ordinal", toString ordinal), ("expected", Quoted.text expected), ("found", found.render)]
  | .unexpectedValue expected found =>
    Quoted.record "UnexpectedValue"
      [("expected", Quoted.text expected), ("found", found.render)]
  | .notAReference found => Quoted.tagged "NotAReference" found.render

end Reshape
