import Reshape.Attribute.Basic

/-!
# Annotations

An annotation names its interface and gives values to some of its elements.  In this form it
does not depend on a pool, so it can be moved from one class to another: reading resolves every
reference, and writing interns every constant, in the order in which it is written.
-/

namespace Reshape

/-! ## §1 Values -/

inductive ElementValue
  | byte (value : Int32)
  | char (value : Int32)
  | short (value : Int32)
  | boolean (value : Int32)
  | int (value : Int32)
  | long (value : Int64)
  | float (bits : UInt32)
  | double (bits : UInt64)
  | text (value : String)
  | enumConstant (type name : String)
  /-- The descriptor of a class literal, `V` for none. -/
  | classLiteral (descriptor : String)
  | nested (type : String) (elements : List (String × ElementValue))
  | array (values : List ElementValue)

structure AnnotationUse where
  /-- The descriptor of the annotation interface. -/
  type : String
  elements : List (String × ElementValue)

namespace ElementValue

def tag : ElementValue → Char
  | byte _ => 'B'
  | char _ => 'C'
  | short _ => 'S'
  | boolean _ => 'Z'
  | int _ => 'I'
  | long _ => 'J'
  | float _ => 'F'
  | double _ => 'D'
  | text _ => 's'
  | enumConstant _ _ => 'e'
  | classLiteral _ => 'c'
  | nested _ _ => '@'
  | array _ => '['

/-! ## §2 Reading -/

/-- Reads an index and resolves it. -/
def resolved {α : Type} (look : UInt16 → Except FormatError α) : Reader FormatError α := do
  Reader.ofExcept id (look (← Reader.u16))

def longConstant (pool : Pool) (index : UInt16) : Except FormatError Int64 := do
  match ← pool.constant index with
  | .long value => return value
  | _ => throw (.invalidConstantIndex index .long)

def floatConstant (pool : Pool) (index : UInt16) : Except FormatError UInt32 := do
  match ← pool.constant index with
  | .float bits => return bits
  | _ => throw (.invalidConstantIndex index .float)

def doubleConstant (pool : Pool) (index : UInt16) : Except FormatError UInt64 := do
  match ← pool.constant index with
  | .double bits => return bits
  | _ => throw (.invalidConstantIndex index .double)

/-- Reads one value.  Every level of nesting takes at least a tag, so a `depth` of the number
of bytes at hand is never used up. -/
def read (pool : Pool) : Nat → Reader FormatError ElementValue
  | 0 => do
    let tag ← Reader.u8
    throw (.invalidElementValueTag tag)
  | depth + 1 => do
    let tag ← Reader.u8
    match Char.ofNat tag.toNat with
    | 'B' => return byte (← resolved pool.integer)
    | 'C' => return char (← resolved pool.integer)
    | 'S' => return short (← resolved pool.integer)
    | 'Z' => return boolean (← resolved pool.integer)
    | 'I' => return int (← resolved pool.integer)
    | 'J' => return long (← resolved (longConstant pool))
    | 'F' => return float (← resolved (floatConstant pool))
    | 'D' => return double (← resolved (doubleConstant pool))
    | 's' => return text (← resolved pool.utf8)
    | 'e' => return enumConstant (← resolved pool.utf8) (← resolved pool.utf8)
    | 'c' => return classLiteral (← resolved pool.utf8)
    | '@' => do
      let type ← resolved pool.utf8
      let element : Reader FormatError (String × ElementValue) := do
        let name ← resolved pool.utf8
        let value ← read pool depth
        return (name, value)
      return nested type (← Reader.counted element)
    | '[' => return array (← Reader.counted (read pool depth))
    | _ => throw (.invalidElementValueTag tag)

/-! ## §3 Writing -/

/-- Appends the index of a constant. -/
def index (constant : Interning UInt16) (out : Array UInt8) : Interning (Array UInt8) := do
  return out ++ BigEndian.u16 (← constant)

/-- Appends the number of items that follow. -/
def count (table : Table) (n : Nat) (out : Array UInt8) : Interning (Array UInt8) := do
  return out ++ (← Interning.ofExcept (table.count n))

mutual

/-- Appends one value to what is written so far. -/
def write (out : Array UInt8) : ElementValue → Interning (Array UInt8)
  | byte value => index (Pool.addInteger value) (out.push 66)
  | char value => index (Pool.addInteger value) (out.push 67)
  | short value => index (Pool.addInteger value) (out.push 83)
  | boolean value => index (Pool.addInteger value) (out.push 90)
  | int value => index (Pool.addInteger value) (out.push 73)
  | long value => index (Pool.addLong value) (out.push 74)
  | float bits => index (Pool.addFloat bits) (out.push 70)
  | double bits => index (Pool.addDouble bits) (out.push 68)
  | text value => index (Pool.addUtf8 value) (out.push 115)
  | enumConstant type name => do
    index (Pool.addUtf8 name) (← index (Pool.addUtf8 type) (out.push 101))
  | classLiteral descriptor => index (Pool.addUtf8 descriptor) (out.push 99)
  | nested type elements => do
    let out ← index (Pool.addUtf8 type) (out.push 64)
    let out ← count .annotationElements elements.length out
    writeElements out elements
  | array values => do
    let out ← count .arrayElements values.length (out.push 91)
    writeValues out values

def writeElements (out : Array UInt8) :
    List (String × ElementValue) → Interning (Array UInt8)
  | [] => pure out
  | (name, value) :: rest => do
    let out ← index (Pool.addUtf8 name) out
    let out ← write out value
    writeElements out rest

def writeValues (out : Array UInt8) : List ElementValue → Interning (Array UInt8)
  | [] => pure out
  | value :: rest => do
    let out ← write out value
    writeValues out rest

end

end ElementValue

/-! ## §4 Annotation lists -/

namespace AnnotationUse

def read (pool : Pool) (depth : Nat) : Reader FormatError AnnotationUse := do
  let type ← ElementValue.resolved pool.utf8
  let element : Reader FormatError (String × ElementValue) := do
    let name ← ElementValue.resolved pool.utf8
    let value ← ElementValue.read pool depth
    return (name, value)
  return ⟨type, ← Reader.counted element⟩

/-- The annotations of a payload, which must hold nothing else. -/
def readAll (pool : Pool) (payload : Bytes) : Except FormatError (List AnnotationUse) :=
  let reader : Reader FormatError (List AnnotationUse) := do
    let annotations ← Reader.counted (read pool payload.length)
    match ← Reader.unread with
    | 0 => return annotations
    | n => throw (.trailingBytes .visibleAnnotations n)
  reader.runOn payload

def write (out : Array UInt8) (a : AnnotationUse) : Interning (Array UInt8) := do
  let out ← ElementValue.index (Pool.addUtf8 a.type) out
  let out ← ElementValue.count .annotationElements a.elements.length out
  ElementValue.writeElements out a.elements

def encodeAll (annotations : List AnnotationUse) : Interning Bytes := do
  let count ← Interning.ofExcept (Table.annotations.count annotations.length)
  let out ← annotations.foldlM write count.toArray
  return out.toList

/-- The annotations visible at run time, if the attribute is there. -/
def visible? (pool : Pool) (attributes : List Attribute) :
    Except FormatError (Option (List AnnotationUse)) := do
  match ← Attribute.find? pool Attribute.visibleAnnotationsName attributes with
  | none => return none
  | some a => return some (← readAll pool a.payload)

def setVisible (annotations : List AnnotationUse) (attributes : List Attribute) :
    Interning (List Attribute) := do
  let payload ← encodeAll annotations
  Attribute.set Attribute.visibleAnnotationsName payload attributes

end AnnotationUse

end Reshape
