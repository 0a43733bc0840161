import Reshape.Bytes.Cursor
import Reshape.Descriptor.MethodType

/-!
# Causes of failure

`FormatError` says what is wrong with a definition that is read, `BuildError` what keeps one
from being written or edited.  Each has one `message`; a build error that is really a format
error speaks with the format error's words.
-/

namespace Reshape

def ReadFault.message : ReadFault → String
  | .unexpectedEnd position wanted =>
    "unexpected end of data at " ++ toString position ++ ", wanted " ++ toString wanted ++
      " more byte(s)"
  | .invalidModifiedUtf8 position =>
    "invalid modified UTF-8 sequence at byte " ++ toString position

/-- The fault as a record inside another message. -/
def ReadFault.record : ReadFault → String
  | .unexpectedEnd position wanted =>
    Quoted.record "UnexpectedEof" [("position", toString position), ("wanted", toString wanted)]
  | .invalidModifiedUtf8 position =>
    Quoted.record "InvalidModifiedUtf8" [("position", toString position)]

/-! ## §1 Reading -/

/-- What a reference into the constant pool was expected to name. -/
inductive PoolKind
  | any | utf8 | integer | float | long | double | classRef | nameAndType | member | dynamic
  deriving DecidableEq, Repr

def PoolKind.text : PoolKind → String
  | .any => "any"
  | .utf8 => "Utf8"
  | .integer => "Integer"
  | .float => "Float"
  | .long => "Long"
  | .double => "Double"
  | .classRef => "Class"
  | .nameAndType => "NameAndType"
  | .member => "member reference"
  | .dynamic => "Dynamic"

/-- Structures that must end where their data ends. -/
inductive Section
  | classFile | code | stackMapTable | visibleAnnotations
  deriving DecidableEq, Repr

def Section.text : Section → String
  | .classFile => "ClassFile"
  | .code => "Code"
  | .stackMapTable => "StackMapTable"
  | .visibleAnnotations => "RuntimeVisibleAnnotations"

inductive FormatError
  | read (fault : ReadFault)
  | badMagic (magic : UInt32)
  | invalidConstantTag (index : Nat) (tag : UInt8)
  | invalidConstantIndex (index : UInt16) (expected : PoolKind)
  | typeDescriptor (fault : TypeFault)
  | methodDescriptor (fault : MethodFault)
  | invalidOpcode (offset : Nat) (opcode : UInt8)
  | truncatedInstruction (offset : Nat)
  | invalidElementValueTag (tag : UInt8)
  | invalidFrameType (tag : UInt8)
  | invalidVerificationType (tag : UInt8)
  /-- A frame takes away more locals than there are. -/
  | chopBelowLocals (frame : Nat)
  | trailingBytes (place : Section) (remaining : Nat)
  | inconsistentStackDepth (offset : Nat)
  | negativeStackDepth (offset : Nat)
  /-- The index of a slot leaves its sixteen bits: not an answer, but the end of the program where
  arithmetic is checked. -/
  | indexOverflow
  deriving DecidableEq, Repr

instance : OfReadFault FormatError := ⟨FormatError.read⟩

def FormatError.message : FormatError → String
  | .read fault => Quoted.tagged "Cursor" fault.record
  | .badMagic magic => Quoted.tagged "BadMagic" (toString magic.toNat)
  | .invalidConstantTag index tag =>
    Quoted.record "InvalidConstantTag" [("index", toString index), ("tag", toString tag.toNat)]
  | .invalidConstantIndex index expected =>
    Quoted.record "InvalidConstantIndex"
      [("index", toString index.toNat), ("expected", Quoted.text expected.text)]
  | .typeDescriptor fault => Quoted.tagged "TypeDescriptor" fault.message
  | .methodDescriptor fault => Quoted.tagged "MethodDescriptor" fault.message
  | .invalidOpcode offset opcode =>
    Quoted.record "InvalidOpcode"
      [("offset", toString offset), ("opcode", toString opcode.toNat)]
  | .truncatedInstruction offset =>
    Quoted.record "TruncatedInstruction" [("offset", toString offset)]
  | .invalidElementValueTag tag =>
    Quoted.tagged "InvalidElementValueTag" (toString tag.toNat)
  | .invalidFrameType tag => Quoted.tagged "InvalidStackMapFrameType" (toString tag.toNat)
  | .invalidVerificationType tag =>
    Quoted.tagged "InvalidVerificationType" (toString tag.toNat)
  | .chopBelowLocals frame => Quoted.record "ChopBelowLocals" [("frame", toString frame)]
  | .trailingBytes place remaining =>
    Quoted.record "TrailingBytes"
      [("attribute", Quoted.text place.text), ("remaining", toString remaining)]
  | .inconsistentStackDepth offset =>
    Quoted.record "InconsistentStackDepth" [("offset", toString offset)]
  | .negativeStackDepth offset =>
    Quoted.record "NegativeStackDepth" [("offset", toString offset)]
  | .indexOverflow => "attempt to add with overflow"

/-! ## §2 Building -/

/-- Tables whose length is stored in sixteen bits. -/
inductive Table
  | interfaces | fields | methods | attributes | exceptionHandlers | lineNumbers | localVariables
  | frames | frameLocals | frameStack | annotations | annotationElements | arrayElements
  | utf8Bytes | addedFields
  deriving DecidableEq, Repr

def Table.text : Table → String
  | .interfaces => "interfaces"
  | .fields => "fields"
  | .methods => "methods"
  | .attributes => "attributes"
  | .exceptionHandlers => "exception handlers"
  | .lineNumbers => "line numbers"
  | .localVariables => "local variables"
  | .frames => "stack map frames"
  | .frameLocals => "frame locals"
  | .frameStack => "frame stack items"
  | .annotations => "annotations"
  | .annotationElements => "annotation elements"
  | .arrayElements => "array element values"
  | .utf8Bytes => "utf8 bytes"
  | .addedFields => "added fields"

inductive BuildError
  | format (error : FormatError)
  | poolOverflow
  | tooManyItems (table : Table) (count : Nat)
  | codeTooLarge (size : Nat)
  | branchOffsetOverflow (offset : Nat) (target : Int)
  | invalidInsertionPoint (offset : Nat)
  /-- A switch would lose the alignment of its operands. -/
  | misalignedSwitch (offset gap : Nat)
  | duplicateMember (name descriptor : String)
  | constructorCallNotFound (method : String)
  deriving DecidableEq, Repr

/-- How two members of one name and descriptor are reported. -/
def duplicateMessage (name descriptor : String) : String :=
  "duplicate member " ++ name ++ ":" ++ descriptor

def BuildError.message : BuildError → String
  | .format error => error.message
  | .poolOverflow => "ConstantPoolOverflow"
  | .tooManyItems table count =>
    Quoted.record "TooManyItems" [("what", Quoted.text table.text), ("count", toString count)]
  | .codeTooLarge size => Quoted.tagged "CodeTooLarge" (toString size)
  | .branchOffsetOverflow offset target =>
    Quoted.record "BranchOffsetOverflow"
      [("offset", toString offset), ("target", toString target)]
  | .invalidInsertionPoint offset => Quoted.tagged "InvalidInsertionPoint" (toString offset)
  | .misalignedSwitch offset gap =>
    Quoted.record "MisalignedSwitch" [("offset", toString offset), ("gap", toString gap)]
  | .duplicateMember name descriptor => duplicateMessage name descriptor
  | .constructorCallNotFound method =>
    Quoted.record "ConstructorCallNotFound" [("method", Quoted.text method)]

/-- The count field of a table, which must fit sixteen bits. -/
def Table.count (table : Table) (n : Nat) : Except BuildError Bytes :=
  if n < 65536 then .ok (BigEndian.u16 (UInt16.ofNat n)) else .error (.tooManyItems table n)

/-- A counted table: its length and then its items. -/
def Table.encode {α : Type} (table : Table) (item : α → Bytes) (items : List α) :
    Except BuildError Bytes :=
  match table.count items.length with
  | .ok count => .ok (count ++ items.flatMap item)
  | .error e => .error e

end Reshape
