import Reshape.Descriptor.MethodType
import Reshape.Pool.Intern

/-!
# Stack map frames

A frame tells how the verifier's view of the local variables and the stack changes from the
frame before it.  Frames lie `delta + 1` bytes apart, the first one `delta` bytes from the start
of the code.  Small deltas of the two commonest changes are part of the frame's tag.
-/

namespace Reshape

/-! ## §1 Verification types -/

inductive VerificationType
  | top | integer | float | double | long | null | uninitializedThis
  /-- An object of the class with this constant. -/
  | object (constant : UInt16)
  /-- An object that the instruction at this offset has created. -/
  | uninitialized (offset : UInt16)
  deriving DecidableEq, Repr

namespace VerificationType

def read : Reader FormatError VerificationType := do
  let tag ← Reader.u8
  match tag.toNat with
  | 0 => return .top
  | 1 => return .integer
  | 2 => return .float
  | 3 => return .double
  | 4 => return .long
  | 5 => return .null
  | 6 => return .uninitializedThis
  | 7 => return .object (← Reader.u16)
  | 8 => return .uninitialized (← Reader.u16)
  | _ => throw (.invalidVerificationType tag)

def encode : VerificationType → Bytes
  | .top => [0]
  | .integer => [1]
  | .float => [2]
  | .double => [3]
  | .long => [4]
  | .null => [5]
  | .uninitializedThis => [6]
  | .object constant => 7 :: BigEndian.u16 constant
  | .uninitialized offset => 8 :: BigEndian.u16 offset

/-- The view of a value of a field type; classes are interned. -/
def ofFieldType (t : FieldType) : Interning VerificationType :=
  match t with
  | .primitive .long => pure .long
  | .primitive .double => pure .double
  | .primitive .float => pure .float
  | .primitive _ => pure .integer
  | t =>
    match t.className? with
    | some name => do return .object (← Pool.addClass name)
    | none => pure .top

end VerificationType

/-! ## §2 Frames -/

inductive FrameChange
  /-- The same locals and an empty stack. -/
  | same
  /-- The same locals and one stack item. -/
  | sameOneItem (item : VerificationType)
  /-- The last `count` locals are gone and the stack is empty. -/
  | chop (count : UInt8)
  /-- More locals and an empty stack. -/
  | append (locals : List VerificationType)
  /-- Everything anew. -/
  | full (locals stack : List VerificationType)
  deriving DecidableEq, Repr

structure Frame where
  delta : UInt16
  change : FrameChange
  deriving DecidableEq, Repr

namespace Frame

def read : Reader FormatError Frame := do
  let tag ← Reader.u8
  if tag < 64 then return ⟨tag.toUInt16, .same⟩
  else if tag < 128 then return ⟨(tag - 64).toUInt16, .sameOneItem (← VerificationType.read)⟩
  else if tag < 247 then throw (.invalidFrameType tag)
  else
    let delta ← Reader.u16
    if tag = 247 then return ⟨delta, .sameOneItem (← VerificationType.read)⟩
    else if tag < 251 then return ⟨delta, .chop (251 - tag)⟩
    else if tag = 251 then return ⟨delta, .same⟩
    else if tag < 255 then
      return ⟨delta, .append (← Reader.times VerificationType.read (tag - 251).toNat)⟩
    else
      let locals ← Reader.counted VerificationType.read
      let stack ← Reader.counted VerificationType.read
      return ⟨delta, .full locals stack⟩

/-- The largest delta that fits into a tag. -/
def maxTagDelta : UInt16 := 63

def encode (f : Frame) : Except BuildError Bytes :=
  let delta := BigEndian.u16 f.delta
  match f.change with
  | .same => .ok (if f.delta ≤ maxTagDelta then [f.delta.toUInt8] else 251 :: delta)
  | .sameOneItem item =>
    .ok ((if f.delta ≤ maxTagDelta then [64 + f.delta.toUInt8] else 247 :: delta) ++ item.encode)
  | .chop count => .ok ((251 - count) :: delta)
  | .append locals =>
    .ok ((251 + UInt8.ofNat locals.length) :: delta ++ locals.flatMap VerificationType.encode)
  | .full locals stack => do
    let locals ← Table.frameLocals.encode VerificationType.encode locals
    let stack ← Table.frameStack.encode VerificationType.encode stack
    return 255 :: delta ++ locals ++ stack

/-- The frames of a payload, which must hold nothing else. -/
def parseAll (payload : Bytes) : Except FormatError (List Frame) :=
  let reader : Reader FormatError (List Frame) := do
    let frames ← Reader.counted read
    match ← Reader.unread with
    | 0 => return frames
    | n => throw (.trailingBytes .stackMapTable n)
  reader.runOn payload

def encodeAll (frames : List Frame) : Except BuildError Bytes := do
  let count ← Table.frames.count frames.length
  let encoded ← frames.mapM encode
  return count ++ encoded.flatten

end Frame

end Reshape
