import Reshape.Attribute.Basic

/-!
# Method bodies

The content of a `Code` attribute: limits, the code itself, its exception handlers and nested
attributes, among them the tables that map code offsets to source lines and to local variables.
The two tables ignore what follows their entries.
-/

namespace Reshape

/-! ## §1 Exception handlers -/

structure Handler where
  start : UInt16
  /-- Where the protected range ends; the offset itself is not protected. -/
  stop : UInt16
  target : UInt16
  /-- The class of the exceptions caught, zero for all. -/
  catchType : UInt16
  deriving DecidableEq, Repr

namespace Handler

def read : Reader FormatError Handler := do
  return ⟨← Reader.u16, ← Reader.u16, ← Reader.u16, ← Reader.u16⟩

open BigEndian in
def encode (h : Handler) : Bytes := u16 h.start ++ u16 h.stop ++ u16 h.target ++ u16 h.catchType

end Handler

/-! ## §2 The body -/

structure Body where
  maxStack : UInt16
  maxLocals : UInt16
  code : Array UInt8
  handlers : List Handler
  attributes : List Attribute
  deriving DecidableEq, Repr

namespace Body

/-- The largest size of code that can be written. -/
def maxCode : Nat := 65535

def reader : Reader FormatError Body := do
  let maxStack ← Reader.u16
  let maxLocals ← Reader.u16
  let code ← Reader.prefixed32
  let handlers ← Reader.counted Handler.read
  let attributes ← Attribute.readAll
  match ← Reader.unread with
  | 0 => return ⟨maxStack, maxLocals, code.toArray, handlers, attributes⟩
  | n => throw (.trailingBytes .code n)

def parse (payload : Bytes) : Except FormatError Body := reader.runOn payload

def encode (b : Body) : Except BuildError Bytes := do
  if maxCode < b.code.size then throw (.codeTooLarge b.code.size)
  let handlers ← Table.exceptionHandlers.encode Handler.encode b.handlers
  let attributes ← Attribute.encodeAll b.attributes
  return BigEndian.u16 b.maxStack ++ BigEndian.u16 b.maxLocals ++
    BigEndian.u32 (UInt32.ofNat b.code.size) ++ b.code.toList ++ handlers ++ attributes

end Body

/-! ## §3 Source lines -/

/-- From `start` on the code comes from source line `line`. -/
structure LineNumber where
  start : UInt16
  line : UInt16
  deriving DecidableEq, Repr

namespace LineNumber

def read : Reader FormatError LineNumber := do return ⟨← Reader.u16, ← Reader.u16⟩

def encode (l : LineNumber) : Bytes := BigEndian.u16 l.start ++ BigEndian.u16 l.line

def parseAll (payload : Bytes) : Except FormatError (List LineNumber) :=
  (Reader.counted read).runOn payload

def encodeAll (lines : List LineNumber) : Except BuildError Bytes :=
  Table.lineNumbers.encode encode lines

end LineNumber

/-! ## §4 Local variables -/

/-- A named local variable; in the table of generic types the descriptor is a signature. -/
structure LocalVariable where
  start : UInt16
  length : UInt16
  name : UInt16
  descriptor : UInt16
  index : UInt16
  deriving DecidableEq, Repr

namespace LocalVariable

def read : Reader FormatError LocalVariable := do
  return ⟨← Reader.u16, ← Reader.u16, ← Reader.u16, ← Reader.u16, ← Reader.u16⟩

open BigEndian in
def encode (v : LocalVariable) : Bytes :=
  u16 v.start ++ u16 v.length ++ u16 v.name ++ u16 v.descriptor ++ u16 v.index

def parseAll (payload : Bytes) : Except FormatError (List LocalVariable) :=
  (Reader.counted read).runOn payload

def encodeAll (entries : List LocalVariable) : Except BuildError Bytes :=
  Table.localVariables.encode encode entries

end LocalVariable

end Reshape
