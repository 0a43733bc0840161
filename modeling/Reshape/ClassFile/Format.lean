import Reshape.ClassFile.Basic

/-!
# The class file format

A class file starts with a fixed word and the version, then comes the pool, and everything else
in counted tables.  Nothing may follow the class's own attributes.
-/

namespace Reshape.ClassFile

/-- The word at the start of every class file. -/
def magic : UInt32 := 0xCAFEBABE

def reader : Reader FormatError ClassFile := do
  let word ← Reader.u32
  if word ≠ magic then throw (.badMagic word)
  let minorVersion ← Reader.u16
  let majorVersion ← Reader.u16
  let pool ← Pool.read
  let access ← Reader.u16
  let thisClass ← Reader.u16
  let superClass ← Reader.u16
  let interfaces ← Reader.counted Reader.u16
  let fields ← Reader.counted Member.read
  let methods ← Reader.counted Member.read
  let attributes ← Attribute.readAll
  match ← Reader.unread with
  | 0 =>
    return ⟨minorVersion, majorVersion, pool, ⟨access⟩, thisClass, superClass, interfaces, fields,
      methods, attributes⟩
  | n => throw (.trailingBytes .classFile n)

def parse (data : Bytes) : Except FormatError ClassFile := reader.runOn data

open BigEndian in
def encode (c : ClassFile) : Except BuildError Bytes := do
  let pool ← c.pool.encode
  let interfaces ← Table.interfaces.encode u16 c.interfaces
  let fields ← Member.encodeAll .fields c.fields
  let methods ← Member.encodeAll .methods c.methods
  let attributes ← Attribute.encodeAll c.attributes
  return u32 magic ++ u16 c.minorVersion ++ u16 c.majorVersion ++ pool ++ u16 c.access.raw ++
    u16 c.thisClass ++ u16 c.superClass ++ interfaces ++ fields ++ methods ++ attributes

end Reshape.ClassFile
