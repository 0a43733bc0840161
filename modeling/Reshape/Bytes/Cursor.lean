import Reshape.Bytes.BigEndian

/-!
# Reading bytes in order

A `Cursor` is the part of the data that is still to be read, with the number of bytes read
so far.  Every reader is built from `bytes`, which hands out exactly the number of bytes asked
for or fails and stays where it is.  A reader made of several steps keeps what its earlier
steps consumed when a later one fails.
-/

namespace Reshape

/-- Why raw data could not be read. -/
inductive ReadFault
  /-- The data ended `wanted` bytes too early, counted at `position`. -/
  | unexpectedEnd (position wanted : Nat)
  | invalidModifiedUtf8 (position : Nat)
  deriving DecidableEq, Repr

/-- Errors in which a read fault can be reported. -/
class OfReadFault (ε : Type) where
  ofReadFault : ReadFault → ε

instance : OfReadFault ReadFault := ⟨id⟩

export OfReadFault (ofReadFault)

structure Cursor where
  position : Nat
  rest : Bytes
  deriving DecidableEq, Repr

/-- A reading step: on failure the cursor that was reached is kept. -/
abbrev Reader (ε α : Type) := EStateM ε Cursor α

namespace Cursor

def start (data : Bytes) : Cursor := ⟨0, data⟩

def remaining (c : Cursor) : Nat := c.rest.length

def isEmpty (c : Cursor) : Bool := c.rest.isEmpty

end Cursor

namespace Reader

variable {ε α : Type}

/-- The value read from the front of `data`, whatever follows it. -/
def runOn (r : Reader ε α) (data : Bytes) : Except ε α :=
  match r (Cursor.start data) with
  | .ok a _ => .ok a
  | .error e _ => .error e

/-- The number of bytes still unread. -/
def unread : Reader ε Nat := fun c => .ok c.remaining c

/-- Takes over a result that needs no data. -/
def ofExcept {δ : Type} (inject : δ → ε) : Except δ α → Reader ε α
  | .ok a => pure a
  | .error e => throw (inject e)

variable [OfReadFault ε]

/-- Exactly `n` bytes; short data is left untouched. -/
def bytes (n : Nat) : Reader ε Bytes := fun c =>
  let taken := c.rest.take n
  if taken.length = n then .ok taken ⟨c.position + n, c.rest.drop n⟩
  else .error (ofReadFault (.unexpectedEnd c.position (n - taken.length))) c

def u8 : Reader ε UInt8 := do return UInt8.ofNat (BigEndian.value (← bytes 1))

def i8 : Reader ε Int8 := do return (← u8).toInt8

def u16 : Reader ε UInt16 := do return UInt16.ofNat (BigEndian.value (← bytes 2))

def i16 : Reader ε Int16 := do return (← u16).toInt16

def u32 : Reader ε UInt32 := do return UInt32.ofNat (BigEndian.value (← bytes 4))

def i32 : Reader ε Int32 := do return (← u32).toInt32

def u64 : Reader ε UInt64 := do return UInt64.ofNat (BigEndian.value (← bytes 8))

def i64 : Reader ε Int64 := do return (← u64).toInt64

/-- A 16-bit length and that many bytes. -/
def prefixed16 : Reader ε Bytes := do bytes (← u16).toNat

/-- A 32-bit length and that many bytes. -/
def prefixed32 : Reader ε Bytes := do bytes (← u32).toNat

omit [OfReadFault ε] in
/-- The readings of `n` more items after those already `done`, which are held in reverse. -/
def timesAfter (item : Reader ε α) : Nat → List α → Reader ε (List α)
  | 0, done => pure done.reverse
  | n + 1, done => do
    let a ← item
    timesAfter item n (a :: done)

/-- `n` items in a row. -/
def times (item : Reader ε α) (n : Nat) : Reader ε (List α) := timesAfter item n []

/-- A 16-bit count and that many items. -/
def counted (item : Reader ε α) : Reader ε (List α) := do times item (← u16).toNat

end Reader

end Reshape
