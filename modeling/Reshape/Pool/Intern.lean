import Reshape.Pool.Constant

/-!
# Adding constants

A constant is added at most once: asking for one that is present gives the index of its first
slot.  Compound constants add their parts first.  When a step does not fit any more, what was
added before it stays, so these actions carry the pool along also when they fail.
-/

namespace Reshape

/-- An action that may add constants to a pool. -/
abbrev Interning (α : Type) := EStateM BuildError Pool α

namespace Interning

/-- Takes over a result that leaves the pool alone. -/
def ofExcept {α : Type} : Except BuildError α → Interning α
  | .ok a => pure a
  | .error e => throw e

/-- Takes over a reading of some definition. -/
def ofFormat {α : Type} : Except FormatError α → Interning α
  | .ok a => pure a
  | .error e => throw (.format e)

/-- Reads the pool as it stands. -/
def reading {α : Type} (look : Pool → Except FormatError α) : Interning α := do
  ofFormat (look (← get))

end Interning

namespace Pool

/-- The first slot that holds the constant. -/
def find? (p : Pool) (c : Constant) : Option UInt16 :=
  (p.slots.findIdx? (· == c)).map UInt16.ofNat

/-- The index of a constant, which is added if need be. -/
def intern (c : Constant) : Interning UInt16 := fun p =>
  match p.find? c with
  | some index => .ok index p
  | none =>
    if p.size + c.slots ≤ maxSlots then .ok (UInt16.ofNat p.size) (p.push c)
    else .error .poolOverflow p

def addUtf8 (text : String) : Interning UInt16 := intern (.utf8 text)

def addClass (name : String) : Interning UInt16 := do
  intern (.classRef (← addUtf8 name))

def addString (text : String) : Interning UInt16 := do
  intern (.stringRef (← addUtf8 text))

def addInteger (value : Int32) : Interning UInt16 := intern (.integer value)

def addFloat (bits : UInt32) : Interning UInt16 := intern (.float bits)

def addLong (value : Int64) : Interning UInt16 := intern (.long value)

def addDouble (bits : UInt64) : Interning UInt16 := intern (.double bits)

def addNameAndType (name descriptor : String) : Interning UInt16 := do
  let name ← addUtf8 name
  let descriptor ← addUtf8 descriptor
  intern (.nameAndType name descriptor)

def addFieldRef (m : MemberRef) : Interning UInt16 := do
  let owner ← addClass m.owner
  let nameAndType ← addNameAndType m.name m.descriptor
  intern (.fieldRef owner nameAndType)

def addMethodRef (m : MemberRef) : Interning UInt16 := do
  let owner ← addClass m.owner
  let nameAndType ← addNameAndType m.name m.descriptor
  intern (.methodRef owner nameAndType)

end Pool

end Reshape
