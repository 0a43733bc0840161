import Reshape.Bytes.BigEndian
import Reshape.Redefinition.Error

/-!
# Definitions of generated classes

The store keeps the bytes of every generated class under the loader scope and the name, and
counts the names it has given away, so that it never gives away a number twice.
-/

namespace Reshape

structure Definition where
  scope : String
  name : String
  bytes : Bytes
  deriving DecidableEq, Repr

/-- Generated classes, oldest first, and the number of names drawn. -/
structure Store where
  definitions : List Definition := []
  drawn : Nat := 0
  deriving DecidableEq, Repr

namespace Store

/-- The next name with the given stem. -/
def nextName (s : Store) (stem : String) : String × Store :=
  (stem ++ toString s.drawn, { s with drawn := s.drawn + 1 })

def load? (s : Store) (scope name : String) : Option Bytes :=
  (s.definitions.find? fun d => d.scope == scope && d.name == name).map Definition.bytes

def contains (s : Store) (scope name : String) : Bool := (s.load? scope name).isSome

/-- Keeps a definition; a name is taken once and for all. -/
def save (s : Store) (d : Definition) : Except NameClash Store :=
  if s.contains d.scope d.name then .error (.definition d.scope d.name)
  else .ok { s with definitions := s.definitions ++ [d] }

def size (s : Store) : Nat := s.definitions.length

def isEmpty (s : Store) : Bool := s.definitions.isEmpty

/-- The names in a scope, in the order of their characters. -/
def namesIn (s : Store) (scope : String) : List String :=
  ((s.definitions.filter (·.scope == scope)).map Definition.name).mergeSort
    fun a b => decide (a ≤ b)

end Store

end Reshape
