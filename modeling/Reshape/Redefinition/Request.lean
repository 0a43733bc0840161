import Reshape.Access

/-!
# Requests to other classes

A redefinition moves fields, and the code that uses them has to follow.  It asks for that with
one request for every added instance field, every added static field and every removed field.
-/

namespace Reshape

/-- An added instance field, kept in one slot of its owner's storage. -/
structure AddedField where
  ordinal : Nat
  name : String
  descriptor : String
  owner : String
  loader : String
  deriving DecidableEq, Repr

/-- An added static field, kept under its own name in a holder class. -/
structure StaticRedirect where
  owner : String
  holder : String
  name : String
  descriptor : String
  loader : String
  deriving DecidableEq, Repr

/-- A field that is declared still but should not be used any more. -/
structure RemovedField where
  owner : String
  name : String
  descriptor : String
  access : FieldAccess
  loader : String
  deriving DecidableEq, Repr

/-- All requests so far, each kind in the order of arrival. -/
structure Requests where
  added : List AddedField := []
  redirected : List StaticRedirect := []
  removed : List RemovedField := []
  deriving DecidableEq, Repr

namespace Requests

def isEmpty (r : Requests) : Bool :=
  r.added.isEmpty && r.redirected.isEmpty && r.removed.isEmpty

/-- The requests of `r` and then those of `s`. -/
def append (r s : Requests) : Requests :=
  ⟨r.added ++ s.added, r.redirected ++ s.redirected, r.removed ++ s.removed⟩

instance : Append Requests := ⟨append⟩

end Requests

end Reshape
