/-!
# Configuration

The names that redefinition introduces, and what it does with a field whose access flags have
changed.
-/

namespace Reshape

/-- What becomes of a field whose flags changed in more than the static bit. -/
inductive AccessPolicy
  /-- The field counts as added and the old one as removed. -/
  | treatAsNew
  /-- The redefinition fails. -/
  | reject
  deriving DecidableEq, Repr

structure Config where
  /-- The hidden field that holds the added fields of an object. -/
  storageName : String := "$hotfield_data"
  storageDescriptor : String := "[Ljava/lang/Object;"
  /-- What the names of generated accessor classes start with; a number follows. -/
  accessorStem : String := "org/hotfield/proxy/FieldProxy$"
  /-- What follows the owner's name in the names of generated holders, before a number. -/
  holderMark : String := "$StaticFieldHolder$"
  accessPolicy : AccessPolicy := .treatAsNew
  deriving DecidableEq, Repr

end Reshape
