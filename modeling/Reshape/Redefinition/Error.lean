import Reshape.Access
import Reshape.Error

/-!
# Why a redefinition fails

A redefinition that fails changes nothing but the generated names that are used up.  Two
generated classes of one name would be a clash; generated names do not repeat, so a clash is a
broken invariant and not a refusal.
-/

namespace Reshape

/-- The loaded class or one of its fields could not be looked up. -/
inductive LookupError
  | classNotFound (name : String)
  | fieldNotFound (owner name descriptor : String)
  | denied (reason : String)
  deriving DecidableEq, Repr

def LookupError.message : LookupError → String
  | .classNotFound name => "class " ++ name ++ " not found"
  | .fieldNotFound owner name descriptor =>
    "field " ++ owner ++ "." ++ name ++ ":" ++ descriptor ++ " not found"
  | .denied reason => "lookup denied: " ++ reason

inductive RedefineError
  | lookup (error : LookupError)
  /-- The flags of a field changed in more than the static bit, and that is to be refused. -/
  | accessChange (owner name descriptor : String) (before after : FieldAccess)
  | format (error : FormatError)
  | construction (error : BuildError)
  | duplicate (name descriptor : String)
  deriving DecidableEq, Repr

namespace RedefineError

def message : RedefineError → String
  | lookup error => error.message
  | accessChange owner name descriptor before after =>
    "access flags of " ++ owner ++ "." ++ name ++ ":" ++ descriptor ++ " changed from " ++
      before.render ++ " to " ++ after.render
  | format error => "malformed class: " ++ error.message
  | construction error => "cannot build class: " ++ error.message
  | duplicate name descriptor => duplicateMessage name descriptor

/-- A failure to build is reported for what it is about. -/
def ofBuild : BuildError → RedefineError
  | .duplicateMember name descriptor => duplicate name descriptor
  | .format error => format error
  | error => construction error

def ofType (fault : TypeFault) : RedefineError := format (.typeDescriptor fault)

end RedefineError

/-- Two generated things of one name. -/
inductive NameClash
  | definition (scope name : String)
  | accessor (name : String)
  deriving DecidableEq, Repr

def NameClash.message : NameClash → String
  | .definition scope name =>
    "proxy definition " ++ name ++ " already saved for loader " ++ scope
  | .accessor name => "field accessor " ++ name ++ " registered twice"

end Reshape
