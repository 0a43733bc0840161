import Reshape.ClassFile.Format
import Reshape.ClassFile.Site
import Reshape.Redefinition.Error

/-!
# Generated classes

A field that cannot be added to the loaded class is declared by a class generated for it.  The
holder of a static field takes over its value, so the field is public and static there; the
accessor class of an instance field declares the field as it is, for reflection to report.
-/

namespace Reshape.Generated

def rootClass : String := "java/lang/Object"

open Access in
/-- A public class whose only member is a copy of a field, with other flags. -/
def singleField (majorVersion : UInt16) (name : String) (access : FieldAccess) (source : Pool)
    (f : Field) : Except BuildError ClassFile := do
  let c ← ClassFile.create majorVersion ⟨accPublic ||| accSuper⟩ name rootClass
  let fill : ClassEdit Unit := do
    let (fieldName, descriptor) ←
      ClassEdit.ofExcept ((f.identityIn source).mapError BuildError.format)
    let position ← ClassFile.declareField access fieldName descriptor
    Site.edit (.ofField position) (Labelling.copyMetadata source f.attributes)
  match fill c with
  | .ok _ c => return c
  | .error e _ => throw e

open Access in
/-- The flags of a holder's field: some of those of the field it holds, and always public and
static. -/
def holderAccess (a : FieldAccess) : FieldAccess :=
  let kept := accVolatile ||| accTransient ||| accSynthetic ||| accEnum
  Access.withBits ⟨a.raw &&& kept⟩ (accPublic ||| accStatic)

def holder (majorVersion : UInt16) (name : String) (source : Pool) (f : Field) :
    Except BuildError ClassFile :=
  singleField majorVersion name (holderAccess f.access) source f

def accessor (majorVersion : UInt16) (name : String) (source : Pool) (f : Field) :
    Except BuildError ClassFile :=
  singleField majorVersion name f.access source f

end Reshape.Generated
