import Reshape.ClassFile.Basic
import Reshape.Redefinition.Error

/-!
# Annotations for reflection

For every field two answers are kept: the annotations the loaded field carries, which a
redefined class must keep, and those the newest definition declares, which reflection reports.
-/

namespace Reshape

/-- The annotations of one field; absent if it has no such attribute. -/
structure FieldAnnotations where
  owner : String
  name : String
  descriptor : String
  annotations : Option (List AnnotationUse)

namespace FieldAnnotations

/-- The first entry for a field. -/
def find? (entries : List FieldAnnotations) (owner name descriptor : String) :
    Option FieldAnnotations :=
  entries.find? fun e => e.owner == owner && e.name == name && e.descriptor == descriptor

end FieldAnnotations

/-- Looks up the annotations a loaded field carries. -/
abbrev AnnotationSource :=
  String → String → String → Except LookupError (Option (List AnnotationUse))

/-- Both answers, newest first. -/
structure Reflection where
  loaded : List FieldAnnotations := []
  recorded : List FieldAnnotations := []

namespace Reflection

/-- The annotations a loaded field carries. -/
def source (r : Reflection) : AnnotationSource := fun owner name descriptor =>
  match FieldAnnotations.find? r.loaded owner name descriptor with
  | some e => .ok e.annotations
  | none => .error (.fieldNotFound owner name descriptor)

/-- Whether a definition of the field has been recorded. -/
def isRecorded (r : Reflection) (owner name descriptor : String) : Bool :=
  (FieldAnnotations.find? r.recorded owner name descriptor).isSome

/-- The annotations the newest definition declares. -/
def declared? (r : Reflection) (owner name descriptor : String) :
    Option (List AnnotationUse) :=
  (FieldAnnotations.find? r.recorded owner name descriptor).bind FieldAnnotations.annotations

def record (e : FieldAnnotations) (r : Reflection) : Reflection :=
  { r with recorded := e :: r.recorded }

/-- Enters the fields of a loaded class one by one; those before a faulty one stay entered. -/
def enterFields (owner : String) (pool : Pool) : List Field → EStateM FormatError Reflection Unit
  | [] => pure ()
  | f :: rest => do
    let annotations ← ofFormat (AnnotationUse.visible? pool f.attributes)
    let (name, descriptor) ← ofFormat (f.identityIn pool)
    modify fun r => { r with loaded := ⟨owner, name, descriptor, annotations⟩ :: r.loaded }
    enterFields owner pool rest
where
  /-- Takes over a reading of the class. -/
  ofFormat {α : Type} : Except FormatError α → EStateM FormatError Reflection α
    | .ok a => pure a
    | .error e => throw e

def enterClass (c : ClassFile) : EStateM FormatError Reflection Unit := do
  match c.name with
  | .ok owner => enterFields owner c.pool c.fields
  | .error e => throw e

end Reflection

end Reshape
