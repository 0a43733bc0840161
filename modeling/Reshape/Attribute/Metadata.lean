import Reshape.Attribute.Annotations
import Reshape.Part

/-!
# Copying metadata

The visible annotations and the generic signature of a member can be copied to a member of
another class; every constant they use is interned into the pool of that class.
-/

namespace Reshape

/-- An attribute list under edit, with the pool of its class. -/
structure Labelled where
  pool : Pool
  attributes : List Attribute
  deriving DecidableEq, Repr

/-- An edit of an attribute list, which may fail half-way. -/
abbrev Labelling (α : Type) := EStateM BuildError Labelled α

namespace Labelling

/-- Replaces the attributes; constants interned before a failure stay. -/
def edit (change : List Attribute → Interning (List Attribute)) : Labelling Unit := do
  let attributes ← onPart Labelled.pool (fun s pool => { s with pool })
    (change (← get).attributes)
  modify fun s => { s with attributes }

def ofFormat {α : Type} : Except FormatError α → Labelling α
  | .ok a => pure a
  | .error e => throw (.format e)

/-- Copies annotations and then the signature, each if there is one. -/
def copyMetadata (sourcePool : Pool) (source : List Attribute) : Labelling Unit := do
  match ← ofFormat (AnnotationUse.visible? sourcePool source) with
  | some annotations => edit (AnnotationUse.setVisible annotations)
  | none => pure ()
  match ← ofFormat (Attribute.signature? sourcePool source) with
  | some signature => edit (Attribute.setSignature signature)
  | none => pure ()

end Labelling

end Reshape
