import Reshape.Proofs.Redefinition.Isolation

/-!
# A pool that is full under all names but one

The name of an accessor class is a constant of its pool.  An annotation whose values fill the rest
of that pool leaves room for the name only if the name is among the values.  Of the classes below,
which carry such an annotation, an accessor class can be stored as the very first one that is
generated and never later.
-/

namespace Reshape.FullPool

open Pool ElementValue

/-! ## §1 Rows of numbers -/

/-- The name of the accessor class that is generated first. -/
def firstName : String := "org/hotfield/proxy/FieldProxy$0"

/-- An annotation with the first name and with numbers. -/
def note (numbers : List Int32) : AnnotationUse :=
  ⟨"I", [("B", .array (.text firstName :: numbers.map .int))]⟩

/-- The texts of the class and the numbers of its annotation. -/
def pool (numbers : List Int32) : Pool :=
  ⟨(Constant.unused :: .utf8 "B" :: .classRef 1 :: .utf8 "I" ::
    .utf8 Attribute.visibleAnnotationsName :: .utf8 firstName :: .utf8 "$hotfield_data" ::
    .utf8 "[Ljava/lang/Object;" :: numbers.map .integer).toArray⟩

/-- The attributes of a field with the annotation. -/
def annotated (numbers : List Int32) : List Attribute :=
  match AnnotationUse.setVisible [note numbers] [] (pool numbers) with
  | .ok attributes _ => attributes
  | .error _ _ => []

/-- The field with the annotation. -/
def field (access : FieldAccess) (numbers : List Int32) : Field := ⟨access, 1, 3, annotated numbers⟩

/-- A field whose annotations cannot be read. -/
def faulty : Field := ⟨⟨1⟩, 3, 3, [⟨4, []⟩]⟩

section Family

variable {numbers : List Int32}

end Family

/-! ## §3 Accessor classes -/

open Generated

/-- The pool of an accessor class that has declared its field. -/
def declared (name : String) : Pool :=
  ⟨#[.unused, .utf8 name, .classRef 1, .utf8 rootClass, .classRef 3, .utf8 "B", .utf8 "I"]⟩

/-- A name that is no other text of the accessor class. -/
structure Distinct (name : String) : Prop extends Nameable name where
  fieldName : name ≠ "B"
  descriptor : name ≠ "I"
  attributeName : name ≠ Attribute.visibleAnnotationsName

section Accessor

variable {numbers : List Int32}

/-- The pool with the numbers at its end. -/
def filled (p : Pool) (numbers : List Int32) : Pool :=
  ⟨p.slots ++ numbers.map Constant.integer⟩

end Accessor

/-! ## §4 Passes -/

open Pass

section Passes

variable {numbers : List Int32} {s : Setting} {policy : AccessPolicy}
  (hs : s.config = { accessPolicy := policy })

include hs

end Passes

section Files

variable {numbers : List Int32}

variable (hlength : numbers.length < 65528)
include hlength

end Files

end Reshape.FullPool
