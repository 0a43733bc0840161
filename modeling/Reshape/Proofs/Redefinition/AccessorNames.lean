import Reshape.Proofs.Attribute.Constants
import Reshape.Proofs.ClassFile.Lossless
import Reshape.Proofs.Redefinition.Block
import Reshape.Proofs.Redefinition.GeneratedClasses

/-!
# Accessor classes under other names

The name of an accessor class is a matter of which names have been drawn before.  Under another name
the class comes out the same, with one exception: a pool that has no room left may have some under a
name that is among its texts already.  But the class that a pass stores has to hold all that its
accessor classes hold and more, so there is room in these whenever a pass succeeds.
-/

namespace Reshape

open Interning

/-! ## §1 The pool of a generated class -/

namespace Labelling

/-- The attributes with the visible annotations of another class, if there are any. -/
def annotated (source : Pool) (attributes l : List Attribute) : Interning (List Attribute) := do
  match ← Interning.ofFormat (AnnotationUse.visible? source attributes) with
  | some annotations => AnnotationUse.setVisible annotations l
  | none => return l

/-- The attributes with the signature of another class, if there is one. -/
def signed (source : Pool) (attributes l : List Attribute) : Interning (List Attribute) := do
  match ← Interning.ofFormat (Attribute.signature? source attributes) with
  | some signature => Attribute.setSignature signature l
  | none => return l

end Labelling

namespace Generated

/-- The pool of a class that is about to declare its first field. -/
def headed (name : String) : Pool :=
  ⟨#[.unused, .utf8 name, .classRef 1, .utf8 rootClass, .classRef 3]⟩

/-- The stored form of a class that is generated for a field. -/
def stored (majorVersion : UInt16) (name : String) (access : FieldAccess) (source : Pool)
    (f : Field) : Except BuildError Bytes := do
  (← singleField majorVersion name access source f).encode

/-- A name that a class other than the root of all classes can have. -/
structure Nameable (name : String) : Prop where
  notRoot : name ≠ rootClass
  short : (Constant.utf8 name).isTooLong = false

/-- A pool that has what an accessor class takes from the new definition, and the constants by which
the storage field is accessed. -/
structure Covers (p source : Pool) : Prop where
  wellFormed : p.WellFormed
  size : p.size ≤ Pool.maxSlots
  source : ∀ c ∈ source.slots.toList, c ∈ p.slots.toList
  root : .utf8 rootClass ∈ p.slots.toList
  classRef : ∃ i, .classRef i ∈ p.slots.toList
  nameAndType : ∃ i j, .nameAndType i j ∈ p.slots.toList
  fieldRef : ∃ i j, .fieldRef i j ∈ p.slots.toList

/-- The constants of a pool that refer to no others. -/
def alone (p : Pool) : Finset Constant := p.slots.toList.toFinset.filter (·.standsAlone)

theorem mem_alone {p : Pool} {c : Constant} :
    c ∈ alone p ↔ c ∈ p.slots.toList ∧ c.standsAlone = true := by
  rw [alone, Finset.mem_filter, List.mem_toFinset]

open Finset in
theorem Covers.room {p source : Pool} (h : Covers p source) (name : String) :
    ∑ c ∈ (headed name).slots.toList.toFinset ∪ alone p, c.slots ≤ Pool.maxSlots := by
  obtain ⟨i, hclass⟩ := h.classRef
  obtain ⟨j, k, hpair⟩ := h.nameAndType
  obtain ⟨j', k', hfield⟩ := h.fieldRef
  let shared : Finset Constant := insert .unused (insert (.utf8 rootClass) (alone p))
  have hunused : .unused ∈ p.slots.toList := by
    obtain ⟨cs, -, hslots⟩ := h.wellFormed
    rw [hslots]
    exact List.mem_cons_self
  have hheaded : (headed name).slots.toList.toFinset ∪ alone p ⊆
      insert (.utf8 name) (insert (.classRef 1) (insert (.classRef 3) shared)) := by
    intro c hc
    simp only [headed, mem_union, List.mem_toFinset, List.mem_cons, List.not_mem_nil, or_false,
      mem_insert, shared] at hc ⊢
    tauto
  have hpool : insert (.classRef i) (insert (.nameAndType j k) (insert (.fieldRef j' k') shared)) ⊆
      p.slots.toList.toFinset := by
    intro c hc
    simp only [mem_insert, shared, mem_alone, List.mem_toFinset] at hc ⊢
    rcases hc with rfl | rfl | rfl | rfl | rfl | hc
    · exact hclass
    · exact hpair
    · exact hfield
    · exact hunused
    · exact h.root
    · exact hc.1
  have hthree : ∑ c ∈ insert (.classRef i) (insert (.nameAndType j k)
      (insert (.fieldRef j' k') shared)), c.slots = 3 + ∑ c ∈ shared, c.slots := by
    have hother {c : Constant} (hc : c.standsAlone = false) : c ∉ alone p := by
      simp [mem_alone, hc]
    have hclass : .classRef i ∉ alone p := hother rfl
    have hpair : .nameAndType j k ∉ alone p := hother rfl
    have hfield : .fieldRef j' k' ∉ alone p := hother rfl
    rw [sum_insert (by simp [shared, hclass]), sum_insert (by simp [shared, hpair]),
      sum_insert (by simp [shared, hfield])]
    show 1 + (1 + (1 + _)) = _
    omega
  calc ∑ c ∈ (headed name).slots.toList.toFinset ∪ alone p, c.slots
      ≤ ∑ c ∈ insert (.utf8 name) (insert (.classRef 1) (insert (.classRef 3) shared)), c.slots :=
        sum_le_sum_of_subset hheaded
    _ ≤ 1 + (1 + (1 + ∑ c ∈ shared, c.slots)) := by
        refine (Pool.sum_insert_le _ _).trans (Nat.add_le_add_left ?_ 1)
        refine (Pool.sum_insert_le _ _).trans (Nat.add_le_add_left ?_ 1)
        exact Pool.sum_insert_le _ _
    _ = ∑ c ∈ insert (.classRef i) (insert (.nameAndType j k) (insert (.fieldRef j' k') shared)),
          c.slots := by rw [hthree]; omega
    _ ≤ p.need := sum_le_sum_of_subset hpool
    _ ≤ p.size := h.wellFormed.need_le
    _ ≤ Pool.maxSlots := h.size

end Generated

end Reshape
