import Reshape.Proofs.Attribute.Metadata
import Reshape.Proofs.Pool.Room

/-!
# The constants of annotations

Every value of an annotation is a constant or is made of some.  Annotations that were read have all
of theirs in the pool they were read from, and writing them adds these constants and no others.
-/

namespace Reshape

open Interning

/-! ## §1 Constants of values -/

namespace ElementValue

mutual

def constants : ElementValue → List Constant
  | byte value | char value | short value | boolean value | int value => [.integer value]
  | long value => [.long value]
  | float bits => [.float bits]
  | double bits => [.double bits]
  | text value => [.utf8 value]
  | enumConstant type name => [.utf8 type, .utf8 name]
  | classLiteral descriptor => [.utf8 descriptor]
  | nested type elements => .utf8 type :: constantsOfElements elements
  | array values => constantsOfValues values

def constantsOfElements : List (String × ElementValue) → List Constant
  | [] => []
  | (name, value) :: rest => .utf8 name :: (constants value ++ constantsOfElements rest)

def constantsOfValues : List ElementValue → List Constant
  | [] => []
  | value :: rest => constants value ++ constantsOfValues rest

end

end ElementValue

def AnnotationUse.constants (a : AnnotationUse) : List Constant :=
  .utf8 a.type :: ElementValue.constantsOfElements a.elements

/-- Whether the constant refers to no others. -/
def Constant.standsAlone : Constant → Bool
  | .utf8 _ | .integer _ | .float _ | .long _ | .double _ => true
  | _ => false

namespace ElementValue

mutual

theorem standsAlone_of_mem : ∀ (v : ElementValue), ∀ c ∈ v.constants, c.standsAlone = true
  | .byte _ | .char _ | .short _ | .boolean _ | .int _ | .long _ | .float _ | .double _ | .text _
  | .classLiteral _ => by
      simp only [constants, List.forall_mem_singleton]
      rfl
  | .enumConstant _ _ => by
      simp only [constants, List.forall_mem_cons]
      exact ⟨rfl, rfl, nofun⟩
  | .nested _ elements => by
      simp only [constants, List.forall_mem_cons]
      exact ⟨rfl, standsAlone_of_mem_elements elements⟩
  | .array values => by
      simp only [constants]
      exact standsAlone_of_mem_values values

theorem standsAlone_of_mem_elements :
    ∀ l, ∀ c ∈ constantsOfElements l, c.standsAlone = true
  | [] => nofun
  | (name, value) :: rest => by
      simp only [constantsOfElements, List.forall_mem_cons, List.forall_mem_append]
      exact ⟨rfl, standsAlone_of_mem value, standsAlone_of_mem_elements rest⟩

theorem standsAlone_of_mem_values : ∀ l, ∀ c ∈ constantsOfValues l, c.standsAlone = true
  | [] => nofun
  | value :: rest => by
      simp only [constantsOfValues, List.forall_mem_append]
      exact ⟨standsAlone_of_mem value, standsAlone_of_mem_values rest⟩

end

end ElementValue

theorem AnnotationUse.standsAlone_of_mem {a : AnnotationUse} :
    ∀ c ∈ a.constants, c.standsAlone = true := by
  rw [constants, List.forall_mem_cons]
  exact ⟨rfl, ElementValue.standsAlone_of_mem_elements a.elements⟩

/-! ## §2 Writing -/

namespace ElementValue

theorem adds_index {K : Constant → Prop} {constant : Interning UInt16} (h : constant.Adds K)
    (out : Array UInt8) : Adds K (index constant out) :=
  .bind h fun _ => .pure _

theorem adds_count {K : Constant → Prop} (table : Table) (n : Nat) (out : Array UInt8) :
    Adds K (count table n out) := by
  refine .bind (.ofExcept ?_) fun _ => .pure _
  unfold Table.count
  split
  · exact nofun
  · exact nofun

mutual

theorem adds_write {K : Constant → Prop} (out : Array UInt8) :
    ∀ v : ElementValue, (∀ c ∈ v.constants, K c) → Adds K (write out v)
  | .byte _, h | .char _, h | .short _, h | .boolean _, h | .int _, h | .long _, h | .float _, h
  | .double _, h | .text _, h | .classLiteral _, h => by
      simp only [write]
      exact adds_index (.intern (h _ (by simp [constants]))) _
  | .enumConstant type name, h => by
      simp only [write]
      exact .bind (adds_index (.addUtf8 (h _ (by simp [constants]))) _) fun _ =>
        adds_index (.addUtf8 (h _ (by simp [constants]))) _
  | .nested type elements, h => by
      simp only [write, constants, List.forall_mem_cons] at h ⊢
      exact .bind (adds_index (.addUtf8 h.1) _) fun _ => .bind (adds_count _ _ _) fun out =>
        adds_writeElements out elements h.2
  | .array values, h => by
      simp only [write, constants] at h ⊢
      exact .bind (adds_count _ _ _) fun out => adds_writeValues out values h

theorem adds_writeElements {K : Constant → Prop} (out : Array UInt8) :
    ∀ l, (∀ c ∈ constantsOfElements l, K c) → Adds K (writeElements out l)
  | [], _ => by
      simp only [writeElements]
      exact .pure out
  | (name, value) :: rest, h => by
      simp only [writeElements, constantsOfElements, List.forall_mem_cons,
        List.forall_mem_append] at h ⊢
      exact .bind (adds_index (.addUtf8 h.1) out) fun out =>
        .bind (adds_write out value h.2.1) fun out => adds_writeElements out rest h.2.2

theorem adds_writeValues {K : Constant → Prop} (out : Array UInt8) :
    ∀ l, (∀ c ∈ constantsOfValues l, K c) → Adds K (writeValues out l)
  | [], _ => by
      simp only [writeValues]
      exact .pure out
  | value :: rest, h => by
      simp only [writeValues, constantsOfValues, List.forall_mem_append] at h ⊢
      exact .bind (adds_write out value h.1) fun out => adds_writeValues out rest h.2

end

theorem together_index {constant constant' : Interning UInt16} (h : constant.Together constant')
    (out out' : Array UInt8) : (index constant out).Together (index constant' out') :=
  .bind h fun _ _ => .pure _ _

theorem together_count (table : Table) (n : Nat) (out out' : Array UInt8) :
    (count table n out).Together (count table n out') :=
  .bind (.ofExcept _) fun _ _ => .pure _ _

mutual

theorem together_write (out out' : Array UInt8) : ∀ v, (write out v).Together (write out' v)
  | .byte _ | .char _ | .short _ | .boolean _ | .int _ | .long _ | .float _ | .double _
  | .text _ | .classLiteral _ => by
      simp only [write]
      exact together_index (.intern _) _ _
  | .enumConstant type name => by
      simp only [write]
      exact .bind (together_index (.addUtf8 type) _ _) fun _ _ =>
        together_index (.addUtf8 name) _ _
  | .nested type elements => by
      simp only [write]
      exact .bind (together_index (.addUtf8 type) _ _) fun _ _ =>
        .bind (together_count _ _ _ _) fun out out' => together_writeElements out out' elements
  | .array values => by
      simp only [write]
      exact .bind (together_count _ _ _ _) fun out out' => together_writeValues out out' values

theorem together_writeElements (out out' : Array UInt8) :
    ∀ l, (writeElements out l).Together (writeElements out' l)
  | [] => by
      simp only [writeElements]
      exact .pure out out'
  | (name, value) :: rest => by
      simp only [writeElements]
      exact .bind (together_index (.addUtf8 name) out out') fun out out' =>
        .bind (together_write out out' value) fun out out' =>
          together_writeElements out out' rest

theorem together_writeValues (out out' : Array UInt8) :
    ∀ l, (writeValues out l).Together (writeValues out' l)
  | [] => by
      simp only [writeValues]
      exact .pure out out'
  | value :: rest => by
      simp only [writeValues]
      exact .bind (together_write out out' value) fun out out' =>
        together_writeValues out out' rest

end

end ElementValue

namespace Attribute

end Attribute

namespace AnnotationUse

theorem adds_write {K : Constant → Prop} {a : AnnotationUse} (h : ∀ c ∈ a.constants, K c)
    (out : Array UInt8) : Adds K (write out a) := by
  rw [constants, List.forall_mem_cons] at h
  exact .bind (ElementValue.adds_index (.addUtf8 h.1) _) fun _ =>
    .bind (ElementValue.adds_count _ _ _) fun out => ElementValue.adds_writeElements out _ h.2

end AnnotationUse

/-! ## §3 Reading -/

section Looked

variable {p : Pool} {i : UInt16}

theorem Pool.mem_of_slot {c : Constant} (h : p.slot i = c) (hc : c ≠ .unused) :
    c ∈ p.slots.toList := by
  rw [Pool.slot_eq] at h
  cases hslot : p.slots.toList[i.toNat]? with
  | none =>
      rw [hslot] at h
      exact absurd h.symm hc
  | some d =>
      rw [hslot, Option.getD_some] at h
      exact h ▸ List.mem_of_getElem? hslot

theorem Pool.mem_of_utf8 {text : String} (h : p.utf8 i = .ok text) :
    .utf8 text ∈ p.slots.toList :=
  List.mem_of_getElem? (Pool.slot_of_utf8 h)

theorem Pool.mem_of_integer {value : Int32} (h : p.integer i = .ok value) :
    .integer value ∈ p.slots.toList := by
  unfold Pool.integer at h
  split at h
  · next hslot =>
    cases h
    exact Pool.mem_of_slot hslot nofun
  · cases h

theorem Pool.mem_of_constant {c : Constant} (h : p.constant i = .ok c) : c ∈ p.slots.toList := by
  unfold Pool.constant at h
  split at h
  · cases h
  · next hunused =>
    rw [← Except.ok.inj h]
    exact Pool.mem_of_slot rfl hunused

end Looked

namespace ElementValue

variable {pool : Pool}

theorem mem_of_longConstant {i : UInt16} {value : Int64} (h : longConstant pool i = .ok value) :
    .long value ∈ pool.slots.toList := by
  obtain ⟨c, hc, h⟩ := except_bind_eq_ok.mp h
  have hmem := Pool.mem_of_constant hc
  cases c <;> cases h
  exact hmem

theorem mem_of_floatConstant {i : UInt16} {bits : UInt32} (h : floatConstant pool i = .ok bits) :
    .float bits ∈ pool.slots.toList := by
  obtain ⟨c, hc, h⟩ := except_bind_eq_ok.mp h
  have hmem := Pool.mem_of_constant hc
  cases c <;> cases h
  exact hmem

theorem mem_of_doubleConstant {i : UInt16} {bits : UInt64} (h : doubleConstant pool i = .ok bits) :
    .double bits ∈ pool.slots.toList := by
  obtain ⟨c, hc, h⟩ := except_bind_eq_ok.mp h
  have hmem := Pool.mem_of_constant hc
  cases c <;> cases h
  exact hmem

/-- What an index resolves to is made of a constant of the pool. -/
theorem finds_resolved {α : Type} {look : UInt16 → Except FormatError α} {P : α → Prop}
    (h : ∀ i a, look i = .ok a → P a) : Finds (resolved look) fun a _ => P a :=
  .bind .u16 fun i _ _ => .ofExcept fun a => h i a

theorem mem_constantsOfElements {elements : List (String × ElementValue)} {c : Constant} :
    c ∈ constantsOfElements elements ↔
      ∃ e ∈ elements, c = .utf8 e.1 ∨ c ∈ e.2.constants := by
  induction elements with
  | nil => simp [constantsOfElements]
  | cons e elements ih =>
      obtain ⟨name, value⟩ := e
      simp [constantsOfElements, ih, or_assoc]

theorem mem_constantsOfValues {values : List ElementValue} {c : Constant} :
    c ∈ constantsOfValues values ↔ ∃ v ∈ values, c ∈ v.constants := by
  induction values with
  | nil => simp [constantsOfValues]
  | cons v values ih => simp [constantsOfValues, ih]

/-- Each item of a counted row that was found has what every item that is read has. -/
theorem finds_counted {α : Type} {item : Reader FormatError α} {P : α → Prop}
    (h : Finds item fun a _ => P a) : Finds (Reader.counted item) fun as _ => ∀ a ∈ as, P a := by
  intro c as c' hread
  obtain ⟨bs, hrest, -⟩ := Finds.counted h c as c' hread
  refine ⟨bs, hrest, Reader.forall_of_counted (fun c a c' ha => ?_) hread⟩
  obtain ⟨-, -, hP⟩ := h c a c' ha
  exact hP

theorem finds_text : Finds (resolved pool.utf8) fun text _ => .utf8 text ∈ pool.slots.toList :=
  finds_resolved fun _ _ => Pool.mem_of_utf8

/-- Elements are made of constants of the pool when their values are. -/
theorem finds_elements {depth : Nat}
    (hvalues : Finds (read pool depth) fun v _ => ∀ c ∈ v.constants, c ∈ pool.slots.toList) :
    Finds (Reader.counted (readElement pool depth)) fun elements _ =>
      ∀ c ∈ constantsOfElements elements, c ∈ pool.slots.toList := by
  have element : Finds (readElement pool depth) fun e _ =>
      .utf8 e.1 ∈ pool.slots.toList ∧ ∀ c ∈ e.2.constants, c ∈ pool.slots.toList :=
    .bind finds_text fun name _ hname => .last hvalues fun value _ hvalue => ⟨hname, hvalue⟩
  intro start elements stop hread
  obtain ⟨bs, hrest, helements⟩ := finds_counted element start elements stop hread
  refine ⟨bs, hrest, fun c hc => ?_⟩
  obtain ⟨e, he, rfl | hc⟩ := mem_constantsOfElements.mp hc
  · exact (helements e he).1
  · exact (helements e he).2 c hc

theorem finds_read (pool : Pool) (depth : Nat) :
    Finds (read pool depth) fun v _ => ∀ c ∈ v.constants, c ∈ pool.slots.toList := by
  have hone {v : ElementValue} {c : Constant} (hv : v.constants = [c]) (hc : c ∈ pool.slots.toList) :
      ∀ c ∈ v.constants, c ∈ pool.slots.toList := by
    rw [hv, List.forall_mem_singleton]
    exact hc
  have number : Finds (resolved pool.integer) fun value _ => .integer value ∈ pool.slots.toList :=
    finds_resolved fun _ _ => Pool.mem_of_integer
  induction depth with
  | zero => exact .bind .u8 fun tag _ _ => .throw _
  | succ depth ih =>
      unfold read
      refine .bind .u8 fun tag _ _ => ?_
      split
      · exact .last number fun _ _ => hone rfl
      · exact .last number fun _ _ => hone rfl
      · exact .last number fun _ _ => hone rfl
      · exact .last number fun _ _ => hone rfl
      · exact .last number fun _ _ => hone rfl
      · exact .last (finds_resolved fun _ _ => mem_of_longConstant) fun _ _ => hone rfl
      · exact .last (finds_resolved fun _ _ => mem_of_floatConstant) fun _ _ => hone rfl
      · exact .last (finds_resolved fun _ _ => mem_of_doubleConstant) fun _ _ => hone rfl
      · exact .last finds_text fun _ _ => hone rfl
      · refine .bind finds_text fun type _ htype => .last finds_text fun name _ hname => ?_
        simp only [constants, List.forall_mem_cons]
        exact ⟨htype, hname, by simp⟩
      · exact .last finds_text fun _ _ => hone rfl
      · refine .bind finds_text fun type _ htype => .last (finds_elements ih)
          fun elements _ helements => ?_
        rw [constants, List.forall_mem_cons]
        exact ⟨htype, helements⟩
      · refine .last (finds_counted ih) fun values _ hvalues c hc => ?_
        rw [constants] at hc
        obtain ⟨v, hv, hc⟩ := mem_constantsOfValues.mp hc
        exact hvalues v hv c hc
      · exact .throw _

end ElementValue

namespace Attribute

variable {pool : Pool} {attributes : List Attribute}

end Attribute

namespace AnnotationUse

theorem finds_read (pool : Pool) (depth : Nat) :
    Finds (read pool depth) fun a _ => ∀ c ∈ a.constants, c ∈ pool.slots.toList := by
  refine .bind ElementValue.finds_text fun type _ htype =>
    .last (ElementValue.finds_elements (ElementValue.finds_read pool depth))
      fun elements _ helements => ?_
  rw [constants, List.forall_mem_cons]
  exact ⟨htype, helements⟩

end AnnotationUse

end Reshape
