import Reshape.Proofs.Attribute.Annotations
import Reshape.Proofs.ClassFile.Stored

/-!
# Copied metadata

The annotations and the signature of a member mean the same in the class they are copied to, though
every index in them is another one.  Indices have one width, and so what is written for annotations
is as long as what they were read from: metadata that fitted its length field still does.
-/

namespace Reshape

/-! ## §1 The size of annotations -/

namespace ElementValue

mutual

/-- The number of bytes of the stored form, which is the same for all pools. -/
def size : ElementValue → Nat
  | enumConstant _ _ => 5
  | nested _ elements => 5 + sizeElements elements
  | array values => 3 + sizeValues values
  | _ => 3

def sizeElements : List (String × ElementValue) → Nat
  | [] => 0
  | (_, value) :: rest => 2 + size value + sizeElements rest

def sizeValues : List ElementValue → Nat
  | [] => 0
  | value :: rest => size value + sizeValues rest

end

theorem sum_sizeElements (elements : List (String × ElementValue)) :
    (elements.map fun e => 2 + e.2.size).sum = sizeElements elements := by
  induction elements with
  | nil => rfl
  | cons e elements ih => rw [List.map_cons, List.sum_cons, ih, sizeElements]

theorem sum_size (values : List ElementValue) : (values.map size).sum = sizeValues values := by
  induction values with
  | nil => rfl
  | cons v values ih => rw [List.map_cons, List.sum_cons, ih, sizeValues]

theorem takes_resolved {α : Type} {before : Nat} {look : UInt16 → Except FormatError α} :
    (resolved look).Takes before fun _ => before + 2 :=
  .bind .u16 fun _ => .ofExcept _

/-- An element takes the index of its name in front of its value. -/
theorem takes_elements {before : Nat} {p : Pool} {value : Reader FormatError ElementValue}
    (hvalue : value.Takes 0 size) :
    (Reader.counted do
      let name ← resolved p.utf8
      let value ← value
      return (name, value)).Takes before fun elements => before + 2 + sizeElements elements := by
  simp only [← sum_sizeElements]
  exact .counted (.bind takes_resolved fun name => .bind hvalue.shift fun value => .pure rfl)

/-- A value is read from as many bytes as it has. -/
theorem takes_read (p : Pool) : ∀ depth, (read p depth).Takes 0 size := by
  intro depth
  induction depth with
  | zero => exact .bind .u8 fun tag => .throw _
  | succ depth ih =>
      unfold read
      refine .bind .u8 fun tag => ?_
      split
      case h_10 => exact .bind takes_resolved fun _ => .bind takes_resolved fun _ => .pure rfl
      case h_12 =>
        refine .bind takes_resolved fun type => .bind (takes_elements ih) fun elements => .pure ?_
        rw [size]
      case h_13 =>
        refine .bind (.counted ih) fun values => .pure ?_
        rw [sum_size, size]
      case h_14 => exact .throw _
      all_goals exact .bind takes_resolved fun _ => .pure rfl

end ElementValue

namespace AnnotationUse

def size (a : AnnotationUse) : Nat := 4 + ElementValue.sizeElements a.elements

theorem takes_read (p : Pool) (depth : Nat) : (read p depth).Takes 0 size := by
  refine .bind ElementValue.takes_resolved fun type =>
    .bind (ElementValue.takes_elements (ElementValue.takes_read p depth)) fun elements => .pure ?_
  rw [size]

/-- A payload has the size of its annotations. -/
theorem length_of_readAll {p : Pool} {payload : Bytes} {annotations : List AnnotationUse}
    (h : readAll p payload = .ok annotations) :
    payload.length = 2 + (annotations.map size).sum := by
  obtain ⟨c, hread, hend⟩ := Reader.runOn_ending_eq_ok.mp h
  have htaken : 0 + payload.length = 0 + 2 + (annotations.map size).sum + c.rest.length :=
    Reader.Takes.counted (takes_read p payload.length) _ _ _ hread
  rw [hend, List.length_nil] at htaken
  omega

theorem length_eq_of_readAll {p q : Pool} {payload payload' : Bytes}
    {annotations : List AnnotationUse} (h : readAll p payload = .ok annotations)
    (h' : readAll q payload' = .ok annotations) : payload.length = payload'.length := by
  rw [length_of_readAll h, length_of_readAll h']

end AnnotationUse

/-! ## §2 Setting what was not there -/

namespace Attribute

/-- What is found is found in front of attributes of other names too. -/
theorem find?_append_others {pool : Pool} {name : String} {attributes more : List Attribute}
    {found : Option Attribute} (hfind : find? pool name attributes = .ok found)
    (hmore : ∀ a ∈ more, a.Other pool name) :
    find? pool name (attributes ++ more) = .ok found := by
  obtain ⟨located, hlocated, rfl⟩ := except_map_eq_ok.mp hfind
  refine except_map_eq_ok.mpr ⟨located, ?_, rfl⟩
  cases located with
  | some x =>
      obtain ⟨position, a⟩ := x
      obtain ⟨front, rest, rfl, rfl, ha, hfront⟩ := locate?_eq_some hlocated
      rw [List.append_assoc, List.cons_append]
      exact locate?_append ha hfront
  | none =>
      rw [locate?_eq_none] at hlocated ⊢
      intro a ha
      rcases List.mem_append.mp ha with ha | ha
      · exact hlocated a ha
      · exact hmore a ha

theorem mem_of_find? {pool : Pool} {name : String} {attributes : List Attribute} {a : Attribute}
    (h : find? pool name attributes = .ok (some a)) : a ∈ attributes := by
  obtain ⟨located, hlocated, hsome⟩ := except_map_eq_ok.mp h
  obtain ⟨⟨position, a⟩, rfl, rfl⟩ := Option.map_eq_some_iff.mp hsome
  obtain ⟨front, rest, rfl, -⟩ := locate?_eq_some hlocated
  simp

/-- An attribute behind others is the one that is found. -/
theorem find?_last {pool : Pool} {name : String} {attributes : List Attribute} {a : Attribute}
    (hothers : ∀ b ∈ attributes, b.Other pool name) (ha : pool.utf8 a.name = .ok name) :
    find? pool name (attributes ++ [a]) = .ok (some a) :=
  except_map_eq_ok.mpr ⟨_, locate?_append ha hothers, rfl⟩

theorem grows_setSignature (signature : String) (attributes : List Attribute) :
    (setSignature signature attributes).Grows :=
  .bind (Pool.grows_addUtf8 signature) fun _ => grows_set _ _ _

theorem signature?_of_others {pool : Pool} {attributes : List Attribute}
    (h : ∀ a ∈ attributes, a.Other pool signatureName) : signature? pool attributes = .ok none :=
  except_bind_eq_ok.mpr ⟨none, except_map_eq_ok.mpr ⟨none, locate?_eq_none.mpr h, rfl⟩, rfl⟩

/-- A signature that could be read is still there when the pool has grown. -/
theorem signature?_grown {p q : Pool} (hgrowth : Pool.Growth p q) {attributes : List Attribute}
    {signature : Option String} (h : signature? p attributes = .ok signature) :
    signature? q attributes = .ok signature := by
  obtain ⟨found, hfound, h⟩ := except_bind_eq_ok.mp h
  refine except_bind_eq_ok.mpr ⟨found, find?_grown hgrowth hfound, ?_⟩
  cases found with
  | none => exact h
  | some a =>
      obtain ⟨i, hi, h⟩ := except_bind_eq_ok.mp h
      obtain ⟨text, htext, h⟩ := except_bind_eq_ok.mp h
      exact except_bind_eq_ok.mpr ⟨i, hi, except_bind_eq_ok.mpr ⟨text, hgrowth.utf8 htext, h⟩⟩

/-- **A signature that was set** where there was none comes last and is read back. -/
theorem signature?_of_setSignature {p q : Pool} {signature : String}
    {attributes attributes' : List Attribute} (hp : p.Addressable)
    (hothers : ∀ a ∈ attributes, a.Other p signatureName)
    (h : setSignature signature attributes p = .ok attributes' q) :
    signature? q attributes' = .ok (some signature) ∧ ∃ a : Attribute,
      attributes' = attributes ++ [a] ∧ q.utf8 a.name = .ok signatureName ∧ a.ShortPayload := by
  have hall := (grows_setSignature signature attributes).growth h
  obtain ⟨i, p₁, hi, hset⟩ := state_bind_eq_ok.mp h
  have hgrowth := (Pool.grows_addUtf8 signature).growth hi
  have hmore := (grows_set _ _ _).growth hset
  obtain ⟨name, hname, rfl⟩ := set_of_others (hgrowth.addressable hp)
    (fun a ha => (hothers a ha).grown hgrowth) hset
  have hfound := find?_last (a := ⟨name, BigEndian.u16 i⟩)
    (fun a ha => (hothers a ha).grown hall) hname
  have hindex : (Reader.u16 : Reader FormatError UInt16).runOn (BigEndian.u16 i) = .ok i :=
    (Reads.u16 i).runOn
  have htext := hmore.utf8 (Pool.utf8_of_addUtf8 hp hi)
  constructor
  · refine except_bind_eq_ok.mpr ⟨_, hfound, ?_⟩
    exact except_bind_eq_ok.mpr ⟨i, hindex, except_bind_eq_ok.mpr ⟨signature, htext, rfl⟩⟩
  · refine ⟨_, rfl, hname, ?_⟩
    show (BigEndian.u16 i).length < 4294967296
    rw [BigEndian.length_u16]
    decide

end Attribute

/-- **Annotations that were set** where there were none come last and are read back. -/
theorem AnnotationUse.visible?_of_setVisible_others {p q : Pool} {annotations : List AnnotationUse}
    {attributes attributes' : List Attribute} (hp : p.Addressable)
    (hothers : ∀ a ∈ attributes, a.Other p Attribute.visibleAnnotationsName)
    (h : setVisible annotations attributes p = .ok attributes' q) :
    visible? q attributes' = .ok (some annotations) ∧ ∃ a : Attribute,
      attributes' = attributes ++ [a] ∧ q.utf8 a.name = .ok Attribute.visibleAnnotationsName ∧
        readAll q a.payload = .ok annotations := by
  have hall := (grows_setVisible annotations attributes).growth h
  obtain ⟨payload, p₁, hpayload, hset⟩ := state_bind_eq_ok.mp h
  obtain ⟨hgrowth, hread⟩ := readAll_of_encodeAll hp hpayload
  have hmore := (Attribute.grows_set _ _ _).growth hset
  obtain ⟨name, hname, rfl⟩ := Attribute.set_of_others (hgrowth.addressable hp)
    (fun a ha => (hothers a ha).grown hgrowth) hset
  have hfound := Attribute.find?_last (a := ⟨name, payload⟩)
    (fun a ha => (hothers a ha).grown hall) hname
  have hback := readAll_grown hmore hread
  constructor
  · exact except_bind_eq_ok.mpr ⟨_, hfound, except_bind_eq_ok.mpr ⟨annotations, hback, rfl⟩⟩
  · exact ⟨_, rfl, hname, hback⟩

/-! ## §3 Copying -/

namespace Labelling

theorem ofFormat_eq_ok {α : Type} {x : Except FormatError α} {a : α} {l l' : Labelled} :
    ofFormat x l = .ok a l' ↔ x = .ok a ∧ l = l' :=
  state_lift_eq_ok ofFormat (fun _ => rfl) (fun _ => rfl)

theorem edit_ok {change : List Attribute → Interning (List Attribute)} {l l' : Labelled}
    (h : edit change l = .ok () l') : change l.attributes l.pool = .ok l'.attributes l'.pool := by
  obtain ⟨l₁, l₂, hget, h⟩ := state_bind_eq_ok.mp h
  obtain ⟨rfl, rfl⟩ := state_get_eq_ok.mp hget
  obtain ⟨attributes, l₃, hchange, h⟩ := state_bind_eq_ok.mp h
  obtain ⟨pool, hpool, rfl⟩ := onPart_eq_ok.mp hchange
  cases state_modify_eq_ok.mp h
  exact hpool

/-- Sets the annotations if there are any. -/
def putVisible : Option (List AnnotationUse) → Labelling Unit
  | some annotations => edit (AnnotationUse.setVisible annotations)
  | none => pure ()

/-- Sets the signature if there is one. -/
def putSignature : Option String → Labelling Unit
  | some signature => edit (Attribute.setSignature signature)
  | none => pure ()

theorem copyMetadata_eq (source : Pool) (attributes : List Attribute) :
    copyMetadata source attributes = (do
      putVisible (← ofFormat (AnnotationUse.visible? source attributes))
      putSignature (← ofFormat (Attribute.signature? source attributes))) := by
  unfold copyMetadata
  congr 1
  funext annotations
  cases annotations <;> rfl

/-- The attributes have the metadata of the source, and their payloads are as short. -/
structure Copied (source : Pool) (attributes : List Attribute) (l : Labelled) : Prop where
  annotations : ∃ annotations, AnnotationUse.visible? source attributes = .ok annotations ∧
    AnnotationUse.visible? l.pool l.attributes = .ok annotations
  signature : ∃ signature, Attribute.signature? source attributes = .ok signature ∧
    Attribute.signature? l.pool l.attributes = .ok signature
  short : (∀ a ∈ attributes, a.ShortPayload) → ∀ a ∈ l.attributes, a.ShortPayload

/-- The annotations are copied first; then there is no signature yet. -/
theorem putVisible_ok {source p : Pool} {attributes : List Attribute}
    {annotations : Option (List AnnotationUse)} {l : Labelled} (hp : p.Addressable)
    (hvisible : AnnotationUse.visible? source attributes = .ok annotations)
    (h : putVisible annotations ⟨p, []⟩ = .ok () l) :
    Pool.Growth p l.pool ∧ AnnotationUse.visible? l.pool l.attributes = .ok annotations ∧
      (∀ a ∈ l.attributes, a.Other l.pool Attribute.signatureName) ∧
      ((∀ a ∈ attributes, a.ShortPayload) → ∀ a ∈ l.attributes, a.ShortPayload) := by
  cases annotations with
  | none =>
      obtain ⟨-, rfl⟩ := state_pure_eq_ok.mp h
      exact ⟨.refl, AnnotationUse.visible?_of_others (by simp), by simp, by simp⟩
  | some annotations =>
      have hset := edit_ok h
      obtain ⟨hback, a, hattributes, hname, hread⟩ :=
        AnnotationUse.visible?_of_setVisible_others hp (by simp) hset
      rw [List.nil_append] at hattributes
      refine ⟨(AnnotationUse.grows_setVisible _ _).growth hset, hback, ?_, ?_⟩
      · intro b hb
        rw [hattributes] at hb
        cases List.mem_singleton.mp hb
        exact ⟨_, hname, by decide⟩
      · intro hshort b hb
        rw [hattributes] at hb
        cases List.mem_singleton.mp hb
        obtain ⟨found, hfound, hvisible⟩ := except_bind_eq_ok.mp hvisible
        cases found with
        | none => cases except_pure_eq_ok.mp hvisible
        | some before =>
            obtain ⟨all, hall, hvisible⟩ := except_bind_eq_ok.mp hvisible
            cases except_pure_eq_ok.mp hvisible
            unfold Attribute.ShortPayload
            rw [AnnotationUse.length_eq_of_readAll hread hall]
            exact hshort before (Attribute.mem_of_find? hfound)

/-- The signature comes behind the annotations. -/
theorem putSignature_ok {signature : Option String} {l₁ l : Labelled}
    (hp : l₁.pool.Addressable)
    (hothers : ∀ a ∈ l₁.attributes, a.Other l₁.pool Attribute.signatureName)
    (h : putSignature signature l₁ = .ok () l) :
    Pool.Growth l₁.pool l.pool ∧ Attribute.signature? l.pool l.attributes = .ok signature ∧
      ∃ more, l.attributes = l₁.attributes ++ more ∧
        ∀ a ∈ more, a.Other l.pool Attribute.visibleAnnotationsName ∧ a.ShortPayload := by
  cases signature with
  | none =>
      obtain ⟨-, rfl⟩ := state_pure_eq_ok.mp h
      exact ⟨.refl, Attribute.signature?_of_others hothers, [], (List.append_nil _).symm, by simp⟩
  | some signature =>
      have hset := edit_ok h
      obtain ⟨hread, a, hattributes, hname, ha⟩ :=
        Attribute.signature?_of_setSignature hp hothers hset
      refine ⟨(Attribute.grows_setSignature _ _).growth hset, hread, [a], hattributes, ?_⟩
      intro b hb
      cases List.mem_singleton.mp hb
      exact ⟨⟨_, hname, by decide⟩, ha⟩

/-- **Copied metadata** of a member that had no attributes is that of the source. -/
theorem copyMetadata_ok {source p : Pool} {attributes : List Attribute} {l : Labelled}
    (hp : p.Addressable) (h : copyMetadata source attributes ⟨p, []⟩ = .ok () l) :
    Pool.Growth p l.pool ∧ Copied source attributes l := by
  rw [copyMetadata_eq] at h
  obtain ⟨annotations, l₀, hlook, h⟩ := state_bind_eq_ok.mp h
  obtain ⟨hvisible, rfl⟩ := ofFormat_eq_ok.mp hlook
  obtain ⟨u, l₁, hannotations, h⟩ := state_bind_eq_ok.mp h
  obtain ⟨signature, l₂, hlook, h⟩ := state_bind_eq_ok.mp h
  obtain ⟨hsignature, rfl⟩ := ofFormat_eq_ok.mp hlook
  obtain ⟨hgrowth, hback, hothers, hshort⟩ := putVisible_ok hp hvisible hannotations
  obtain ⟨hmore, hread, more, hattributes, hlast⟩ :=
    putSignature_ok (hgrowth.addressable hp) hothers h
  refine ⟨hgrowth.trans hmore, ⟨annotations, hvisible, ?_⟩, ⟨signature, hsignature, hread⟩, ?_⟩
  · have hstill := AnnotationUse.visible?_grown hmore hback
    obtain ⟨found, hfound, hstill⟩ := except_bind_eq_ok.mp hstill
    rw [hattributes]
    exact except_bind_eq_ok.mpr ⟨found,
      Attribute.find?_append_others hfound fun a ha => (hlast a ha).1, hstill⟩
  · intro hall a ha
    rw [hattributes] at ha
    rcases List.mem_append.mp ha with ha | ha
    · exact hshort hall a ha
    · exact (hlast a ha).2

end Labelling

end Reshape
