import Reshape.Proofs.Attribute.Named
import Reshape.Proofs.Bytes.Whole

/-!
# Annotations that are moved

Annotations are written into a pool that grows while they are written, and they are read much later,
when it has grown further.  A reader that succeeds in some pool gives the same in every pool that
has grown from it, so what was written piece by piece is read back as a whole.  Every value takes at
least the byte of its tag, and so the number of bytes at hand is always deep enough.
-/

namespace Reshape

open Interning

/-! ## §1 Reading in a pool that has grown -/

namespace ElementValue

section Grown

variable {p q : Pool} (h : Pool.Growth p q)
include h

theorem longConstant_grown {i : UInt16} {value : Int64} (hi : longConstant p i = .ok value) :
    longConstant q i = .ok value := by
  obtain ⟨c, hc, hi⟩ := except_bind_eq_ok.mp hi
  exact except_bind_eq_ok.mpr ⟨c, h.constant hc, hi⟩

theorem floatConstant_grown {i : UInt16} {bits : UInt32} (hi : floatConstant p i = .ok bits) :
    floatConstant q i = .ok bits := by
  obtain ⟨c, hc, hi⟩ := except_bind_eq_ok.mp hi
  exact except_bind_eq_ok.mpr ⟨c, h.constant hc, hi⟩

theorem doubleConstant_grown {i : UInt16} {bits : UInt64} (hi : doubleConstant p i = .ok bits) :
    doubleConstant q i = .ok bits := by
  obtain ⟨c, hc, hi⟩ := except_bind_eq_ok.mp hi
  exact except_bind_eq_ok.mpr ⟨c, h.constant hc, hi⟩

end Grown

theorem resolved_extends {α : Type} {look look' : UInt16 → Except FormatError α}
    (h : ∀ {i a}, look i = .ok a → look' i = .ok a) : (resolved look).Extends (resolved look') :=
  .bind (.refl _) fun _ => .ofExcept fun _ => h

/-- Reads the name and the value of one element. -/
def readElement (pool : Pool) (depth : Nat) : Reader FormatError (String × ElementValue) := do
  let name ← resolved pool.utf8
  let value ← read pool depth
  return (name, value)

theorem read_extends {p q : Pool} (h : Pool.Growth p q) :
    ∀ depth, (read p depth).Extends (read q depth) := by
  intro depth
  induction depth with
  | zero => exact .refl _
  | succ depth ih =>
      have text : (resolved p.utf8).Extends (resolved q.utf8) := resolved_extends h.utf8
      have number : (resolved p.integer).Extends (resolved q.integer) := resolved_extends h.integer
      unfold read
      refine .bind (.refl _) fun tag => ?_
      split
      · exact .map byte number
      · exact .map char number
      · exact .map short number
      · exact .map boolean number
      · exact .map int number
      · exact .map long (resolved_extends (longConstant_grown h))
      · exact .map float (resolved_extends (floatConstant_grown h))
      · exact .map double (resolved_extends (doubleConstant_grown h))
      · exact .map ElementValue.text text
      · exact .bind text fun type => .map (enumConstant type) text
      · exact .map classLiteral text
      · refine .bind text fun type => .map (nested type) (.counted ?_)
        exact .bind text fun name => .map (name, ·) ih
      · exact .map array (.counted ih)
      · exact .refl _

theorem readElement_extends {p q : Pool} (h : Pool.Growth p q) (depth : Nat) :
    (readElement p depth).Extends (readElement q depth) :=
  .bind (resolved_extends h.utf8) fun name => .map (name, ·) (read_extends h depth)

end ElementValue

namespace AnnotationUse

theorem read_extends {p q : Pool} (h : Pool.Growth p q) (depth : Nat) :
    (read p depth).Extends (read q depth) :=
  .bind (ElementValue.resolved_extends h.utf8) fun type =>
    .map (AnnotationUse.mk type) (.counted (ElementValue.readElement_extends h depth))

theorem readAll_grown {p q : Pool} (h : Pool.Growth p q) {payload : Bytes}
    {annotations : List AnnotationUse} (hread : readAll p payload = .ok annotations) :
    readAll q payload = .ok annotations :=
  Reader.Extends.runOn (.bind (.counted (read_extends h _)) fun _ => .refl _) hread

end AnnotationUse

/-- **Annotations in a pool that has grown.**  What could be read there reads the same. -/
theorem AnnotationUse.visible?_grown {p q : Pool} (h : Pool.Growth p q)
    {attributes : List Attribute} {annotations : Option (List AnnotationUse)}
    (hvisible : visible? p attributes = .ok annotations) :
    visible? q attributes = .ok annotations := by
  obtain ⟨found, hfound, hvisible⟩ := except_bind_eq_ok.mp hvisible
  refine except_bind_eq_ok.mpr ⟨found, Attribute.find?_grown h hfound, ?_⟩
  cases found with
  | none => exact hvisible
  | some a =>
      obtain ⟨read, hread, hvisible⟩ := except_bind_eq_ok.mp hvisible
      exact except_bind_eq_ok.mpr ⟨read, AnnotationUse.readAll_grown h hread, hvisible⟩

/-! ## §2 Rows of items -/

/-- The bytes are read as the item wherever the reader may go as deep as their number. -/
def Within {α : Type} (reader : Nat → Reader FormatError α) (bs : Bytes) (a : α) : Prop :=
  ∀ depth, bs.length ≤ depth → Reads (reader depth) bs a

/-- Items whose bytes stand one behind the other. -/
def RowWithin {α : Type} (reader : Nat → Reader FormatError α) (bs : Bytes) (items : List α) :
    Prop :=
  ∃ pieces, bs = pieces.flatten ∧ List.Forall₂ (Within reader) pieces items

namespace Within

variable {α : Type} {reader reader' : Nat → Reader FormatError α} {bs cs : Bytes}

theorem mono {a : α} (h : Within reader bs a)
    (hmore : ∀ depth, (reader depth).Extends (reader' depth)) : Within reader' bs a :=
  fun depth hdepth position rest => hmore depth _ _ _ (h depth hdepth position rest)

theorem row_nil : RowWithin reader [] [] := ⟨[], rfl, .nil⟩

theorem row_cons {a : α} {items : List α} (ha : Within reader bs a)
    (hitems : RowWithin reader cs items) : RowWithin reader (bs ++ cs) (a :: items) := by
  obtain ⟨pieces, rfl, hpieces⟩ := hitems
  exact ⟨bs :: pieces, rfl, .cons ha hpieces⟩

/-- A counted row is read as far down as the bytes of all its items go. -/
theorem counted {items : List α} (h : RowWithin reader bs items) (hcount : items.length < 65536)
    {depth : Nat} (hdepth : bs.length ≤ depth) :
    Reads (Reader.counted (reader depth)) (BigEndian.u16 (UInt16.ofNat items.length) ++ bs)
      items := by
  obtain ⟨pieces, rfl, hpieces⟩ := h
  refine Reads.counted ((forall₂_with_mem hpieces).imp ?_) hcount
  rintro piece a ⟨hmem, -, ha⟩
  exact ha depth ((List.sublist_flatten_of_mem hmem).length_le.trans hdepth)

end Within

/-! ## §3 Reading what was written -/

namespace ElementValue

/-- Bytes were appended, and this holds of them. -/
def Appended (out out' : Array UInt8) (P : Bytes → Prop) : Prop :=
  ∃ bs, out'.toList = out.toList ++ bs ∧ P bs

theorem reads_resolved {α : Type} {look : UInt16 → Except FormatError α} {i : UInt16} {a : α}
    (h : look i = .ok a) : Reads (resolved look) (BigEndian.u16 i) a := by
  rw [← List.append_nil (BigEndian.u16 i)]
  exact Reads.bind (Reads.u16 i) (Reads.ofExcept h)

theorem index_ok {constant : Interning UInt16} {out out' : Array UInt8} {p q : Pool}
    (h : index constant out p = .ok out' q) :
    ∃ i, constant p = .ok i q ∧ out'.toList = out.toList ++ BigEndian.u16 i := by
  obtain ⟨i, p₁, hi, h⟩ := state_bind_eq_ok.mp h
  obtain ⟨rfl, rfl⟩ := state_pure_eq_ok.mp h
  exact ⟨i, hi, Array.toList_appendList⟩

/-- The index that is appended for a text denotes it. -/
theorem index_text {text : String} {out out' : Array UInt8} {p q : Pool} (hp : p.Addressable)
    (h : index (Pool.addUtf8 text) out p = .ok out' q) : Pool.Growth p q ∧
      ∃ i, out'.toList = out.toList ++ BigEndian.u16 i ∧ q.utf8 i = .ok text := by
  obtain ⟨i, hi, hout⟩ := index_ok h
  exact ⟨(Pool.grows_addUtf8 text).growth hi, i, hout, Pool.utf8_of_addUtf8 hp hi⟩

theorem count_ok {table : Table} {n : Nat} {out out' : Array UInt8} {p q : Pool}
    (h : count table n out p = .ok out' q) :
    p = q ∧ n < 65536 ∧ out'.toList = out.toList ++ BigEndian.u16 (UInt16.ofNat n) := by
  obtain ⟨bs, p₁, hstart, h⟩ := state_bind_eq_ok.mp h
  obtain ⟨hcount, rfl⟩ := ofExcept_eq_ok.mp hstart
  obtain ⟨rfl, rfl⟩ := state_pure_eq_ok.mp h
  obtain ⟨hlt, rfl⟩ := Table.count_eq_ok.mp hcount
  exact ⟨rfl, hlt, Array.toList_appendList⟩

/-- Behind a tag, a value may be one level deeper. -/
theorem within_tagged {q : Pool} {tag : UInt8} {bs : Bytes} {v : ElementValue}
    (h : ∀ depth, bs.length ≤ depth → Reads (read q (depth + 1)) (tag :: bs) v) :
    Within (read q) (tag :: bs) v := by
  intro depth hdepth
  cases depth with
  | zero => exact absurd hdepth (by simp)
  | succ depth => exact h depth (Nat.le_of_succ_le_succ hdepth)

/-- A value that is made of a tag and the index of a constant. -/
theorem index_constant {α : Type} {c : Constant} {look : UInt16 → Except FormatError α} {a : α}
    {v : ElementValue} {tag : UInt8} {out out' : Array UInt8} {p q : Pool} (hp : p.Addressable)
    (hlook : ∀ i, q.slot i = c → look i = .ok a)
    (hread : ∀ depth bs, Reads (resolved look) bs a → Reads (read q (depth + 1)) (tag :: bs) v)
    (h : index (Pool.intern c) (out.push tag) p = .ok out' q) :
    Appended out out' fun bs => Within (read q) bs v := by
  obtain ⟨i, hi, hout⟩ := index_ok h
  have hresolved := reads_resolved (hlook i (Pool.slot_of_intern hp hi))
  refine ⟨tag :: BigEndian.u16 i, by simp [hout], within_tagged ?_⟩
  intro depth _
  exact hread depth _ hresolved

theorem integer_of_slot {q : Pool} {i : UInt16} {value : Int32} (h : q.slot i = .integer value) :
    q.integer i = .ok value := by
  rw [Pool.integer, h]

theorem utf8_of_slot {q : Pool} {i : UInt16} {text : String} (h : q.slot i = .utf8 text) :
    q.utf8 i = .ok text := by
  rw [Pool.utf8, h]

theorem longConstant_of_slot {q : Pool} {i : UInt16} {value : Int64}
    (h : q.slot i = .long value) : longConstant q i = .ok value := by
  rw [longConstant, Pool.constant, h]
  rfl

theorem floatConstant_of_slot {q : Pool} {i : UInt16} {bits : UInt32}
    (h : q.slot i = .float bits) : floatConstant q i = .ok bits := by
  rw [floatConstant, Pool.constant, h]
  rfl

theorem doubleConstant_of_slot {q : Pool} {i : UInt16} {bits : UInt64}
    (h : q.slot i = .double bits) : doubleConstant q i = .ok bits := by
  rw [doubleConstant, Pool.constant, h]
  rfl

/-- A type with its elements is read as what is made of them, whatever that is. -/
theorem typed_ok {α : Type} (make : String → List (String × ElementValue) → α) {type : String}
    {elements : List (String × ElementValue)} {out out' : Array UInt8} {p q : Pool}
    (hp : p.Addressable)
    (helements : ∀ {out : Array UInt8} {p : Pool}, p.Addressable →
      writeElements out elements p = .ok out' q →
        Appended out out' fun bs => RowWithin (readElement q) bs elements)
    (h : (do
      let out ← index (Pool.addUtf8 type) out
      let out ← count .annotationElements elements.length out
      writeElements out elements : Interning (Array UInt8)) p = .ok out' q) :
    Appended out out' fun bs => Within (fun depth => do
      let type ← resolved q.utf8
      return make type (← Reader.counted (readElement q depth))) bs (make type elements) := by
  obtain ⟨out₁, p₁, htype, h⟩ := state_bind_eq_ok.mp h
  obtain ⟨hgrowth, i, hout₁, hi⟩ := index_text hp htype
  obtain ⟨out₂, p₂, hcount, h⟩ := state_bind_eq_ok.mp h
  obtain ⟨rfl, hlt, hout₂⟩ := count_ok hcount
  have hmore := (grows_writeElements _ elements).growth h
  obtain ⟨bs, hout', hbs⟩ := helements (hgrowth.addressable hp) h
  refine ⟨BigEndian.u16 i ++ (BigEndian.u16 (UInt16.ofNat elements.length) ++ bs),
    by simp [hout', hout₂, hout₁], fun depth hdepth => ?_⟩
  refine Reads.bind (reads_resolved (hmore.utf8 hi))
    (Reads.last (make type) (Within.counted hbs hlt ?_))
  rw [List.length_append, List.length_append] at hdepth
  omega

mutual

/-- What is written for a value is read as the value. -/
theorem write_ok {out out' : Array UInt8} {p q : Pool} (hp : p.Addressable) :
    ∀ v, write out v p = .ok out' q → Appended out out' fun bs => Within (read q) bs v
  | .byte value, h => by
      rw [write] at h
      exact index_constant hp (fun _ => integer_of_slot)
        (fun _ _ hi => Reads.bind (Reads.u8 66) (Reads.last byte hi)) h
  | .char value, h => by
      rw [write] at h
      exact index_constant hp (fun _ => integer_of_slot)
        (fun _ _ hi => Reads.bind (Reads.u8 67) (Reads.last char hi)) h
  | .short value, h => by
      rw [write] at h
      exact index_constant hp (fun _ => integer_of_slot)
        (fun _ _ hi => Reads.bind (Reads.u8 83) (Reads.last short hi)) h
  | .boolean value, h => by
      rw [write] at h
      exact index_constant hp (fun _ => integer_of_slot)
        (fun _ _ hi => Reads.bind (Reads.u8 90) (Reads.last boolean hi)) h
  | .int value, h => by
      rw [write] at h
      exact index_constant hp (fun _ => integer_of_slot)
        (fun _ _ hi => Reads.bind (Reads.u8 73) (Reads.last int hi)) h
  | .long value, h => by
      rw [write] at h
      exact index_constant hp (fun _ => longConstant_of_slot)
        (fun _ _ hi => Reads.bind (Reads.u8 74) (Reads.last long hi)) h
  | .float bits, h => by
      rw [write] at h
      exact index_constant hp (fun _ => floatConstant_of_slot)
        (fun _ _ hi => Reads.bind (Reads.u8 70) (Reads.last float hi)) h
  | .double bits, h => by
      rw [write] at h
      exact index_constant hp (fun _ => doubleConstant_of_slot)
        (fun _ _ hi => Reads.bind (Reads.u8 68) (Reads.last double hi)) h
  | .text value, h => by
      rw [write] at h
      exact index_constant hp (fun _ => utf8_of_slot)
        (fun _ _ hi => Reads.bind (Reads.u8 115) (Reads.last ElementValue.text hi)) h
  | .classLiteral descriptor, h => by
      rw [write] at h
      exact index_constant hp (fun _ => utf8_of_slot)
        (fun _ _ hi => Reads.bind (Reads.u8 99) (Reads.last classLiteral hi)) h
  | .enumConstant type name, h => by
      rw [write] at h
      obtain ⟨out₁, p₁, htype, h⟩ := state_bind_eq_ok.mp h
      obtain ⟨hgrowth, i, hout₁, hi⟩ := index_text hp htype
      obtain ⟨hmore, j, hout', hj⟩ := index_text (hgrowth.addressable hp) h
      refine ⟨101 :: (BigEndian.u16 i ++ BigEndian.u16 j), by simp [hout', hout₁], ?_⟩
      refine within_tagged fun depth _ => Reads.bind (Reads.u8 101) ?_
      exact Reads.bind (reads_resolved (hmore.utf8 hi))
        (Reads.last (enumConstant type) (reads_resolved hj))
  | .nested type elements, h => by
      rw [write] at h
      obtain ⟨bs, hout', hbs⟩ := typed_ok nested hp (writeElements_ok · elements) h
      exact ⟨64 :: bs, by simp [hout'], within_tagged fun depth hdepth =>
        Reads.bind (Reads.u8 64) (hbs depth hdepth)⟩
  | .array values, h => by
      rw [write] at h
      obtain ⟨out₁, p₁, hcount, h⟩ := state_bind_eq_ok.mp h
      obtain ⟨rfl, hlt, hout₁⟩ := count_ok hcount
      obtain ⟨bs, hout', hbs⟩ := writeValues_ok hp values h
      refine ⟨91 :: (BigEndian.u16 (UInt16.ofNat values.length) ++ bs), by simp [hout', hout₁],
        within_tagged fun depth hdepth => ?_⟩
      refine Reads.bind (Reads.u8 91) (Reads.last array (Within.counted hbs hlt ?_))
      rw [List.length_append] at hdepth
      omega

theorem writeElements_ok {out out' : Array UInt8} {p q : Pool} (hp : p.Addressable) :
    ∀ l, writeElements out l p = .ok out' q →
      Appended out out' fun bs => RowWithin (readElement q) bs l
  | [], h => by
      rw [writeElements] at h
      obtain ⟨rfl, rfl⟩ := state_pure_eq_ok.mp h
      exact ⟨[], (List.append_nil _).symm, Within.row_nil⟩
  | (name, value) :: rest, h => by
      rw [writeElements] at h
      obtain ⟨out₁, p₁, hname, h⟩ := state_bind_eq_ok.mp h
      obtain ⟨hgrowth, i, hout₁, hi⟩ := index_text hp hname
      obtain ⟨out₂, p₂, hvalue, h⟩ := state_bind_eq_ok.mp h
      have hp₁ := hgrowth.addressable hp
      have hmore := (grows_write out₁ value).growth hvalue
      have hlast := (grows_writeElements out₂ rest).growth h
      obtain ⟨bs, hout₂, hbs⟩ := write_ok hp₁ value hvalue
      obtain ⟨cs, hout', hcs⟩ := writeElements_ok (hmore.addressable hp₁) rest h
      refine ⟨(BigEndian.u16 i ++ bs) ++ cs, by simp [hout', hout₂, hout₁], ?_⟩
      refine Within.row_cons (fun depth hdepth => ?_) hcs
      refine Reads.bind (reads_resolved ((hmore.trans hlast).utf8 hi)) (Reads.last (name, ·) ?_)
      refine hbs.mono (read_extends hlast) depth ?_
      rw [List.length_append] at hdepth
      omega

theorem writeValues_ok {out out' : Array UInt8} {p q : Pool} (hp : p.Addressable) :
    ∀ l, writeValues out l p = .ok out' q → Appended out out' fun bs => RowWithin (read q) bs l
  | [], h => by
      rw [writeValues] at h
      obtain ⟨rfl, rfl⟩ := state_pure_eq_ok.mp h
      exact ⟨[], (List.append_nil _).symm, Within.row_nil⟩
  | value :: rest, h => by
      rw [writeValues] at h
      obtain ⟨out₁, p₁, hvalue, h⟩ := state_bind_eq_ok.mp h
      have hgrowth := (grows_write out value).growth hvalue
      have hmore := (grows_writeValues out₁ rest).growth h
      obtain ⟨bs, hout₁, hbs⟩ := write_ok hp value hvalue
      obtain ⟨cs, hout', hcs⟩ := writeValues_ok (hgrowth.addressable hp) rest h
      exact ⟨bs ++ cs, by simp [hout', hout₁],
        Within.row_cons (hbs.mono (read_extends hmore)) hcs⟩

end

end ElementValue

namespace AnnotationUse

open ElementValue

theorem write_ok {out out' : Array UInt8} {p q : Pool} {a : AnnotationUse} (hp : p.Addressable)
    (h : write out a p = .ok out' q) : Appended out out' fun bs => Within (read q) bs a :=
  typed_ok AnnotationUse.mk hp (writeElements_ok · a.elements) h

theorem writeAll_ok {annotations : List AnnotationUse} :
    ∀ {out out' : Array UInt8} {p q : Pool}, p.Addressable →
      annotations.foldlM write out p = .ok out' q → Pool.Growth p q ∧
        Appended out out' fun bs => RowWithin (read q) bs annotations := by
  induction annotations with
  | nil =>
      intro out out' p q _ h
      obtain ⟨rfl, rfl⟩ := state_pure_eq_ok.mp h
      exact ⟨.refl, [], (List.append_nil _).symm, Within.row_nil⟩
  | cons a annotations ih =>
      intro out out' p q hp h
      rw [List.foldlM_cons] at h
      obtain ⟨out₁, p₁, ha, h⟩ := state_bind_eq_ok.mp h
      have hgrowth := (grows_write out a).growth ha
      obtain ⟨bs, hout₁, hbs⟩ := write_ok hp ha
      obtain ⟨hmore, cs, hout', hcs⟩ := ih (hgrowth.addressable hp) h
      exact ⟨hgrowth.trans hmore, bs ++ cs, by simp [hout', hout₁],
        Within.row_cons (hbs.mono (read_extends hmore)) hcs⟩

/-- **Annotations are read back** from the payload that was encoded for them. -/
theorem readAll_of_encodeAll {annotations : List AnnotationUse} {payload : Bytes} {p q : Pool}
    (hp : p.Addressable) (h : encodeAll annotations p = .ok payload q) :
    Pool.Growth p q ∧ readAll q payload = .ok annotations := by
  obtain ⟨count, p₁, hstart, h⟩ := state_bind_eq_ok.mp h
  obtain ⟨hcount, rfl⟩ := ofExcept_eq_ok.mp hstart
  obtain ⟨out, p₂, hout, h⟩ := state_bind_eq_ok.mp h
  obtain ⟨rfl, rfl⟩ := state_pure_eq_ok.mp h
  obtain ⟨hgrowth, bs, hbs, hrow⟩ := writeAll_ok hp hout
  refine ⟨hgrowth, ?_⟩
  obtain ⟨hlt, rfl⟩ := Table.count_eq_ok.mp hcount
  have hdepth : bs.length ≤ out.toList.length := by simp [hbs]
  have hall := Within.counted hrow hlt hdepth
  rw [hbs] at hall ⊢
  exact hall.runOn_ending

end AnnotationUse

/-! ## §4 Setting and removing -/

namespace Attribute

/-- An attribute that was set is found, in the place of the one before it or behind all others. -/
theorem find?_of_set {p q : Pool} {name : String} {payload : Bytes}
    {attributes attributes' : List Attribute} {found : Option Attribute} (hp : p.Addressable)
    (honce : p.NamedOnce name) (hfind : find? p name attributes = .ok found)
    (h : set name payload attributes p = .ok attributes' q) :
    ∃ a, find? q name attributes' = .ok (some a) ∧ a.payload = payload := by
  have hgrowth := (grows_set _ _ _).growth h
  obtain ⟨located, hlocated, rfl⟩ := except_map_eq_ok.mp hfind
  obtain ⟨a, front, rest, hpayload, rfl, hname, hfront⟩ : ∃ a front rest, a.payload = payload ∧
      attributes' = front ++ a :: rest ∧ q.utf8 a.name = .ok name ∧
      ∀ b ∈ front, b.Other q name := by
    cases located with
    | some x =>
        obtain ⟨position, a⟩ := x
        obtain ⟨front, rest, rfl, -, ha, hfront⟩ := locate?_eq_some hlocated
        have hreplaced := set_of_located hp honce ha hfront h
        exact ⟨_, front, rest, rfl, hreplaced, hgrowth.utf8 ha,
          fun b hb => (hfront b hb).grown hgrowth⟩
    | none =>
        have hothers := locate?_eq_none.mp hlocated
        obtain ⟨i, hi, hlast⟩ := set_of_others hp hothers h
        exact ⟨_, attributes, [], rfl, hlast, hi, fun b hb => (hothers b hb).grown hgrowth⟩
  exact ⟨a, except_map_eq_ok.mpr ⟨_, locate?_append hname hfront, rfl⟩, hpayload⟩

/-- The attribute can be named in the pool. -/
def Named (pool : Pool) (a : Attribute) : Prop := ∃ text, pool.utf8 a.name = .ok text

/-- Whether the attribute has the name. -/
def isNamed (pool : Pool) (name : String) (a : Attribute) : Bool :=
  match pool.utf8 a.name with
  | .ok text => text == name
  | .error _ => false

theorem Named.grown {p q : Pool} {a : Attribute} (h : a.Named p) (hgrowth : Pool.Growth p q) :
    a.Named q := by
  obtain ⟨text, htext⟩ := h
  exact ⟨text, hgrowth.utf8 htext⟩

theorem isNamed_grown {p q : Pool} {name : String} {a : Attribute} (hgrowth : Pool.Growth p q)
    (h : a.Named p) : a.isNamed q name = a.isNamed p name := by
  obtain ⟨text, htext⟩ := h
  unfold isNamed
  rw [htext, hgrowth.utf8 htext]

theorem Named.other {pool : Pool} {name : String} {a : Attribute} (h : a.Named pool)
    (hname : ¬ a.isNamed pool name = true) : a.Other pool name := by
  obtain ⟨text, htext⟩ := h
  refine ⟨text, htext, fun heq => hname ?_⟩
  simp [isNamed, htext, heq]

/-- Of attributes that can be named, and of which one has the name at most, none is left that has
it. -/
theorem other_of_remove {pool : Pool} {name : String} {attributes rest : List Attribute}
    {removed : Option Attribute} (hnamed : ∀ a ∈ attributes, a.Named pool)
    (hone : attributes.countP (isNamed pool name) ≤ 1)
    (h : remove pool name attributes = .ok (removed, rest)) :
    ∀ a ∈ rest, a.Other pool name := by
  unfold remove at h
  split at h
  · cases h
  · next hlocated =>
    cases h
    exact locate?_eq_none.mp hlocated
  · next position a hlocated =>
    cases h
    obtain ⟨front, rest, rfl, rfl, hname, hfront⟩ := locate?_eq_some hlocated
    have hlast : rest.countP (isNamed pool name) = 0 := by
      rw [List.countP_append, List.countP_cons_of_pos (by simp [isNamed, hname])] at hone
      omega
    rw [Nat.zero_add, List.eraseIdx_append_of_length_le (Nat.le_refl _), Nat.sub_self,
      List.eraseIdx_cons_zero]
    intro b hb
    rcases List.mem_append.mp hb with hb | hb
    · exact hfront b hb
    · refine (hnamed b ?_).other (List.countP_eq_zero.mp hlast b hb)
      exact List.mem_append_right _ (List.mem_cons_of_mem a hb)

end Attribute

namespace AnnotationUse

/-- **Annotations that were set** are the visible ones, whatever was there before. -/
theorem visible?_of_setVisible {annotations : List AnnotationUse}
    {attributes attributes' : List Attribute} {before : Option (List AnnotationUse)} {p q : Pool}
    (hp : p.Addressable) (honce : p.NamedOnce Attribute.visibleAnnotationsName)
    (hvisible : visible? p attributes = .ok before)
    (h : setVisible annotations attributes p = .ok attributes' q) :
    visible? q attributes' = .ok (some annotations) := by
  obtain ⟨payload, p₁, hpayload, hset⟩ := state_bind_eq_ok.mp h
  obtain ⟨hgrowth, hread⟩ := readAll_of_encodeAll hp hpayload
  have hmore := (Attribute.grows_set _ _ _).growth hset
  obtain ⟨found, hfound, -⟩ := except_bind_eq_ok.mp hvisible
  obtain ⟨a, ha, rfl⟩ := Attribute.find?_of_set (hgrowth.addressable hp) (hgrowth.namedOnce honce)
    (Attribute.find?_grown hgrowth hfound) hset
  refine except_bind_eq_ok.mpr ⟨some a, ha, ?_⟩
  exact except_bind_eq_ok.mpr ⟨annotations, readAll_grown hmore hread, rfl⟩

theorem visible?_of_others {pool : Pool} {attributes : List Attribute}
    (h : ∀ a ∈ attributes, a.Other pool Attribute.visibleAnnotationsName) :
    visible? pool attributes = .ok none :=
  except_bind_eq_ok.mpr
    ⟨none, except_map_eq_ok.mpr ⟨none, Attribute.locate?_eq_none.mpr h, rfl⟩, rfl⟩

end AnnotationUse

end Reshape
