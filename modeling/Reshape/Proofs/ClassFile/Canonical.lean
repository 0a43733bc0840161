import Reshape.Proofs.ClassFile.Lossless
import Reshape.Proofs.Pool.Found

/-!
# Which data is rewritten byte for byte

What follows the pool has one stored form, so a class that was read is stored again as it was read
but for its pool.  There the reader takes three things that are never written: a pool that declares
no slot at all, one whose last declared slot is the first of two, and texts that are not in their
shortest form.
-/

namespace Reshape

/-! ## §1 What stood behind the pool -/

theorem Attribute.finds_read : Finds Attribute.read fun a bs => bs = a.encode := by
  refine .bind .u16 fun name bs hname => .last .prefixed32 fun payload bs' hpayload => ?_
  rw [Attribute.encode, hname, hpayload.2, List.append_assoc]

theorem Attribute.finds_readAll :
    Finds Attribute.readAll fun attributes bs => encodeAll attributes = .ok bs :=
  Table.finds_encode Attribute.finds_read

namespace Member

variable {carrier : Carrier}

theorem finds_read :
    Finds (Member.read : Reader FormatError (Member carrier)) fun m bs => m.encode = .ok bs := by
  refine .bind .u16 fun access bs haccess => .bind .u16 fun name bs' hname =>
    .bind .u16 fun descriptor bs'' hdescriptor => .last Attribute.finds_readAll
      fun attributes bs''' hattributes => ?_
  rw [Member.encode, hattributes, haccess, hname, hdescriptor, ← List.append_assoc,
    ← List.append_assoc]
  rfl

theorem finds_readAll (table : Table) :
    Finds (Reader.counted (Member.read : Reader FormatError (Member carrier)))
      fun members bs => encodeAll table members = .ok bs := by
  intro c members c' hread
  obtain ⟨bs, hrest, bss, hlength, rfl, hmembers⟩ := Finds.counted finds_read c members c' hread
  exact ⟨_, hrest, encodeAll_eq_ok.mpr ⟨bss, hlength, rfl, hmembers⟩⟩

end Member

/-! ## §2 The data of a class -/

namespace ClassFile

/-- The number of slots that the pool declares. -/
def declaredSlots (data : Bytes) : Nat := BigEndian.value ((data.drop 8).take 2)

/-- The payloads of the texts in the pool. -/
def texts (data : Bytes) : List Bytes :=
  Pool.textPayloads (declaredSlots data - 1) (data.drop 10)

/-- A class was read from a magic number and a version, a pool, and what is stored behind it. -/
theorem found_of_parse {data : Bytes} {c : ClassFile} (h : parse data = .ok c) :
    ∃ (head : Bytes) (count : UInt16) (body behind : Bytes),
      data = head ++ (BigEndian.u16 count ++ (body ++ behind)) ∧ head.length = 8 ∧
      c.pool.Found count body ∧
      ∀ pool, c.pool.encode = .ok pool → c.encode = .ok (head ++ (pool ++ behind)) := by
  obtain ⟨s₁, s₂, s₃, s₄, s₅, s₆, s₇, s₈, s₉, s₁₀, s₁₁, hmagic, hminor, hmajor, hpool, haccess,
    hthis, hsuper, hinterfaces, hfields, hmethods, hattributes, hend⟩ := parse_steps h
  obtain ⟨_, hdata, rfl⟩ := Finds.u32 _ _ _ hmagic
  obtain ⟨_, hrest₁, rfl⟩ := Finds.u16 _ _ _ hminor
  obtain ⟨_, hrest₂, rfl⟩ := Finds.u16 _ _ _ hmajor
  obtain ⟨count, body, hrest₃, hfound⟩ := Pool.found_of_read hpool
  obtain ⟨_, hrest₄, rfl⟩ := Finds.u16 _ _ _ haccess
  obtain ⟨_, hrest₅, rfl⟩ := Finds.u16 _ _ _ hthis
  obtain ⟨_, hrest₆, rfl⟩ := Finds.u16 _ _ _ hsuper
  obtain ⟨interfaces, hrest₇, hinterfaces⟩ : ∃ bs, s₇.rest = bs ++ s₈.rest ∧
      Table.interfaces.encode BigEndian.u16 c.interfaces = .ok bs :=
    Table.finds_encode Finds.u16 _ _ _ hinterfaces
  obtain ⟨fields, hrest₈, hfields⟩ := Member.finds_readAll .fields _ _ _ hfields
  obtain ⟨methods, hrest₉, hmethods⟩ := Member.finds_readAll .methods _ _ _ hmethods
  obtain ⟨attributes, hrest₁₀, hattributes⟩ := Attribute.finds_readAll _ _ _ hattributes
  refine ⟨BigEndian.u32 magic ++ (BigEndian.u16 c.minorVersion ++ BigEndian.u16 c.majorVersion),
    count, body, s₄.rest, ?_, rfl, hfound, fun pool hpool => ?_⟩
  · rw [show data = (Cursor.start data).rest from rfl, hdata, hrest₁, hrest₂, hrest₃]
    simp only [List.append_assoc]
  · unfold encode
    rw [hpool, hinterfaces, hfields, hmethods, hattributes, hrest₄, hrest₅, hrest₆, hrest₇, hrest₈,
      hrest₉, hrest₁₀, hend, List.append_nil]
    show Except.ok _ = Except.ok _
    simp only [List.append_assoc]

/-! ## §3 Exactly which data is kept -/

section Data

variable {head body behind : Bytes} {count : UInt16} (hhead : head.length = 8)
include hhead

theorem declaredSlots_append :
    declaredSlots (head ++ (BigEndian.u16 count ++ (body ++ behind))) = count.toNat := by
  unfold declaredSlots
  rw [← hhead, List.drop_left, show 2 = (BigEndian.u16 count).length from rfl, List.take_left,
    BigEndian.value_u16]

theorem texts_append :
    texts (head ++ (BigEndian.u16 count ++ (body ++ behind))) =
      Pool.textPayloads (count.toNat - 1) (body ++ behind) := by
  have hten : 10 = (head ++ BigEndian.u16 count).length := by
    rw [List.length_append, hhead]
    rfl
  unfold texts
  rw [declaredSlots_append hhead, ← List.append_assoc, hten, List.drop_left]

end Data

/-- **Which data is rewritten byte for byte.**  A class that was read, with no wide constant in the
last slot an index can reach, is stored and read back as it is.  It is stored as it was read
exactly if the pool declares a slot, the last one it declares is not the first of two, and every
text is in its shortest form.  Where only the texts are not, it takes fewer bytes. -/
theorem rewritten_exactly_iff {data : Bytes} {c : ClassFile} (h : parse data = .ok c)
    (hlast : (c.pool.slot 65534).isWide = false) :
    ∃ bs, c.encode = .ok bs ∧ parse bs = .ok c ∧
      (bs = data ↔ declaredSlots data ≠ 0 ∧
        (c.pool.slot (UInt16.ofNat (declaredSlots data - 1))).isWide = false ∧
        ∀ payload ∈ texts data, ModifiedUtf8.Shortest payload) ∧
      (declaredSlots data ≠ 0 →
        (c.pool.slot (UInt16.ofNat (declaredSlots data - 1))).isWide = false →
        (¬ ∀ payload ∈ texts data, ModifiedUtf8.Shortest payload) → bs.length < data.length) := by
  have hregular := (wellFormed_of_parse h).1
  have hpayloads := shortPayloads_of_parse h
  obtain ⟨head, count, body, behind, rfl, hhead, hfound, hencode⟩ := found_of_parse h
  have hsize := hfound.storable hlast
  obtain ⟨new, hpool, hshortened⟩ := hfound.encode hsize
  have hstored := hencode _ hpool
  have hshort := hshortened behind
  rw [← texts_append hhead] at hshort
  have hzero : declaredSlots (head ++ (BigEndian.u16 count ++ (body ++ behind))) ≠ 0 ↔
      count ≠ 0 := by
    rw [declaredSlots_append hhead, Ne, Ne, ← UInt16.toNat_inj]
    rfl
  have hcount : UInt16.ofNat c.pool.size = count ↔ c.pool.size = count.toNat := by
    rw [← UInt16.toNat_inj, UInt16.toNat_ofNat_of_lt' (Nat.lt_of_le_of_lt hsize (by decide))]
  refine ⟨_, hstored, parse_of_encode hregular hpayloads hstored, ?_, fun h0 hw htexts => ?_⟩
  · rw [hzero, declaredSlots_append hhead, ← and_assoc, ← hfound.exact_iff, ← hcount,
      ← hshort.eq_iff, List.append_right_inj, List.append_assoc]
    constructor
    · intro heq
      have hparts := List.append_inj heq rfl
      refine ⟨?_, List.append_left_injective _ hparts.2⟩
      exact UInt16.toNat_inj.mp
        (by rw [← BigEndian.value_u16, ← BigEndian.value_u16, hparts.1])
    · rintro ⟨hcount, hnew⟩
      rw [hcount, hnew]
  · have hlt := hshort.length_lt htexts
    simp only [List.length_append, BigEndian.length_u16]
    omega

/-- A class of the name A, which is spelled in two bytes. -/
def overlongSample : Bytes :=
  [0xCA, 0xFE, 0xBA, 0xBE, 0, 0, 0, 52, 0, 3, 1, 0, 2, 0xC1, 0x81, 7, 0, 1, 0, 0x21, 0, 2, 0, 0,
    0, 0, 0, 0, 0, 0, 0, 0]

/-- The class that is read of it. -/
def overlongClass : ClassFile where
  minorVersion := 0
  majorVersion := 52
  pool := ⟨#[.unused, .utf8 "A", .classRef 1]⟩
  access := ⟨0x0021⟩
  thisClass := 2
  superClass := 0
  interfaces := []
  fields := []
  methods := []
  attributes := []

/-- The name is stored in one byte. -/
theorem rewritten_exactly_iff_overlong :
    parse overlongSample = .ok overlongClass ∧
    (overlongClass.pool.slot 65534).isWide = false ∧
    ∃ bs, overlongClass.encode = .ok bs ∧ parse bs = .ok overlongClass ∧
      bs ≠ overlongSample ∧ bs.length < overlongSample.length := by
  have hparse : parse overlongSample = .ok overlongClass :=
    eq_ok_of_toOption (by decide +kernel)
  have hlast : (overlongClass.pool.slot 65534).isWide = false := by decide
  obtain ⟨bs, hencode, hback, hexact, hfewer⟩ := rewritten_exactly_iff hparse hlast
  have hdeclared : declaredSlots overlongSample = 3 := by decide
  have htexts : texts overlongSample = [[0xC1, 0x81]] := by decide +kernel
  have hlong : ¬ ∀ payload ∈ texts overlongSample, ModifiedUtf8.Shortest payload := by
    have hdecode : ModifiedUtf8.decode [0xC1, 0x81] = .ok "A" :=
      eq_ok_of_toOption (by decide +kernel)
    rw [htexts, List.forall_mem_singleton, ModifiedUtf8.shortest_iff hdecode]
    decide +kernel
  rw [hdeclared] at hexact hfewer
  exact ⟨hparse, hlast, bs, hencode, hback, fun heq => hlong (hexact.mp heq).2.2,
    hfewer (by decide) (by decide) hlong⟩

end ClassFile

end Reshape
