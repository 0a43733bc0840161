import Reshape.ClassFile.Format
import Reshape.Proofs.Bytes.Whole
import Reshape.Proofs.Pool.Stored

/-!
# Class files are read back

A class whose pool is a row of constants is read back as it was written.  The stored form of an
attribute counts the bytes of its payload in 32 bits, and this is the one size that writing does
not check.
-/

namespace Reshape

/-! ## §1 Attributes, bodies and members -/

/-- The payload fits its length field. -/
def Attribute.ShortPayload (a : Attribute) : Prop := a.payload.length < 4294967296

namespace Attribute

theorem reads_encode {a : Attribute} (h : a.ShortPayload) :
    Reads Attribute.read a.encode a := by
  unfold Attribute.encode
  rw [List.append_assoc]
  exact Reads.bind (Reads.u16 a.name) (Reads.last (Attribute.mk a.name) (Reads.prefixed32 h))

/-- A payload that was read has the length that stood in front of it. -/
theorem shortPayload_of_read {a : Attribute} {c c' : Cursor}
    (h : Attribute.read c = .ok a c') : a.ShortPayload := by
  obtain ⟨name, c₁, -, h⟩ := state_bind_eq_ok.mp h
  obtain ⟨payload, c₂, hpayload, h⟩ := state_bind_eq_ok.mp h
  obtain ⟨rfl, rfl⟩ := state_pure_eq_ok.mp h
  obtain ⟨length, c₃, -, hbytes⟩ := state_bind_eq_ok.mp hpayload
  unfold Reader.bytes at hbytes
  dsimp only at hbytes
  split at hbytes
  · next hlength =>
    cases hbytes
    show (c₃.rest.take length.toNat).length < 4294967296
    rw [hlength]
    exact length.toNat_lt
  · cases hbytes

theorem reads_encodeAll {attributes : List Attribute} {bs : Bytes}
    (hshort : ∀ a ∈ attributes, a.ShortPayload) (h : encodeAll attributes = .ok bs) :
    Reads Attribute.readAll bs attributes :=
  Table.reads_encode (fun a ha => reads_encode (hshort a ha)) h

end Attribute

theorem Handler.reads_encode (h : Handler) : Reads Handler.read h.encode h := by
  unfold Handler.encode
  rw [List.append_assoc, List.append_assoc]
  exact .bind (.u16 h.start) (.bind (.u16 h.stop) (.bind (.u16 h.target)
    (.last (Handler.mk h.start h.stop h.target) (.u16 h.catchType))))

namespace Body

/-- Everything of a body; the data must end behind it. -/
def content : Reader FormatError Body := do
  let maxStack ← Reader.u16
  let maxLocals ← Reader.u16
  let code ← Reader.prefixed32
  let handlers ← Reader.counted Handler.read
  let attributes ← Attribute.readAll
  return ⟨maxStack, maxLocals, code.toArray, handlers, attributes⟩

theorem reader_eq : reader = content >>= Reader.ending .code := by
  simp only [content, bind_assoc, pure_bind]
  rfl

/-- The stored form of a body, whether or not its code is too large to be written. -/
inductive StoredAs (b : Body) : Bytes → Prop
  | mk {handlers attributes : Bytes}
      (hhandlers : Table.exceptionHandlers.encode Handler.encode b.handlers = .ok handlers)
      (hattributes : Attribute.encodeAll b.attributes = .ok attributes) :
      StoredAs b (BigEndian.u16 b.maxStack ++ (BigEndian.u16 b.maxLocals ++
        (BigEndian.u32 (UInt32.ofNat b.code.size) ++ b.code.toList ++ (handlers ++ attributes))))

/-- What is written of a body. -/
theorem encode_eq_ok {b : Body} {payload : Bytes} :
    b.encode = .ok payload ↔ b.code.size ≤ maxCode ∧ b.StoredAs payload := by
  unfold encode
  by_cases hsize : maxCode < b.code.size
  · rw [if_pos hsize]
    exact iff_of_false nofun fun h => absurd h.1 (Nat.not_le_of_lt hsize)
  · rw [if_neg hsize]
    constructor
    · intro h
      obtain ⟨handlers, hhandlers, h⟩ := except_bind_eq_ok.mp h
      obtain ⟨attributes, hattributes, h⟩ := except_bind_eq_ok.mp h
      cases except_pure_eq_ok.mp h
      refine ⟨Nat.le_of_not_lt hsize, ?_⟩
      simp only [List.append_assoc]
      rw [← List.append_assoc (BigEndian.u32 _)]
      exact .mk hhandlers hattributes
    · rintro ⟨-, ⟨hhandlers, hattributes⟩⟩
      refine except_bind_eq_ok.mpr ⟨_, hhandlers, except_bind_eq_ok.mpr ⟨_, hattributes, ?_⟩⟩
      simp only [except_pure_eq_ok, List.append_assoc]

theorem StoredAs.reads {b : Body} {payload : Bytes} (h : b.StoredAs payload)
    (hcode : b.code.size < 4294967296) (hshort : ∀ a ∈ b.attributes, a.ShortPayload) :
    Reads content payload b := by
  obtain ⟨hhandlers, hattributes⟩ := h
  rw [← Array.length_toList] at hcode ⊢
  have hhandlersRead := Table.reads_encode (fun h _ => Handler.reads_encode h) hhandlers
  exact .bind (.u16 b.maxStack) (.bind (.u16 b.maxLocals) (.bind (.prefixed32 hcode)
    (.bind hhandlersRead (.last _ (Attribute.reads_encodeAll hshort hattributes)))))

/-- **A body is read from its stored form.** -/
theorem parse_of_storedAs {b : Body} {payload : Bytes} (hcode : b.code.size < 4294967296)
    (hshort : ∀ a ∈ b.attributes, a.ShortPayload) (h : b.StoredAs payload) :
    parse payload = .ok b := by
  rw [parse, reader_eq]
  exact (h.reads hcode hshort).runOn_ending

/-- **A body is read back as it was written.** -/
theorem parse_of_encode {b : Body} {payload : Bytes}
    (hshort : ∀ a ∈ b.attributes, a.ShortPayload) (h : b.encode = .ok payload) :
    parse payload = .ok b := by
  obtain ⟨hsize, hstored⟩ := encode_eq_ok.mp h
  exact parse_of_storedAs (Nat.lt_of_le_of_lt hsize (by decide)) hshort hstored

end Body

namespace Member

variable {carrier : Carrier}

theorem shortPayload_of_read {m : Member carrier} {c c' : Cursor}
    (h : Member.read c = .ok m c') : ∀ a ∈ m.attributes, a.ShortPayload := by
  obtain ⟨access, c₁, -, h⟩ := state_bind_eq_ok.mp h
  obtain ⟨name, c₂, -, h⟩ := state_bind_eq_ok.mp h
  obtain ⟨descriptor, c₃, -, h⟩ := state_bind_eq_ok.mp h
  obtain ⟨attributes, c₄, hattributes, h⟩ := state_bind_eq_ok.mp h
  obtain ⟨rfl, -⟩ := state_pure_eq_ok.mp h
  exact Reader.forall_of_counted (fun _ _ _ => Attribute.shortPayload_of_read) hattributes

theorem reads_encode {m : Member carrier} {bs : Bytes}
    (hshort : ∀ a ∈ m.attributes, a.ShortPayload) (h : m.encode = .ok bs) :
    Reads Member.read bs m := by
  obtain ⟨attributes, hattributes, h⟩ := except_bind_eq_ok.mp h
  cases (except_pure_eq_ok.mp h)
  rw [List.append_assoc, List.append_assoc]
  exact Reads.bind (Reads.u16 _) (Reads.bind (Reads.u16 _) (Reads.bind (Reads.u16 _)
    (Reads.last (Member.mk m.access m.name m.descriptor)
      (Attribute.reads_encodeAll hshort hattributes))))

theorem encodeAll_eq_ok {table : Table} {members : List (Member carrier)} {bs : Bytes} :
    encodeAll table members = .ok bs ↔ ∃ bss, members.length < 65536 ∧
      bs = BigEndian.u16 (UInt16.ofNat members.length) ++ bss.flatten ∧
      List.Forall₂ (fun m bs => m.encode = .ok bs) members bss :=
  Table.rows_eq_ok

theorem reads_encodeAll {table : Table} {members : List (Member carrier)} {bs : Bytes}
    (hshort : ∀ m ∈ members, ∀ a ∈ m.attributes, a.ShortPayload)
    (h : encodeAll table members = .ok bs) : Reads (Reader.counted Member.read) bs members := by
  obtain ⟨bss, hlength, rfl, hrow⟩ := encodeAll_eq_ok.mp h
  have hstored := (List.forall₂_and_left _ _).mpr ⟨hshort, hrow⟩
  exact .counted (hstored.imp fun _ _ hm => reads_encode hm.1 hm.2).flip hlength

end Member

/-! ## §2 The class -/

namespace ClassFile

/-- Everything behind the word that class files start with. -/
def behindMagic : Reader FormatError ClassFile := do
  let minorVersion ← Reader.u16
  let majorVersion ← Reader.u16
  let pool ← Pool.read
  let access ← Reader.u16
  let thisClass ← Reader.u16
  let superClass ← Reader.u16
  let interfaces ← Reader.counted Reader.u16
  let fields ← Reader.counted Member.read
  let methods ← Reader.counted Member.read
  let attributes ← Attribute.readAll
  return ⟨minorVersion, majorVersion, pool, ⟨access⟩, thisClass, superClass, interfaces, fields,
    methods, attributes⟩

/-- Everything of a class; the data must end behind it. -/
def content : Reader FormatError ClassFile := do
  let word ← Reader.u32
  if word = magic then behindMagic else throw (.badMagic word)

theorem reader_eq : reader = content >>= Reader.ending .classFile := by
  simp only [content, bind_assoc]
  refine congrArg (Reader.u32 >>= ·) (funext fun word => ?_)
  by_cases hword : word = magic
  · rw [if_neg (not_not_intro hword), if_pos hword]
    simp only [behindMagic, bind_assoc]
    rfl
  · rw [if_pos hword, if_neg hword]
    rfl

/-- No attribute of the class or of one of its members is too long. -/
structure ShortPayloads (c : ClassFile) : Prop where
  ofClass : ∀ a ∈ c.attributes, a.ShortPayload
  ofFields : ∀ f ∈ c.fields, ∀ a ∈ f.attributes, a.ShortPayload
  ofMethods : ∀ m ∈ c.methods, ∀ a ∈ m.attributes, a.ShortPayload

instance (c : ClassFile) : Decidable c.ShortPayloads :=
  decidable_of_iff ((∀ a ∈ c.attributes, a.payload.length < 4294967296) ∧
      (∀ f ∈ c.fields, ∀ a ∈ f.attributes, a.payload.length < 4294967296) ∧
      ∀ m ∈ c.methods, ∀ a ∈ m.attributes, a.payload.length < 4294967296)
    ⟨fun h => ⟨h.1, h.2.1, h.2.2⟩, fun h => ⟨h.1, h.2, h.3⟩⟩

/-- **A class is read back as it was written.** -/
theorem parse_of_encode {c : ClassFile} {bs : Bytes} (hpool : c.pool.WellFormed)
    (hshort : c.ShortPayloads) (h : c.encode = .ok bs) : parse bs = .ok c := by
  obtain ⟨pool, hpoolBytes, h⟩ := except_bind_eq_ok.mp h
  obtain ⟨interfaces, hinterfaces, h⟩ := except_bind_eq_ok.mp h
  obtain ⟨fields, hfields, h⟩ := except_bind_eq_ok.mp h
  obtain ⟨methods, hmethods, h⟩ := except_bind_eq_ok.mp h
  obtain ⟨attributes, hattributes, h⟩ := except_bind_eq_ok.mp h
  cases (except_pure_eq_ok.mp h)
  have hpoolRead := Pool.reads_encode hpool hpoolBytes
  have hinterfacesRead :
      Reads (Reader.counted Reader.u16 : Reader FormatError _) interfaces c.interfaces :=
    Table.reads_encode (fun i _ => Reads.u16 i) hinterfaces
  have hfieldsRead := Member.reads_encodeAll hshort.ofFields hfields
  have hmethodsRead := Member.reads_encodeAll hshort.ofMethods hmethods
  have hattributesRead := Attribute.reads_encodeAll hshort.ofClass hattributes
  have hbehind : Reads behindMagic _ c :=
    .bind (.u16 c.minorVersion) (.bind (.u16 c.majorVersion) (.bind hpoolRead
      (.bind (.u16 c.access.raw) (.bind (.u16 c.thisClass) (.bind (.u16 c.superClass)
      (.bind hinterfacesRead (.bind hfieldsRead (.bind hmethodsRead
      (.last _ hattributesRead)))))))))
  have hcontent : Reads content _ c := .bind (.u32 magic) (by rwa [if_pos rfl])
  rw [parse, reader_eq]
  simp only [List.append_assoc]
  exact hcontent.runOn_ending

/-- A pool that can be stored is within reach of an index. -/
theorem addressable_of_encode {c : ClassFile} {bs : Bytes} (h : c.encode = .ok bs) :
    c.pool.Addressable := by
  obtain ⟨pool, hpool, -⟩ := except_bind_eq_ok.mp h
  unfold Pool.encode at hpool
  split at hpool
  · next hsize => exact Nat.le_trans hsize (by decide)
  · cases hpool

/-- What was read of a class that was read, each part from where the one before it ended. -/
theorem parse_steps {data : Bytes} {c : ClassFile} (h : parse data = .ok c) :
    ∃ s₁ s₂ s₃ s₄ s₅ s₆ s₇ s₈ s₉ s₁₀ s₁₁ : Cursor,
      (Reader.u32 : Reader FormatError UInt32) (Cursor.start data) = .ok magic s₁ ∧
      (Reader.u16 : Reader FormatError UInt16) s₁ = .ok c.minorVersion s₂ ∧
      (Reader.u16 : Reader FormatError UInt16) s₂ = .ok c.majorVersion s₃ ∧
      Pool.read s₃ = .ok c.pool s₄ ∧
      (Reader.u16 : Reader FormatError UInt16) s₄ = .ok c.access.raw s₅ ∧
      (Reader.u16 : Reader FormatError UInt16) s₅ = .ok c.thisClass s₆ ∧
      (Reader.u16 : Reader FormatError UInt16) s₆ = .ok c.superClass s₇ ∧
      (Reader.counted Reader.u16 : Reader FormatError (List UInt16)) s₇ = .ok c.interfaces s₈ ∧
      Reader.counted Member.read s₈ = .ok c.fields s₉ ∧
      Reader.counted Member.read s₉ = .ok c.methods s₁₀ ∧
      Attribute.readAll s₁₀ = .ok c.attributes s₁₁ ∧ s₁₁.rest = [] := by
  rw [parse, reader_eq] at h
  obtain ⟨_, hread, hend⟩ := Reader.runOn_ending_eq_ok.mp h
  obtain ⟨word, s₁, hmagic, hread⟩ := state_bind_eq_ok.mp hread
  split at hread
  · next hword =>
    subst hword
    obtain ⟨minorVersion, s₂, hminor, hread⟩ := state_bind_eq_ok.mp hread
    obtain ⟨majorVersion, s₃, hmajor, hread⟩ := state_bind_eq_ok.mp hread
    obtain ⟨pool, s₄, hpool, hread⟩ := state_bind_eq_ok.mp hread
    obtain ⟨access, s₅, haccess, hread⟩ := state_bind_eq_ok.mp hread
    obtain ⟨thisClass, s₆, hthis, hread⟩ := state_bind_eq_ok.mp hread
    obtain ⟨superClass, s₇, hsuper, hread⟩ := state_bind_eq_ok.mp hread
    obtain ⟨interfaces, s₈, hinterfaces, hread⟩ := state_bind_eq_ok.mp hread
    obtain ⟨fields, s₉, hfields, hread⟩ := state_bind_eq_ok.mp hread
    obtain ⟨methods, s₁₀, hmethods, hread⟩ := state_bind_eq_ok.mp hread
    obtain ⟨attributes, s₁₁, hattributes, hread⟩ := state_bind_eq_ok.mp hread
    obtain ⟨rfl, rfl⟩ := state_pure_eq_ok.mp hread
    exact ⟨s₁, s₂, s₃, s₄, s₅, s₆, s₇, s₈, s₉, s₁₀, s₁₁, hmagic, hminor, hmajor, hpool,
      haccess, hthis, hsuper, hinterfaces, hfields, hmethods, hattributes, hend⟩
  · exact (state_throw_eq_ok.mp hread).elim

/-- The pool of a class that was read is a row of constants, all within reach of an index. -/
theorem wellFormed_of_parse {data : Bytes} {c : ClassFile} (h : parse data = .ok c) :
    c.pool.WellFormed ∧ c.pool.Addressable := by
  obtain ⟨_, _, _, _, _, _, _, _, _, _, _, -, -, -, hpool, -⟩ := parse_steps h
  exact Pool.wellFormed_of_read hpool

/-- **A class that was read has short payloads**, since their lengths were read with them. -/
theorem shortPayloads_of_parse {data : Bytes} {c : ClassFile} (h : parse data = .ok c) :
    c.ShortPayloads := by
  obtain ⟨_, _, _, _, _, _, _, _, _, _, _, -, -, -, -, -, -, -, -, hfields, hmethods, hattributes,
    -⟩ := parse_steps h
  constructor
  · exact Reader.forall_of_counted (fun _ _ _ => Attribute.shortPayload_of_read) hattributes
  · exact Reader.forall_of_counted (fun _ _ _ => Member.shortPayload_of_read) hfields
  · exact Reader.forall_of_counted (fun _ _ _ => Member.shortPayload_of_read) hmethods

end ClassFile

end Reshape
