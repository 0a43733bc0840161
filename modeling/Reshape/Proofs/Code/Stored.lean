import Reshape.Proofs.ClassFile.Canonical
import Reshape.Proofs.Code.Tables

/-!
# Bodies have one stored form

The parts of a body, and the rows of its tables, are words and counted data of which each has one
stored form.  So a body that was read is written byte for byte as it was, if its code is not too large
to be written at all: reading admits any size that the length field can count.  A body must end with
its data.  The tables of source lines and of local variables need not: what is behind their rows is not
looked at, and is not written again.
-/

namespace Reshape

/-! ## §1 What was read of a body -/

theorem Handler.finds_read : Finds Handler.read fun h bs => bs = h.encode := by
  refine .bind .u16 fun start bs₁ hstart => .bind .u16 fun stop bs₂ hstop =>
    .bind .u16 fun target bs₃ htarget => .last .u16 fun catchType bs₄ hcatchType => ?_
  rw [Handler.encode, hstart, hstop, htarget, hcatchType, List.append_assoc, List.append_assoc]

namespace Body

theorem finds_content : Finds content StoredAs := by
  have hrows : Finds (Reader.counted Handler.read) fun handlers bs =>
      Table.exceptionHandlers.encode Handler.encode handlers = .ok bs :=
    Table.finds_encode Handler.finds_read
  refine .bind .u16 fun maxStack bs₁ hmaxStack => .bind .u16 fun maxLocals bs₂ hmaxLocals =>
    .bind .prefixed32 fun code bs₃ hcode => .bind hrows fun handlers bs₄ hhandlers =>
    .last Attribute.finds_readAll fun attributes bs₅ hattributes => ?_
  obtain ⟨-, rfl⟩ := hcode
  subst hmaxStack hmaxLocals
  exact .mk hhandlers hattributes

/-- **Whatever is read as a body is its stored form.** -/
theorem storedAs_of_parse {b : Body} {payload : Bytes} (h : parse payload = .ok b) :
    b.StoredAs payload := by
  rw [parse, reader_eq] at h
  exact finds_content.runOn_ending h

theorem encode_of_large {b : Body} (h : maxCode < b.code.size) :
    b.encode = .error (.codeTooLarge b.code.size) := by
  rw [encode, if_pos h]
  rfl

end Body

/-! ## §2 Tables that may go on -/

/-- A counted table is read of any data that begins with its stored form. -/
theorem Table.runOn_counted_iff {α : Type} (table : Table) {item : α → Bytes}
    {reader : Reader FormatError α} (hreads : ∀ a, Reads reader (item a) a)
    (hfinds : Finds reader fun a bs => bs = item a) {payload : Bytes} {items : List α} :
    (Reader.counted reader).runOn payload = .ok items ↔
      ∃ stored behind, payload = stored ++ behind ∧ table.encode item items = .ok stored := by
  constructor
  · intro h
    exact (Table.finds_encode hfinds).runOn h
  · rintro ⟨stored, behind, rfl, h⟩
    exact (Table.reads_encode (fun a _ => hreads a) h).runOn_append behind

theorem LineNumber.finds_read : Finds LineNumber.read fun l bs => bs = l.encode := by
  refine .bind .u16 fun start bs hstart => .last .u16 fun line bs' hline => ?_
  rw [LineNumber.encode, hstart, hline]

theorem LocalVariable.finds_read : Finds LocalVariable.read fun v bs => bs = v.encode := by
  refine .bind .u16 fun start bs₁ hstart => .bind .u16 fun length bs₂ hlength =>
    .bind .u16 fun name bs₃ hname => .bind .u16 fun descriptor bs₄ hdescriptor =>
    .last .u16 fun index bs₅ hindex => ?_
  rw [LocalVariable.encode, hstart, hlength, hname, hdescriptor, hindex, List.append_assoc,
    List.append_assoc, List.append_assoc]

theorem LineNumber.parseAll_eq_ok {payload : Bytes} {lines : List LineNumber} :
    parseAll payload = .ok lines ↔
      ∃ stored behind, payload = stored ++ behind ∧ encodeAll lines = .ok stored :=
  Table.lineNumbers.runOn_counted_iff LineNumber.reads_encode LineNumber.finds_read

theorem LocalVariable.parseAll_eq_ok {payload : Bytes} {locals : List LocalVariable} :
    parseAll payload = .ok locals ↔
      ∃ stored behind, payload = stored ++ behind ∧ encodeAll locals = .ok stored :=
  Table.localVariables.runOn_counted_iff LocalVariable.reads_encode LocalVariable.finds_read

/-! ## §3 Bodies and tables -/

namespace Body

/-- **Bodies byte for byte.**  A body that was read is written as it was read, unless its code takes
more than 65535 bytes, which only writing refuses.  A body whose attributes are not too long is read
back from what is written.  The entries of a table are those that were read of some data if and only if
the data begins with what is written of them. -/
theorem bodies_exact :
    (∀ (payload : Bytes) (b : Body), parse payload = .ok b →
      (b.code.size ≤ 65535 → b.encode = .ok payload) ∧
      (65535 < b.code.size → b.encode = .error (.codeTooLarge b.code.size))) ∧
    (∀ (b : Body) (payload : Bytes), (∀ a ∈ b.attributes, a.ShortPayload) →
      b.encode = .ok payload → parse payload = .ok b) ∧
    (∀ (payload : Bytes) (lines : List LineNumber), LineNumber.parseAll payload = .ok lines ↔
      ∃ stored behind, payload = stored ++ behind ∧ LineNumber.encodeAll lines = .ok stored) ∧
    ∀ (payload : Bytes) (locals : List LocalVariable), LocalVariable.parseAll payload = .ok locals ↔
      ∃ stored behind, payload = stored ++ behind ∧ LocalVariable.encodeAll locals = .ok stored := by
  refine ⟨fun payload b h => ⟨fun hsize => ?_, encode_of_large⟩, fun b payload => parse_of_encode,
    fun payload lines => LineNumber.parseAll_eq_ok, fun payload locals => LocalVariable.parseAll_eq_ok⟩
  exact encode_eq_ok.mpr ⟨hsize, storedAs_of_parse h⟩

/-- Two instructions, one of them protected, and an attribute that nobody knows. -/
def protectedBody : Body where
  maxStack := 2
  maxLocals := 1
  code := #[0x2A, 0xB1]
  handlers := [⟨0, 1, 1, 0⟩]
  attributes := [⟨7, [1, 2, 3]⟩]

def protectedPayload : Bytes :=
  [0, 2, 0, 1, 0, 0, 0, 2, 0x2A, 0xB1, 0, 1, 0, 0, 0, 1, 0, 1, 0, 0, 0, 1, 0, 7, 0, 0, 0, 3, 1, 2, 3]

/-- One byte of code more than there may be. -/
def largeBody : Body := ⟨0, 0, Array.replicate 65536 0, [], []⟩

/-- A body in both directions, one that is read although it cannot be written, and a table with a byte
behind its only line. -/
theorem bodies_exact_large :
    parse protectedPayload = .ok protectedBody ∧ protectedBody.encode = .ok protectedPayload ∧
      (∃ payload, parse payload = .ok largeBody ∧
        largeBody.encode = .error (.codeTooLarge largeBody.code.size)) ∧
      LineNumber.parseAll [0, 1, 0, 0, 0, 12, 9] = .ok [⟨0, 12⟩] ∧
      LineNumber.encodeAll [⟨0, 12⟩] = .ok [0, 1, 0, 0, 0, 12] ∧
      LocalVariable.parseAll [0, 1, 0, 0, 0, 2, 0, 3, 0, 4, 0, 1, 9] = .ok [⟨0, 2, 3, 4, 1⟩] := by
  obtain ⟨hwritten, hread, hlines, hlocals⟩ := bodies_exact
  have hsize : largeBody.code.size = 65536 := Array.size_replicate
  have hlarge : parse _ = .ok largeBody :=
    parse_of_storedAs (by rw [hsize]; decide) nofun (.mk rfl rfl)
  have hstored : protectedBody.encode = .ok protectedPayload := rfl
  have hshort : ∀ a ∈ protectedBody.attributes, a.payload.length < 4294967296 := by decide
  have hback := hread _ _ hshort hstored
  refine ⟨hback, (hwritten _ _ hback).1 (by decide), ⟨_, hlarge, (hwritten _ _ hlarge).2 ?_⟩,
    (hlines _ _).mpr ⟨_, [9], rfl, rfl⟩, rfl, (hlocals _ _).mpr ⟨_, [9], rfl, rfl⟩⟩
  rw [hsize]
  decide

end Body

end Reshape
