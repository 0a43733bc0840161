import Reshape.Proofs.ClassFile.Stored
import Reshape.Proofs.Pool.Slots

/-!
# Storing a class loses nothing

A class with a regular pool is read back from what is stored of it.  Storing fails only where the
format has no room: a pool of too many slots, a text of too many bytes, a table of too many rows.
-/

namespace Reshape

/-! ## §1 What has no room -/

theorem Table.count_eq_error {table : Table} {n : Nat} {e : BuildError} :
    table.count n = .error e ↔ 65535 < n ∧ e = .tooManyItems table n := by
  unfold Table.count
  by_cases hn : n < 65536
  · simp only [if_pos hn, reduceCtorEq, false_iff]
    omega
  · simp only [if_neg hn, Except.error.injEq]
    constructor
    · rintro rfl
      exact ⟨by omega, rfl⟩
    · rintro ⟨-, rfl⟩
      rfl

theorem Table.encode_eq_error {α : Type} {table : Table} {item : α → Bytes} {items : List α}
    {e : BuildError} :
    table.encode item items = .error e ↔
      65535 < items.length ∧ e = .tooManyItems table items.length := by
  rw [← Table.count_eq_error]
  unfold Table.encode
  cases table.count items.length with
  | ok count => simp
  | error e' => simp

/-- Only a text can be too long for its constant. -/
theorem Constant.encode_eq_error {c : Constant} {e : BuildError} :
    c.encode = .error e ↔ ∃ text, c = .utf8 text ∧
      65535 < (ModifiedUtf8.encode text).length ∧
        e = .tooManyItems .utf8Bytes (ModifiedUtf8.encode text).length := by
  cases c with
  | utf8 text =>
      simp only [Constant.encode]
      cases hcount : Table.utf8Bytes.count (ModifiedUtf8.encode text).length with
      | ok count =>
          simp only [reduceCtorEq, false_iff, not_exists, not_and]
          rintro _ ⟨⟩ hlong
          rw [Table.count_eq_error.mpr ⟨hlong, rfl⟩] at hcount
          cases hcount
      | error e' =>
          obtain ⟨hlong, rfl⟩ := Table.count_eq_error.mp hcount
          constructor
          · rintro ⟨⟩
            exact ⟨text, rfl, hlong, rfl⟩
          · rintro ⟨_, ⟨⟩, -, rfl⟩
            rfl
  | _ => simp [Constant.encode]

namespace ClassFile

/-- The tables of attributes that are stored with the class. -/
def attributeTables (c : ClassFile) : List (List Attribute) :=
  c.attributes :: (c.fields.map Member.attributes ++ c.methods.map Member.attributes)

/-- What the format has no room for, with the error that reports it. -/
inductive Oversized (c : ClassFile) : BuildError → Prop
  | pool (h : Pool.maxSlots < c.pool.size) : Oversized c .poolOverflow
  | text {text : String} (stored : Constant.utf8 text ∈ c.pool.slots.toList)
      (h : 65535 < (ModifiedUtf8.encode text).length) :
      Oversized c (.tooManyItems .utf8Bytes (ModifiedUtf8.encode text).length)
  | interfaces (h : 65535 < c.interfaces.length) :
      Oversized c (.tooManyItems .interfaces c.interfaces.length)
  | fields (h : 65535 < c.fields.length) : Oversized c (.tooManyItems .fields c.fields.length)
  | methods (h : 65535 < c.methods.length) :
      Oversized c (.tooManyItems .methods c.methods.length)
  | attributes {table : List Attribute} (stored : table ∈ c.attributeTables)
      (h : 65535 < table.length) : Oversized c (.tooManyItems .attributes table.length)

end ClassFile

theorem Pool.encode_eq_error {p : Pool} {e : BuildError} (h : p.encode = .error e) :
    (Pool.maxSlots < p.size ∧ e = .poolOverflow) ∨
      ∃ c ∈ p.slots.toList, c.encode = .error e := by
  unfold Pool.encode at h
  by_cases hsize : p.size ≤ maxSlots
  · rw [if_pos hsize] at h
    rcases except_bind_eq_error.mp h with h | ⟨entries, -, h⟩
    · exact .inr (except_mapM_eq_error h)
    · cases h
  · rw [if_neg hsize] at h
    cases h
    exact .inl ⟨Nat.lt_of_not_le hsize, rfl⟩

theorem Member.encodeAll_eq_error {carrier : Carrier} {table : Table}
    {members : List (Member carrier)} {e : BuildError}
    (h : Member.encodeAll table members = .error e) :
    (65535 < members.length ∧ e = .tooManyItems table members.length) ∨
      ∃ m ∈ members, 65535 < m.attributes.length ∧
        e = .tooManyItems .attributes m.attributes.length := by
  rcases except_bind_eq_error.mp h with h | ⟨count, -, h⟩
  · exact .inl (Table.count_eq_error.mp h)
  · rcases except_bind_eq_error.mp h with h | ⟨encoded, -, h⟩
    · obtain ⟨m, hm, h⟩ := except_mapM_eq_error h
      rcases except_bind_eq_error.mp h with h | ⟨attributes, -, h⟩
      · exact .inr ⟨m, hm, Table.encode_eq_error.mp h⟩
      · cases h
    · cases h

namespace ClassFile

/-- Every failure to store a class is for want of room. -/
theorem oversized_of_encode {c : ClassFile} {e : BuildError} (h : c.encode = .error e) :
    c.Oversized e := by
  have hfield {f : Field} (hf : f ∈ c.fields) : f.attributes ∈ c.attributeTables :=
    List.mem_cons_of_mem _ (List.mem_append_left _ (List.mem_map_of_mem hf))
  have hmethod {m : Method} (hm : m ∈ c.methods) : m.attributes ∈ c.attributeTables :=
    List.mem_cons_of_mem _ (List.mem_append_right _ (List.mem_map_of_mem hm))
  rcases except_bind_eq_error.mp h with h | ⟨pool, -, h⟩
  · rcases Pool.encode_eq_error h with ⟨hsize, rfl⟩ | ⟨d, hd, h⟩
    · exact .pool hsize
    · obtain ⟨text, rfl, hlong, rfl⟩ := Constant.encode_eq_error.mp h
      exact .text hd hlong
  rcases except_bind_eq_error.mp h with h | ⟨interfaces, -, h⟩
  · obtain ⟨hlong, rfl⟩ := Table.encode_eq_error.mp h
    exact .interfaces hlong
  rcases except_bind_eq_error.mp h with h | ⟨fields, -, h⟩
  · rcases Member.encodeAll_eq_error h with ⟨hlong, rfl⟩ | ⟨f, hf, hlong, rfl⟩
    · exact .fields hlong
    · exact .attributes (hfield hf) hlong
  rcases except_bind_eq_error.mp h with h | ⟨methods, -, h⟩
  · rcases Member.encodeAll_eq_error h with ⟨hlong, rfl⟩ | ⟨m, hm, hlong, rfl⟩
    · exact .methods hlong
    · exact .attributes (hmethod hm) hlong
  rcases except_bind_eq_error.mp h with h | ⟨attributes, -, h⟩
  · obtain ⟨hlong, rfl⟩ := Table.encode_eq_error.mp h
    exact .attributes List.mem_cons_self hlong
  · cases h

/-- A class that can be stored has room for everything. -/
theorem not_oversized_of_encode {c : ClassFile} {bs : Bytes} {e : BuildError}
    (h : c.encode = .ok bs) : ¬ c.Oversized e := by
  obtain ⟨pool, hpool, h⟩ := except_bind_eq_ok.mp h
  obtain ⟨interfaces, hinterfaces, h⟩ := except_bind_eq_ok.mp h
  obtain ⟨fields, hfields, h⟩ := except_bind_eq_ok.mp h
  obtain ⟨methods, hmethods, h⟩ := except_bind_eq_ok.mp h
  obtain ⟨attributes, hattributes, -⟩ := except_bind_eq_ok.mp h
  have hmembers {carrier : Carrier} {table : Table} {members : List (Member carrier)}
      {stored : Bytes} (h : Member.encodeAll table members = .ok stored) :
      members.length ≤ 65535 ∧ ∀ m ∈ members, m.attributes.length ≤ 65535 := by
    obtain ⟨bss, hlength, -, hrow⟩ := Member.encodeAll_eq_ok.mp h
    refine ⟨Nat.le_of_lt_succ hlength, fun m hm => ?_⟩
    obtain ⟨bytes, -, hm⟩ := exists_right_of_forall₂ hrow hm
    obtain ⟨attributes, hattributes, -⟩ := except_bind_eq_ok.mp hm
    exact Nat.le_of_lt_succ (Table.encode_eq_ok.mp hattributes).1
  intro ho
  cases ho with
  | pool hsize =>
      rw [Pool.encode, if_neg (Nat.not_le_of_lt hsize)] at hpool
      cases hpool
  | text stored hlong =>
      unfold Pool.encode at hpool
      split at hpool
      · obtain ⟨entries, hentries, -⟩ := except_bind_eq_ok.mp hpool
        obtain ⟨bytes, -, ht⟩ := exists_right_of_forall₂ (except_mapM_eq_ok.mp hentries) stored
        rw [Constant.encode_eq_error.mpr ⟨_, rfl, hlong, rfl⟩] at ht
        cases ht
      · cases hpool
  | interfaces hlong =>
      exact absurd (Table.encode_eq_ok.mp hinterfaces).1 (Nat.not_lt_of_le hlong)
  | fields hlong => exact absurd (hmembers hfields).1 (Nat.not_le_of_lt hlong)
  | methods hlong => exact absurd (hmembers hmethods).1 (Nat.not_le_of_lt hlong)
  | @attributes table stored hlong =>
      have hshort : table.length ≤ 65535 := by
        rcases List.mem_cons.mp stored with rfl | stored
        · exact Nat.le_of_lt_succ (Table.encode_eq_ok.mp hattributes).1
        · rcases List.mem_append.mp stored with stored | stored
          · obtain ⟨f, hf, rfl⟩ := List.mem_map.mp stored
            exact (hmembers hfields).2 f hf
          · obtain ⟨m, hm, rfl⟩ := List.mem_map.mp stored
            exact (hmembers hmethods).2 m hm
      exact absurd hshort (Nat.not_le_of_lt hlong)

theorem encode_fails_iff {c : ClassFile} :
    (∃ e, c.encode = .error e) ↔ ∃ e, c.Oversized e := by
  constructor
  · rintro ⟨e, h⟩
    exact ⟨e, oversized_of_encode h⟩
  · rintro ⟨e, h⟩
    cases hencode : c.encode with
    | error e => exact ⟨e, rfl⟩
    | ok bs => exact absurd h (not_oversized_of_encode hencode)

/-! ## §2 Nothing is lost -/

/-- **Storing loses nothing.**  Every pool that is started, read or added to is regular.  A class
with a regular pool, and payloads that their length fields can count, is read back as the same
class from what is stored of it, and it can be stored unless there is no room for a pool, a text or
a table. -/
theorem encode_lossless :
    Pool.empty.Regular ∧
    (∀ (data : Bytes) (c : ClassFile), parse data = .ok c → c.pool.Regular) ∧
    (∀ (a : Pool.Addition) (p : Pool), p.Regular → (stateAfter a.action p).Regular) ∧
    (∀ (c : ClassFile) (bs : Bytes), c.pool.Regular → c.ShortPayloads → c.encode = .ok bs →
      parse bs = .ok c) ∧
    ∀ c : ClassFile, (∀ e, c.encode = .error e → c.Oversized e) ∧
      ((∃ e, c.encode = .error e) ↔ ∃ e, c.Oversized e) := by
  refine ⟨Pool.regular_iff.mpr Pool.wellFormed_empty, fun data c h => ?_, fun a p hp => ?_,
    fun c bs hp hshort h => ?_, fun c => ⟨fun e => oversized_of_encode, encode_fails_iff⟩⟩
  · exact Pool.regular_iff.mpr (wellFormed_of_parse h).1
  · exact (a.grows p).regular hp
  · exact parse_of_encode (Pool.regular_iff.mp hp) hshort h

/-- A long in the middle of the pool, a text beyond ASCII, and a field with an attribute that
nobody knows. -/
def wideSample : ClassFile where
  minorVersion := 0
  majorVersion := 52
  pool := ⟨#[.unused, .utf8 "A", .classRef 1, .long 7, .unused, .utf8 "é", .utf8 "I"]⟩
  access := ⟨0x0021⟩
  thisClass := 2
  superClass := 0
  interfaces := [2]
  fields := [⟨⟨0x0001⟩, 5, 6, [⟨5, [1, 2, 3]⟩]⟩]
  methods := []
  attributes := []

/-- The class is stored and read back; with an interface too many it is not stored. -/
theorem encode_lossless_wide :
    wideSample.pool.Regular ∧ wideSample.ShortPayloads ∧
    (∃ bs, wideSample.encode = .ok bs ∧ parse bs = .ok wideSample) ∧
    ∃ e, { wideSample with interfaces := List.replicate 65536 2 }.encode = .error e := by
  obtain ⟨-, -, -, hback, hroom⟩ := encode_lossless
  have hregular : wideSample.pool.Regular :=
    Pool.regular_iff.mpr ⟨[.utf8 "A", .classRef 1, .long 7, .utf8 "é", .utf8 "I"], by simp, rfl⟩
  have hshort : wideSample.ShortPayloads := by decide
  have hstored : wideSample.encode.toOption.isSome = true := by decide +kernel
  obtain ⟨bs, hbs⟩ := Option.isSome_iff_exists.mp hstored
  have hencode := eq_ok_of_toOption hbs
  refine ⟨hregular, hshort, ⟨bs, hencode, hback _ bs hregular hshort hencode⟩, ?_⟩
  have hlong : Oversized { wideSample with interfaces := List.replicate 65536 2 }
      (.tooManyItems .interfaces (List.replicate 65536 (2 : UInt16)).length) :=
    .interfaces (by rw [List.length_replicate]; decide)
  exact (hroom _).2.mpr ⟨_, hlong⟩

end ClassFile

end Reshape
