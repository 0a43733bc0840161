import Reshape.Proofs.Redefinition.Allocation
import Reshape.Proofs.Redefinition.FieldTable

/-!
# The field that the storage block uses

The block is made for the field of the configured name and descriptor, in the class that is
redefined.  Whether the class gets this field is decided elsewhere: from the loaded fields, and by
their names alone.  So a loaded field of the storage field's name and of another descriptor keeps
the storage field out, and the block reads a field that nobody declares.  This is the only way: a
pass that adds fields declares the storage field in every other case, and once a class declares it,
so does whatever a chain of passes makes of the class.
-/

namespace Reshape

/-! ## §1 Declared fields -/

/-- The class declares a field of this name and descriptor. -/
def ClassFile.DeclaresField (c : ClassFile) (name descriptor : String) : Prop :=
  ∃ f ∈ c.fields, f.identityIn c.pool = .ok (name, descriptor)

/-- The loaded class declares a field of this name and descriptor, be it reported or not. -/
def Schema.DeclaresField (s : Schema) (name descriptor : String) : Prop :=
  ∃ e ∈ s.fields, e.isFake = false ∧ e.name = name ∧ e.descriptor = descriptor

instance (s : Schema) (name descriptor : String) : Decidable (s.DeclaresField name descriptor) :=
  inferInstanceAs
    (Decidable (∃ e ∈ s.fields, e.isFake = false ∧ e.name = name ∧ e.descriptor = descriptor))

variable {name descriptor : String}

theorem ClassFile.declaresField_iff {c : ClassFile} {rows : List FieldRow}
    (h : c.fieldTable = .ok rows) :
    c.DeclaresField name descriptor ↔ ∃ access, (name, descriptor, access) ∈ rows := by
  have hrows := except_mapM_eq_ok.mp h
  constructor
  · rintro ⟨f, hf, hidentity⟩
    obtain ⟨row, hrow, hread⟩ := exists_right_of_forall₂ hrows hf
    obtain ⟨id, hid, hread⟩ := except_bind_eq_ok.mp hread
    cases hidentity.symm.trans hid
    cases except_pure_eq_ok.mp hread
    exact ⟨f.access, hrow⟩
  · rintro ⟨access, hrow⟩
    obtain ⟨f, hf, hread⟩ := exists_left_of_forall₂ hrows hrow
    obtain ⟨id, hid, hread⟩ := except_bind_eq_ok.mp hread
    cases except_pure_eq_ok.mp hread
    exact ⟨f, hf, hid⟩

theorem Schema.declaresField_iff {s : Schema} :
    s.DeclaresField name descriptor ↔ ∃ access, (name, descriptor, access) ∈ s.fieldTable := by
  constructor
  · rintro ⟨e, he, hdeclared, rfl, rfl⟩
    refine ⟨e.access, List.mem_map.mpr ⟨e, List.mem_filter.mpr ⟨he, ?_⟩, rfl⟩⟩
    rw [hdeclared]
    rfl
  · rintro ⟨access, hrow⟩
    obtain ⟨e, he, hrow⟩ := List.mem_map.mp hrow
    obtain ⟨he, hdeclared⟩ := List.mem_filter.mp he
    cases hrow
    exact ⟨e, he, by simpa using hdeclared, rfl, rfl⟩

namespace Pass

variable {source : AnnotationSource} {old : Schema} {c : ClassFile} {r r' : Registries}
  {o : Outcome} {config : Config}

/-- A pass declares what was loaded, and the storage field where it appends it. -/
theorem Ran.declaresField_schema_iff (t : Ran source old c r o r') (hp : c.pool.Addressable) :
    o.schema.DeclaresField name descriptor ↔
      old.DeclaresField name descriptor ∨
        (o.added ≠ [] ∧ ¬ old.HasStorage r.context.config) ∧
          name = r.context.config.storageName ∧
          descriptor = r.context.config.storageDescriptor := by
  rw [Schema.declaresField_iff, Schema.declaresField_iff, t.fieldTable_grown hp]
  by_cases happends : o.added ≠ [] ∧ ¬ old.HasStorage r.context.config
  · simp only [if_pos happends, List.mem_append, List.mem_singleton, exists_or, SchemaField.row,
      storageEntry, Prod.mk.injEq]
    simp [happends]
  · simp only [if_neg happends, List.append_nil]
    simp [happends]

/-- The written class declares what the new schema says. -/
theorem Ran.declaresField_written_iff (t : Ran source old c r o r') (hp : c.pool.Addressable) :
    t.written.DeclaresField name descriptor ↔ o.schema.DeclaresField name descriptor := by
  rw [ClassFile.declaresField_iff (t.fieldTable_written hp), Schema.declaresField_iff]

/-- **What is declared stays declared**: a field that the first class of a chain declares is
declared by every output of the chain and by the schema that it ends with. -/
theorem Chain.declaresField {start last : Schema} {outcomes : List Outcome}
    (h : Chain config start outcomes last) (hstart : start.DeclaresField name descriptor) :
    last.DeclaresField name descriptor ∧
      ∀ o ∈ outcomes, ∃ c, ClassFile.parse o.bytes = .ok c ∧ c.DeclaresField name descriptor := by
  induction h with
  | nil => exact ⟨hstart, by simp⟩
  | @pass outcomes s source data c r r' o before parsed configured short ran ih =>
      obtain ⟨hbefore, houtcomes⟩ := ih
      obtain ⟨t⟩ := run_ok ran
      obtain ⟨hpool, hp⟩ := ClassFile.wellFormed_of_parse parsed
      have hafter := (t.declaresField_schema_iff hp).mpr (.inl hbefore)
      refine ⟨hafter, fun o' ho' => ?_⟩
      rcases List.mem_append.mp ho' with ho' | ho'
      · exact houtcomes o' ho'
      · obtain ⟨hparse, -⟩ := t.parse_bytes hpool hp (short _ t.written_eq)
        rw [List.mem_singleton.mp ho']
        exact ⟨t.written, hparse, (t.declaresField_written_iff hp).mpr hafter⟩

/-- **A prepared class has the storage field for good**: every output of a chain that starts from a
prepared class declares it, under the configured name and with the configured descriptor. -/
theorem Chain.declares_storage {c₀ c₁ : ClassFile} {added : Bool} {start last : Schema}
    {outcomes : List Outcome} (hp : c₀.pool.Addressable) (hclass : c₀.access.isInterface = false)
    (hprepare : prepare config c₀ = .ok (added, c₁)) (hstart : Schema.ofClass c₁ = .ok start)
    (h : Chain config start outcomes last) {o : Outcome} (ho : o ∈ outcomes) :
    ∃ c, ClassFile.parse o.bytes = .ok c ∧
      c.DeclaresField config.storageName config.storageDescriptor := by
  have hdeclared := exists_storage_of_prepare hp hclass hprepare
  rw [← ClassFile.DeclaresField,
    ClassFile.declaresField_iff (Schema.fieldTable_ofClass hstart), ← Schema.declaresField_iff]
    at hdeclared
  exact (h.declaresField hdeclared).2 o ho

end Pass

/-! ## §2 Field instructions -/

/-- Whether an operation reads or writes a field. -/
def Opcode.usesField : Opcode → Bool
  | .getField | .putField | .getStatic | .putStatic => true
  | _ => false

namespace Host

variable {pool : Pool} {storage : MemberRef} {code : Array UInt8} {i : Instruction}
  {s s' : List Operand} {o o' : Object}

theorem usesField_of_pushed? {op : Opcode} {x : Operand} (h : pushed? op = some x) :
    op.usesField = false := by
  unfold pushed? at h
  split at h <;> first | rfl | cases h

theorem usesField_of_loaded? {n : Int32} (h : loaded? pool code i = some n) :
    i.opcode.usesField = false := by
  unfold loaded? at h
  dsimp only at h
  split at h
  case h_5 => cases h
  all_goals
    next hop =>
      rw [hop]
      rfl

/-- What a step does with fields: it reads the storage field, writes it, or has nothing to do with
any field. -/
theorem act_cases (h : act pool storage code i s o = some (s', o')) :
    (i.opcode = .getField ∧ member? pool code i = some storage ∧ o' = o) ∨
    (i.opcode = .putField ∧ member? pool code i = some storage ∧
      ∃ address, o' = { o with storage := some address }) ∨
    (i.opcode.usesField = false ∧ o'.storage = o.storage) := by
  unfold act at h
  split at h
  · next hpushed =>
    cases h
    exact .inr (.inr ⟨usesField_of_pushed? hpushed, rfl⟩)
  · next hloaded =>
    cases h
    exact .inr (.inr ⟨usesField_of_loaded? hloaded, rfl⟩)
  · split at h
    case h_5 hop =>
      obtain ⟨hmember, h⟩ := Option.ite_none_right_eq_some.mp h
      cases h
      exact .inl ⟨hop, hmember, rfl⟩
    case h_6 hop =>
      obtain ⟨hmember, h⟩ := Option.ite_none_right_eq_some.mp h
      cases h
      exact .inr (.inl ⟨hop, hmember, _, rfl⟩)
    case h_10 => cases h
    all_goals refine .inr (.inr ⟨by simp only [*, Opcode.usesField], ?_⟩)
    case h_7 =>
      obtain ⟨-, h⟩ := Option.ite_none_right_eq_some.mp h
      cases h
      rfl
    case h_8 =>
      obtain ⟨values, -, h⟩ := Option.bind_eq_some_iff.mp h
      obtain ⟨-, h⟩ := Option.ite_none_right_eq_some.mp h
      cases h
      rfl
    case h_9 =>
      obtain ⟨member, -, h⟩ := Option.bind_eq_some_iff.mp h
      obtain ⟨p, -, h⟩ := Option.bind_eq_some_iff.mp h
      obtain ⟨-, h⟩ := Option.ite_none_right_eq_some.mp h
      cases h
      rfl
    all_goals
      cases h
      rfl

/-- An operation that does not jump takes its step and leads to the next instruction. -/
theorem act_of_step? {m next : Machine} (decoded : Instruction.decode code m.offset = .ok i)
    (straight : i.opcode ≠ .ifNonNull) (h : step? pool storage code m = some next) :
    act pool storage code i m.stack m.object = some (next.stack, next.object) ∧
      next.offset = i.next := by
  unfold step? at h
  rw [decoded] at h
  simp only [Except.toOption, Option.bind_eq_bind, Option.bind_some] at h
  split at h
  · next hop _ => exact absurd hop straight
  · next hop _ => exact absurd hop straight
  · obtain ⟨⟨stack, object⟩, hact, h⟩ := Option.bind_eq_some_iff.mp h
    cases h
    exact ⟨hact, rfl⟩

end Host

/-- **What a row of operations does with fields shows in how it is executed**: its field
instructions all use the storage field, and it writes the field if the object's storage is another
one at the end. -/
theorem PlainRow.uses_storage {pool : Pool} {storage : MemberRef} {code : Array UInt8}
    {bytes : Bytes} {ops : List Opcode} (h : PlainRow bytes ops) :
    ∀ {offset : Nat} {stack : List Host.Operand} {o : Host.Object} {last : Host.Machine},
      Code.Holds code offset bytes →
      Host.Executes pool storage code (offset + bytes.length) ⟨offset, stack, o⟩ last →
      (∀ i ∈ Instruction.row offset ops, i.opcode.usesField = true →
        Host.member? pool code i = some storage) ∧
      (last.object.storage ≠ o.storage → Opcode.putField ∈ ops) := by
  induction h with
  | nil =>
      intro offset stack o last _ hexecutes
      cases hexecutes with
      | arrived => exact ⟨nofun, fun hne => absurd rfl hne⟩
      | step away => exact absurd rfl away
  | @cons op bytes ops operands plain sized behind ih =>
      intro offset stack o last hholds hexecutes
      rw [end_cons] at hexecutes
      cases hexecutes with
      | arrived there => exact absurd there (by dsimp only; omega)
      | @step _ next _ away taken rest =>
          have hdecode := hholds.left.decode_eq sized
          have hstraight : op ≠ .ifNonNull := by
            rintro rfl
            cases plain
          obtain ⟨hact, hnext⟩ := Host.act_of_step? hdecode hstraight taken
          obtain ⟨offset', stack', o'⟩ := next
          cases hnext
          obtain ⟨hfields, hwritten⟩ := ih hholds.right rest
          simp only [Instruction.row, sized, Option.getD_some]
          rcases Host.act_cases hact with ⟨rfl, hmember, rfl⟩ | ⟨rfl, hmember, address, rfl⟩ |
            ⟨hno, hsame⟩
          · refine ⟨List.forall_mem_cons.mpr ⟨fun _ => hmember, hfields⟩, fun hne => ?_⟩
            exact List.mem_cons_of_mem _ (hwritten hne)
          · exact ⟨List.forall_mem_cons.mpr ⟨fun _ => hmember, hfields⟩,
              fun _ => List.mem_cons_self⟩
          · refine ⟨List.forall_mem_cons.mpr ⟨fun huses => ?_, hfields⟩, fun hne => ?_⟩
            · cases hno.symm.trans huses
            · exact List.mem_cons_of_mem op (hwritten (hsame ▸ hne))

/-- What a stretch of code does tells which fields it uses. -/
theorem Host.Does.uses_storage {pool : Pool} {storage : MemberRef} {bytes : Bytes}
    {ops : List Opcode} {s s' : List Operand} {o o' : Object} {code : Array UInt8} {offset : Nat}
    (h : Does pool storage bytes s o s' o') (hrow : PlainRow bytes ops)
    (holds : Code.Holds code offset bytes) :
    (∀ i ∈ Instruction.row offset ops, i.opcode.usesField = true →
        member? pool code i = some storage) ∧
      (o'.storage ≠ o.storage → Opcode.putField ∈ ops) :=
  hrow.uses_storage holds ((h code offset _ _ holds (Nat.le_refl _)).mpr (.arrived rfl))

/-! ## §3 The block -/

namespace Prologue

open Host

/-- Wherever this block stands, its field instructions all use the given field, and it has one that
reads the field and one that writes it. -/
structure Uses (pool : Pool) (block : Array UInt8) (field : MemberRef) : Prop where
  member : ∀ {code : Array UInt8} {position : Nat}, Code.Holds code position block.toList →
    ∀ i ∈ placed block position, i.opcode.usesField = true → member? pool code i = some field
  reads : ∀ position, ∃ i ∈ placed block position, i.opcode = .getField
  writes : ∀ position, ∃ i ∈ placed block position, i.opcode = .putField

/-- Every operation of a row is that of an instruction. -/
theorem exists_of_mem_row {op : Opcode} {ops : List Opcode} (h : op ∈ ops) :
    ∀ offset, ∃ i ∈ Instruction.row offset ops, i.opcode = op := by
  induction ops with
  | nil => cases h
  | cons op' ops ih =>
      intro offset
      rcases List.mem_cons.mp h with rfl | h
      · exact ⟨_, List.mem_cons_self, rfl⟩
      · obtain ⟨i, hi, hop⟩ := ih h (offset + op'.size?.getD 0)
        exact ⟨i, List.mem_cons_of_mem _ hi, hop⟩

/-- **The block uses the storage field**, in every pool that has grown from the one in which it was
made. -/
theorem uses_of_block {config : Config} {owner : String} {l : StorageLayout} {block : Array UInt8}
    {p q pool : Pool} (hp : p.Addressable) (hpool : Pool.Growth q pool)
    (h : Prologue.block config owner l p = .ok block q) :
    Uses pool block (storageField config owner) := by
  have hsize := (block_parts h).1
  obtain ⟨t, fill, p₁, index, n, hfill, hindex, hcheck, hfillBytes⟩ :=
    shape_of_block (size_lt_of_block hp h) h
  have hp₁ := ((grows_allocation _ _).growth hfill).addressable hp
  have hmember := hpool.memberRef (Pool.memberRef_of_addFieldRef hp₁ hindex)
  have hfilled := ((Pool.grows_addFieldRef _).growth hindex).trans hpool
  have hchecks : Does pool (storageField config owner) t.check [] {} [.object .null] {} :=
    hcheck ▸ does_check hmember
  have hfills : Does pool (storageField config owner) t.fill [] {} []
      (Object.allocated {} (Container.allocate l)) := by
    obtain ⟨bytes, hbytes, -, hdoes⟩ :=
      appends_allocation (s := []) (o := {}) hsize hp hfilled hfill
    rw [Fragment.empty, List.nil_append] at hbytes
    rw [hfillBytes, hbytes]
    exact hdoes.append (.nops n)
  constructor
  · intro code position holds i hi huses
    obtain ⟨hcheckHolds, -, hfillHolds⟩ := t.holds holds
    rw [t.placed_eq] at hi
    rcases List.mem_append.mp hi with hi | hi
    · exact (hchecks.uses_storage t.checks hcheckHolds).1 i hi huses
    · rcases List.mem_cons.mp hi with rfl | hi
      · cases huses
      · exact (hfills.uses_storage t.fills hfillHolds).1 i hi huses
  · intro position
    rw [t.placed_eq]
    exact ⟨⟨position + 1, .getField, 3⟩, by simp [Instruction.row, Opcode.size?], rfl⟩
  · intro position
    obtain ⟨-, -, hfillHolds⟩ := t.holds (Code.Holds.self block)
    have hput := (hfills.uses_storage t.fills hfillHolds).2 (Option.some_ne_none _)
    obtain ⟨i, hi, hop⟩ := exists_of_mem_row hput (position + 7)
    rw [t.placed_eq]
    exact ⟨i, List.mem_append_right _ (List.mem_cons_of_mem _ hi), hop⟩

end Prologue

/-! ## §4 One pass -/

namespace Pass

variable {source : AnnotationSource} {old : Schema} {c : ClassFile} {r r' : Registries}
  {o : Outcome}

/-- The written class has the name of the one that was given. -/
theorem Ran.name_written (t : Ran source old c r o r') (hp : c.pool.Addressable) :
    t.written.name = .ok t.owner := by
  obtain ⟨hgrowth, -⟩ := t.declares_written hp
  obtain ⟨-, -, hshape, -⟩ := reshape_ok hp t.reshaped
  obtain ⟨-, hwritten⟩ := Prologue.instrument_keeps t.instrumented
  have hthis : t.written.thisClass = c.thisClass := by rw [hwritten, hshape]
  rw [ClassFile.name, hthis]
  exact hgrowth.className t.named

/-- The methods of the written class come from one block, which uses the storage field. -/
theorem Ran.uses_storage (t : Ran source old c r o r') (hadded : o.added ≠ []) :
    ∃ (s : Prologue.Setting) (p : Pool),
      List.Forall₂ (Prologue.Treated s p t.written.pool) c.methods t.written.methods ∧
      Prologue.Uses t.written.pool s.block (Prologue.storageField r.context.config t.owner) := by
  have hp := t.addressable
  obtain ⟨hgrowth, -⟩ := reshape_ok hp t.reshaped
  obtain ⟨layout, s, p, -, hblock, hmore, htreated, -⟩ := t.treated hp hadded
  exact ⟨s, p, htreated, Prologue.uses_of_block (hgrowth.addressable hp) hmore hblock⟩

/-- **When the field of the storage block exists.**  A pass that adds fields extends the
constructors by a block that reads and writes the field of the configured name and descriptor in
the class itself.  The class that the pass writes out declares this very field unless the loaded
class has a normal field of the storage field's name, but does not declare one of that name and
descriptor. -/
theorem storage_declared_iff (ran : run source old c r = .ok o r') (added : o.added ≠ []) :
    ∃ (owner : String) (w : ClassFile), w.encode = .ok o.bytes ∧
      (c.pool.WellFormed → w.ShortPayloads → ClassFile.parse o.bytes = .ok w) ∧
      c.name = .ok owner ∧ w.name = .ok owner ∧
      (w.DeclaresField r.context.config.storageName r.context.config.storageDescriptor ↔
        (old.HasStorage r.context.config →
          old.DeclaresField r.context.config.storageName r.context.config.storageDescriptor)) ∧
      ∃ (s : Prologue.Setting) (p : Pool),
        List.Forall₂ (Prologue.Treated s p w.pool) c.methods w.methods ∧
        Prologue.Uses w.pool s.block (Prologue.storageField r.context.config owner) := by
  obtain ⟨t⟩ := run_ok ran
  have hp := t.addressable
  refine ⟨t.owner, t.written, t.encoded, ?_, t.named, t.name_written hp, ?_,
    t.uses_storage added⟩
  · intro hpool hshort
    obtain ⟨hgrowth, -⟩ := t.declares_written hp
    exact ClassFile.parse_of_encode (hgrowth.wellFormed hpool) hshort t.encoded
  · rw [t.declaresField_written_iff hp, t.declaresField_schema_iff hp]
    constructor
    · rintro (hold | ⟨⟨-, hnone⟩, -⟩) hstorage
      · exact hold
      · exact absurd hstorage hnone
    · intro h
      by_cases hstorage : old.HasStorage r.context.config
      · exact .inl (h hstorage)
      · exact .inr ⟨⟨added, hstorage⟩, rfl, rfl⟩

/-- A loaded class with an integer field of the storage field's name. -/
def occupied : Schema := ⟨"A", [⟨"$hotfield_data", "I", ⟨1⟩, .normal⟩]⟩

/-- The same class with one more field. -/
def enlarged : ClassFile :=
  { sample [13, 10] with pool := (sample []).pool.push (.utf8 "$hotfield_data") }

/-- The constructor gets the block, and nothing declares the field that the block uses. -/
theorem storage_declared_iff_occupied :
    ∃ (o : Outcome) (w : ClassFile), o.added ≠ [] ∧ o.instrumented = 1 ∧
      w.encode = .ok o.bytes ∧ w.name = .ok "A" ∧
      ¬ w.DeclaresField "$hotfield_data" "[Ljava/lang/Object;" ∧
      ∃ (s : Prologue.Setting) (p : Pool),
        List.Forall₂ (Prologue.Treated s p w.pool) enlarged.methods w.methods ∧
        Prologue.Uses w.pool s.block ⟨"A", "$hotfield_data", "[Ljava/lang/Object;"⟩ := by
  have runs : ((succeeded (run noAnnotations occupied enlarged (.start {} "app"))).any
      fun x => !x.1.added.isEmpty && x.1.instrumented == 1) = true := by
    decide +kernel
  obtain ⟨⟨o, r⟩, ran, h⟩ := (Option.any_eq_true _ _).mp runs
  simp only [Bool.and_eq_true, Bool.not_eq_true', List.isEmpty_eq_false_iff, beq_iff_eq] at h
  obtain ⟨hadded, hcount⟩ := h
  obtain ⟨owner, w, hencoded, -, howner, hname, hdeclares, hblock⟩ :=
    storage_declared_iff (eq_ok_of_succeeded ran) hadded
  cases howner
  refine ⟨o, w, hadded, hcount, hencoded, hname, fun hstorage => ?_, hblock⟩
  have hstored : occupied.HasStorage {} := by decide
  have hmissing : ¬ occupied.DeclaresField "$hotfield_data" "[Ljava/lang/Object;" := by decide
  exact hmissing (hdeclares.mp hstorage hstored)

end Pass

end Reshape
