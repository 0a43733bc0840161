import Reshape.Proofs.ClassFile.Stored
import Reshape.Proofs.Redefinition.Run

/-!
# Redefinition keeps the field table

The host compares the field table of a new definition with the one that was loaded: names,
descriptors and flags in order.  A pass writes a class with the very table that the schema before
it describes, except that it may append the storage field once, and the schema that it hands on
describes the table it wrote.  A class that was prepared has its storage field from the start, so
a chain of passes of any length never changes its table at all.
-/

namespace Reshape

/-! ## §1 Field tables -/

/-- What the host compares of a field: name, descriptor and flags. -/
abbrev FieldRow := String × String × FieldAccess

def SchemaField.row (e : SchemaField) : FieldRow := (e.name, e.descriptor, e.access)

@[simp] theorem SchemaField.row_toRemoved (e : SchemaField) : e.toRemoved.row = e.row := rfl

@[simp] theorem SchemaField.isFake_toRemoved (e : SchemaField) : e.toRemoved.isFake = false := rfl

/-- The fields that the class itself declares, which are all but those of generated classes. -/
def Schema.fieldTable (s : Schema) : List FieldRow :=
  (s.fields.filter (!·.isFake)).map SchemaField.row

/-- Some field of the storage field's name is a normal one. -/
def Schema.HasStorage (s : Schema) (config : Config) : Prop :=
  ∃ e ∈ s.fields, e.isNormal = true ∧ e.name = config.storageName

instance (s : Schema) (config : Config) : Decidable (s.HasStorage config) :=
  inferInstanceAs (Decidable (∃ e ∈ s.fields, e.isNormal = true ∧ e.name = config.storageName))

namespace ClassFile

def fieldTable (c : ClassFile) : Except FormatError (List FieldRow) :=
  c.fields.mapM fun f => do
    let (name, descriptor) ← f.identityIn c.pool
    return (name, descriptor, f.access)

theorem fieldTable_of_declares {c : ClassFile} {entries : List SchemaField}
    (h : List.Forall₂ (Field.Declares c.pool) c.fields entries) :
    c.fieldTable = .ok (entries.map SchemaField.row) := by
  refine except_mapM_eq_ok.mpr ?_
  rw [List.forall₂_map_right_iff]
  refine h.imp fun f e hfe => ?_
  obtain ⟨hidentity, haccess⟩ := hfe
  exact except_bind_eq_ok.mpr ⟨_, hidentity, by rw [haccess]; rfl⟩

end ClassFile

/-! ## §2 One pass -/

namespace Pass

/-- The class that a pass writes out, if it gets that far. -/
def written (source : AnnotationSource) (context : Context) (old : Schema) (c : ClassFile) :
    Except RedefineError ClassFile := do
  let owner ← c.name.mapError .format
  let d ← reshape ⟨owner, context.loader, context.config, source⟩ old c
  let (c, _) ← Prologue.instrument context.config d.added d.shaped
  return c

theorem Ran.written_eq {source : AnnotationSource} {old : Schema} {c : ClassFile}
    {r r' : Registries} {o : Outcome} (t : Ran source old c r o r') :
    Pass.written source r.context old c = .ok t.written := by
  refine except_bind_eq_ok.mpr ⟨t.owner, mapError_eq_ok.mpr t.named, ?_⟩
  refine except_bind_eq_ok.mpr ⟨t.shape, t.fixed ▸ t.reshaped, ?_⟩
  exact except_bind_eq_ok.mpr ⟨_, t.instrumented, rfl⟩

/-- No entry of an added field is kept. -/
theorem isFake_of_mem_keptFields {storageName : String} {seats : List Seat} {e : SchemaField}
    (h : e ∈ keptFields storageName seats) : e.isFake = false := by
  obtain ⟨seat, -, hseat⟩ := List.mem_filterMap.mp h
  by_cases hfake : seat.entry.isFake = true
  · rw [if_pos hfake] at hseat
    cases hseat
  · rw [if_neg hfake] at hseat
    split at hseat <;> cases hseat
    · rfl
    · exact Bool.eq_false_iff.mpr hfake

/-- A kept field differs from the old one in its kind at most. -/
theorem fieldTable_keptFields (storageName : String) (seats : List Seat) :
    (keptFields storageName seats).map SchemaField.row =
      ((seats.map Seat.entry).filter (!·.isFake)).map SchemaField.row := by
  induction seats with
  | nil => rfl
  | cons seat seats ih =>
      rw [keptFields] at ih ⊢
      rw [List.filterMap_cons, List.map_cons]
      by_cases hfake : seat.entry.isFake = true
      · rw [if_pos hfake, List.filter_cons_of_neg (by simp [hfake])]
        exact ih
      · rw [if_neg hfake, List.filter_cons_of_pos (by simp [hfake]), List.map_cons]
        by_cases hopen : seat.isOpen storageName = true
        · rw [if_pos hopen, List.map_cons, ih, SchemaField.row_toRemoved]
        · rw [if_neg hopen, List.map_cons, ih]

namespace Ran

variable {source : AnnotationSource} {old : Schema} {c : ClassFile} {r r' : Registries}
  {o : Outcome}

theorem isFake_of_mem_generated (t : Ran source old c r o r') :
    ∀ e ∈ t.proxied.map Prod.fst ++ t.held.map Held.entry, e.isFake = true := by
  intro e he
  rcases List.mem_append.mp he with he | he
  · obtain ⟨⟨entry, pending⟩, hmem, rfl⟩ := List.mem_map.mp he
    obtain ⟨⟨record, f⟩, -, s, s', hmade⟩ :=
      exists_left_of_forall₂ (state_mapM_forall₂ t.generated) hmem
    obtain ⟨⟨proxy, bytes, rfl, -⟩, -⟩ := generateAccessor_ok hmade
    rfl
  · obtain ⟨held, hmem, rfl⟩ := List.mem_map.mp he
    obtain ⟨f, -, s, s', hmade⟩ := exists_left_of_forall₂ (state_mapM_forall₂ t.holding) hmem
    rw [(holdStatic_made hmade).1.entry]
    rfl

/-- A pass that writes a class out has started from one whose pool is within reach of an index. -/
theorem addressable (t : Ran source old c r o r') : c.pool.Addressable := by
  obtain ⟨hmore, -⟩ := Prologue.instrument_keeps t.instrumented
  have hgrowth := (growth_reshape t.reshaped).trans hmore
  exact hgrowth.addressable_of (ClassFile.addressable_of_encode t.encoded)

/-- The entries of the new schema that the class itself declares. -/
def declared (t : Ran source old c r o r') : List SchemaField :=
  keptFields r.context.config.storageName t.shape.draft.seats ++
    if t.shape.appendsStorage then [storageEntry r.context.config] else []

/-- The declared fields come first, and then those of generated classes. -/
theorem schema_fields (t : Ran source old c r o r') :
    o.schema.fields = t.declared ++ (t.proxied.map Prod.fst ++ t.held.map Held.entry) := by
  rw [t.schema, declared]
  simp only [List.append_assoc]

theorem isFake_of_mem_declared (t : Ran source old c r o r') :
    ∀ e ∈ t.declared, e.isFake = false := by
  intro e he
  rcases List.mem_append.mp he with he | he
  · exact isFake_of_mem_keptFields he
  · split at he
    · cases List.mem_singleton.mp he
      rfl
    · cases he

theorem filter_declared (t : Ran source old c r o r') :
    o.schema.fields.filter (!·.isFake) = t.declared := by
  rw [t.schema_fields, List.filter_append, List.filter_eq_self.mpr, List.filter_eq_nil_iff.mpr,
    List.append_nil]
  · intro e he
    simp [t.isFake_of_mem_generated e he]
  · intro e he
    simp [t.isFake_of_mem_declared e he]

/-- The entries of added fields come from the accessors and holders. -/
theorem fakeFields_eq (t : Ran source old c r o r') :
    o.schema.fakeFields = t.proxied.map Prod.fst ++ t.held.map Held.entry := by
  rw [Schema.fakeFields, t.schema_fields, List.filter_append, List.filter_eq_nil_iff.mpr,
    List.filter_eq_self.mpr, List.nil_append]
  · exact t.isFake_of_mem_generated
  · intro e he
    simp [t.isFake_of_mem_declared e he]

/-- The new schema describes what the old one did, and the storage field where it was added. -/
theorem fieldTable_schema (t : Ran source old c r o r') (hp : c.pool.Addressable) :
    o.schema.fieldTable =
      (declaredEntries old.fields r.context.config t.shape.appendsStorage).map SchemaField.row := by
  obtain ⟨-, -, -, hentries, -⟩ := reshape_ok hp t.reshaped
  rw [Schema.fieldTable, t.filter_declared, declared, declaredEntries, List.map_append,
    List.map_append, fieldTable_keptFields, hentries]

/-- What is written out is the new shape with other methods and a pool that has grown. -/
theorem declares_written (t : Ran source old c r o r') (hp : c.pool.Addressable) :
    Pool.Growth c.pool t.written.pool ∧
      List.Forall₂ (Field.Declares t.written.pool) t.written.fields
        (declaredEntries old.fields r.context.config t.shape.appendsStorage) := by
  obtain ⟨hgrowth, hfields, -⟩ := reshape_ok hp t.reshaped
  obtain ⟨hmore, hwritten⟩ := Prologue.instrument_keeps t.instrumented
  refine ⟨hgrowth.trans hmore, ?_⟩
  rw [hwritten]
  rw [t.fixed] at hfields
  exact hfields.imp fun _ _ hf => hf.grown hmore

/-- The written class has the table that the new schema describes. -/
theorem fieldTable_written (t : Ran source old c r o r') (hp : c.pool.Addressable) :
    t.written.fieldTable = .ok o.schema.fieldTable := by
  rw [t.fieldTable_schema hp]
  exact ClassFile.fieldTable_of_declares (t.declares_written hp).2

/-- The storage field is appended at most once: when fields are added and there is none. -/
theorem appendsStorage_iff (t : Ran source old c r o r') (hp : c.pool.Addressable) :
    t.shape.appendsStorage = true ↔ o.added ≠ [] ∧ ¬ old.HasStorage r.context.config := by
  obtain ⟨-, -, -, -, happends⟩ := reshape_ok hp t.reshaped
  rw [happends, t.added, t.fixed, Schema.HasStorage]
  simp only [not_exists, not_and, ne_eq]

/-- The new table is the old one, with the storage field behind it where it was added. -/
theorem fieldTable_grown (t : Ran source old c r o r') (hp : c.pool.Addressable) :
    o.schema.fieldTable = old.fieldTable ++
      if o.added ≠ [] ∧ ¬ old.HasStorage r.context.config then
        [(storageEntry r.context.config).row]
      else [] := by
  rw [t.fieldTable_schema hp, declaredEntries, List.map_append]
  refine congrArg _ ?_
  by_cases happends : t.shape.appendsStorage = true
  · rw [if_pos happends, if_pos ((t.appendsStorage_iff hp).mp happends)]
    rfl
  · rw [if_neg happends, if_neg fun h => happends ((t.appendsStorage_iff hp).mpr h)]
    rfl

/-- The written class has the table of the old schema and of the new one. -/
theorem parse_bytes (t : Ran source old c r o r') (hpool : c.pool.WellFormed)
    (hp : c.pool.Addressable) (hshort : t.written.ShortPayloads) :
    ClassFile.parse o.bytes = .ok t.written ∧ t.written.fieldTable = .ok o.schema.fieldTable ∧
      o.schema.fieldTable = old.fieldTable ++
        if o.added ≠ [] ∧ ¬ old.HasStorage r.context.config then
          [(storageEntry r.context.config).row]
        else [] := by
  obtain ⟨hgrowth, -⟩ := t.declares_written hp
  exact ⟨ClassFile.parse_of_encode (hgrowth.wellFormed hpool) hshort t.encoded,
    t.fieldTable_written hp, t.fieldTable_grown hp⟩

/-- The methods that are instrumented are those of the new definition. -/
theorem methods_shaped (t : Ran source old c r o r') (hp : c.pool.Addressable) :
    t.shape.shaped.methods = c.methods := by
  obtain ⟨-, -, hshape, -⟩ := reshape_ok hp t.reshaped
  rw [hshape]

/-- Added fields bring one block, made for the class itself, to all of its constructors. -/
theorem treated (t : Ran source old c r o r') (hp : c.pool.Addressable) (hadded : o.added ≠ []) :
    ∃ (layout : StorageLayout) (s : Prologue.Setting) (p : Pool),
      StorageLayout.ofRecords? t.owner o.added = .ok layout ∧
      Prologue.block r.context.config t.owner layout t.shape.shaped.pool = .ok s.block p ∧
      Pool.Growth p t.written.pool ∧
      List.Forall₂ (Prologue.Treated s p t.written.pool) c.methods t.written.methods ∧
      s.thisClass = c.thisClass ∧ s.recordsFrames = c.requiresStackMap := by
  obtain ⟨hgrowth, -, hshape, -⟩ := reshape_ok hp t.reshaped
  rw [t.added] at hadded ⊢
  obtain ⟨owner, layout, s, p, howner, hlayout, hblock, hmore, htreated, -, ⟨hthis, hframes⟩, -⟩ :=
    Prologue.instrument_ok hadded t.instrumented
  have hname : t.shape.shaped.name = .ok t.owner := by
    have hkept : t.shape.shaped.thisClass = c.thisClass := by rw [hshape]
    rw [ClassFile.name, hkept]
    exact hgrowth.className t.named
  cases hname.symm.trans howner
  rw [t.methods_shaped hp] at htreated
  refine ⟨layout, s, p, hlayout, hblock, hmore, htreated, ?_, ?_⟩
  · rw [hthis, hshape]
  · rw [hframes, hshape]
    rfl

/-- A storage field that is there stays a normal field. -/
theorem hasStorage_schema (t : Ran source old c r o r') (hp : c.pool.Addressable)
    (h : old.HasStorage r.context.config) : o.schema.HasStorage r.context.config := by
  obtain ⟨-, -, -, hentries, -⟩ := reshape_ok hp t.reshaped
  obtain ⟨e, he, hnormal, hname⟩ := h
  rw [← hentries] at he
  obtain ⟨seat, hseat, rfl⟩ := List.mem_map.mp he
  have hfake : seat.entry.isFake = false := by
    cases hkind : seat.entry.kind <;>
      simp_all [SchemaField.isNormal, SchemaField.isFake]
  have hkept : seat.entry ∈ keptFields r.context.config.storageName t.shape.draft.seats := by
    refine List.mem_filterMap.mpr ⟨seat, hseat, ?_⟩
    simp [hfake, Seat.isOpen, hname]
  refine ⟨seat.entry, ?_, hnormal, hname⟩
  rw [t.schema_fields]
  exact List.mem_append_left _ (List.mem_append_left _ hkept)

end Ran

end Pass

/-! ## §3 Where chains start -/

theorem Schema.ofClass_ok {c : ClassFile} {s : Schema} (h : Schema.ofClass c = .ok s) :
    List.Forall₂ (fun f e => Field.Declares c.pool f e ∧ e.kind = .normal) c.fields s.fields := by
  obtain ⟨fields, hfields, h⟩ := except_bind_eq_ok.mp h
  obtain ⟨name, -, h⟩ := except_bind_eq_ok.mp h
  cases except_pure_eq_ok.mp h
  refine (except_mapM_eq_ok.mp hfields).imp fun f e he => ?_
  obtain ⟨⟨name, descriptor⟩, hidentity, he⟩ := except_bind_eq_ok.mp he
  cases except_pure_eq_ok.mp he
  exact ⟨⟨hidentity, rfl⟩, rfl⟩

/-- The schema of a class describes its field table. -/
theorem Schema.fieldTable_ofClass {c : ClassFile} {s : Schema} (h : Schema.ofClass c = .ok s) :
    c.fieldTable = .ok s.fieldTable := by
  have hentries := Schema.ofClass_ok h
  have hkept : s.fields.filter (!·.isFake) = s.fields := by
    rw [List.filter_eq_self]
    intro e he
    obtain ⟨f, -, -, hkind⟩ := exists_left_of_forall₂ hentries he
    simp [SchemaField.isFake, hkind]
  rw [Schema.fieldTable, hkept]
  exact ClassFile.fieldTable_of_declares (hentries.imp fun _ _ h => h.1)

theorem Member.exists_of_position? {carrier : Carrier} {pool : Pool} {name descriptor : String}
    {members : List (Member carrier)} :
    ∀ {start position : Nat},
      Member.position? pool name descriptor start members = .ok (some position) →
      ∃ m ∈ members, m.identityIn pool = .ok (name, descriptor) := by
  induction members with
  | nil =>
      intro start position h
      simp [Member.position?] at h
  | cons m members ih =>
      intro start position h
      have hrest (h : Member.position? pool name descriptor (start + 1) members =
          .ok (some position)) :
          ∃ m' ∈ m :: members, m'.identityIn pool = .ok (name, descriptor) := by
        obtain ⟨m', hm', hidentity⟩ := ih h
        exact ⟨m', List.mem_cons_of_mem m hm', hidentity⟩
      unfold Member.position? at h
      split at h <;> try cases h
      next n hn =>
        split at h
        · next hname =>
          split at h <;> try cases h
          next d hd =>
            split at h
            · next hdescriptor =>
              subst hname hdescriptor
              exact ⟨m, List.mem_cons_self, Member.identityIn_eq_ok.mpr ⟨hn, hd⟩⟩
            · exact hrest h
        · exact hrest h

/-- An interface stays as it is, and so does a class with the storage field; any other gets it. -/
theorem prepare_steps {config : Config} {c c' : ClassFile} {added : Bool}
    (h : prepare config c = .ok (added, c')) :
    (c' = c ∧ (c.access.isInterface = true ∨ ∃ position,
      c.findField? config.storageName config.storageDescriptor = .ok (some position))) ∨
      ∃ n, ClassFile.declareField storageAccess config.storageName config.storageDescriptor c =
        .ok n c' := by
  unfold prepare at h
  split at h
  · next hinterface =>
    cases except_pure_eq_ok.mp h
    exact .inl ⟨rfl, .inl hinterface⟩
  · obtain ⟨found, hfound, h⟩ := except_bind_eq_ok.mp h
    cases found with
    | some position =>
        cases except_pure_eq_ok.mp h
        exact .inl ⟨rfl, .inr ⟨position, mapError_eq_ok.mp hfound⟩⟩
    | none =>
        dsimp only at h
        split at h
        · next n c'' hdeclare =>
          cases except_pure_eq_ok.mp h
          exact .inr ⟨n, hdeclare⟩
        · exact (except_throw_eq_ok.mp h).elim

/-- A class that was prepared declares the storage field, unless it is an interface. -/
theorem exists_storage_of_prepare {config : Config} {c c' : ClassFile} {added : Bool}
    (hp : c.pool.Addressable) (hclass : c.access.isInterface = false)
    (h : prepare config c = .ok (added, c')) :
    ∃ f ∈ c'.fields, f.identityIn c'.pool = .ok (config.storageName, config.storageDescriptor) := by
  obtain ⟨rfl, hinterface | ⟨position, hfound⟩⟩ | ⟨n, hdeclare⟩ := prepare_steps h
  · rw [hclass] at hinterface
    cases hinterface
  · exact Member.exists_of_position? hfound
  · obtain ⟨-, f, hidentity, -, hc'⟩ := Pass.declareField_ok hp hdeclare
    refine ⟨f, ?_, hidentity⟩
    rw [hc']
    simp

/-- A class that was prepared has a storage field, unless it is an interface. -/
theorem hasStorage_of_prepare {config : Config} {c c' : ClassFile} {added : Bool} {s : Schema}
    (hp : c.pool.Addressable) (hclass : c.access.isInterface = false)
    (h : prepare config c = .ok (added, c')) (hs : Schema.ofClass c' = .ok s) :
    s.HasStorage config := by
  obtain ⟨f, hf, hidentity⟩ := exists_storage_of_prepare hp hclass h
  obtain ⟨e, he, hdeclares, hkind⟩ := exists_right_of_forall₂ (Schema.ofClass_ok hs) hf
  refine ⟨e, he, by simp [SchemaField.isNormal, hkind], ?_⟩
  have hboth := hdeclares.1.symm.trans hidentity
  simp only [Except.ok.injEq, Prod.mk.injEq] at hboth
  exact hboth.1

/-! ## §4 Chains of passes -/

namespace Pass

/-- Passes made one after the other, each from the schema that the one before it left.  Between
them the registries may change as they like, and each pass may read another source. -/
inductive Chain (config : Config) (start : Schema) : List Outcome → Schema → Prop
  | nil : Chain config start [] start
  | pass {outcomes : List Outcome} {s : Schema} {source : AnnotationSource} {data : Bytes}
      {c : ClassFile} {r r' : Registries} {o : Outcome} (before : Chain config start outcomes s)
      (parsed : ClassFile.parse data = .ok c) (configured : r.context.config = config)
      (short : ∀ w, written source r.context s c = .ok w → w.ShortPayloads)
      (ran : run source s c r = .ok o r') : Chain config start (outcomes ++ [o]) o.schema

theorem Chain.invariant {config : Config} {start s : Schema} {outcomes : List Outcome}
    (hstart : start.HasStorage config) (h : Chain config start outcomes s) :
    s.HasStorage config ∧ s.fieldTable = start.fieldTable ∧
      ∀ o ∈ outcomes, ∃ c, ClassFile.parse o.bytes = .ok c ∧
        c.fieldTable = .ok start.fieldTable := by
  induction h with
  | nil => exact ⟨hstart, rfl, by simp⟩
  | @pass outcomes s source data c r r' o before parsed configured short ran ih =>
      obtain ⟨hstorage, htable, houtcomes⟩ := ih
      obtain ⟨t⟩ := run_ok ran
      obtain ⟨hpool, hp⟩ := ClassFile.wellFormed_of_parse parsed
      obtain ⟨hparse, hwritten, hschema⟩ := t.parse_bytes hpool hp (short _ t.written_eq)
      subst configured
      have hsame : o.schema.fieldTable = start.fieldTable := by
        rw [hschema, if_neg fun h => h.2 hstorage, List.append_nil, htable]
      refine ⟨t.hasStorage_schema hp hstorage, hsame, ?_⟩
      intro o' ho'
      rcases List.mem_append.mp ho' with ho' | ho'
      · exact houtcomes o' ho'
      · rw [List.mem_singleton.mp ho']
        exact ⟨t.written, hparse, hsame ▸ hwritten⟩

/-- **Shape preservation.**  The class that a pass writes out has the field table of the old
schema, with the storage field behind it exactly if fields were added and there was none, and
this is the table that the new schema describes.  Every output of a chain that starts from a
prepared class has the field table of that class. -/
theorem shape_preserved :
    (∀ (source : AnnotationSource) (old : Schema) (data : Bytes) (c : ClassFile)
        (r r' : Registries) (o : Outcome),
      ClassFile.parse data = .ok c →
      (∀ w, written source r.context old c = .ok w → w.ShortPayloads) →
      run source old c r = .ok o r' →
      ∃ c', ClassFile.parse o.bytes = .ok c' ∧
        c'.fieldTable = .ok (old.fieldTable ++
          if o.added ≠ [] ∧ ¬ old.HasStorage r.context.config then
            [(storageEntry r.context.config).row]
          else []) ∧
        c'.fieldTable = .ok o.schema.fieldTable) ∧
    (∀ (config : Config) (c₀ c₁ : ClassFile) (added : Bool) (start last : Schema)
        (outcomes : List Outcome),
      c₀.pool.Addressable → c₀.access.isInterface = false →
      prepare config c₀ = .ok (added, c₁) → Schema.ofClass c₁ = .ok start →
      Chain config start outcomes last →
      ∀ o ∈ outcomes, ∃ c, ClassFile.parse o.bytes = .ok c ∧ c.fieldTable = c₁.fieldTable) := by
  constructor
  · intro source old data c r r' o parsed short ran
    obtain ⟨t⟩ := run_ok ran
    obtain ⟨hpool, hp⟩ := ClassFile.wellFormed_of_parse parsed
    obtain ⟨hparse, hwritten, hschema⟩ := t.parse_bytes hpool hp (short _ t.written_eq)
    exact ⟨t.written, hparse, hschema ▸ hwritten, hwritten⟩
  · intro config c₀ c₁ added start last outcomes hp hclass hprepare hstart hchain o ho
    have hstorage := hasStorage_of_prepare hp hclass hprepare hstart
    obtain ⟨-, -, houtcomes⟩ := hchain.invariant hstorage
    obtain ⟨c, hparse, htable⟩ := houtcomes o ho
    exact ⟨c, hparse, htable.trans (Schema.fieldTable_ofClass hstart).symm⟩

/-! ### A class in three versions -/

/-- A class with one constructor that declares public integer fields; the tenth constant is the
name `x` and the twelfth the name `y`. -/
def sample (names : List UInt16) : ClassFile where
  minorVersion := 0
  majorVersion := 49
  pool := ⟨#[.unused, .utf8 "A", .classRef 1, .utf8 "java/lang/Object", .classRef 3,
    .utf8 "<init>", .utf8 "()V", .utf8 "Code", .nameAndType 5 6, .methodRef 4 8, .utf8 "x",
    .utf8 "I", .utf8 "y"]⟩
  access := ⟨0x21⟩
  thisClass := 2
  superClass := 4
  interfaces := []
  fields := names.map fun name => ⟨⟨1⟩, name, 11, []⟩
  -- aload_0; invokespecial; return
  methods := [⟨⟨1⟩, 5, 6, [⟨7, [0, 1, 0, 1, 0, 0, 0, 5, 0x2a, 0xb7, 0, 9, 0xb1, 0, 0, 0, 0]⟩]⟩]
  attributes := []

/-- The stored form of a class. -/
def stored (c : ClassFile) : Bytes :=
  match c.encode with
  | .ok bytes => bytes
  | .error _ => []

def noAnnotations : AnnotationSource := fun _ _ _ => .ok none

/-- What an action came to, unless it failed. -/
def succeeded {ε σ α : Type} : EStateM.Result ε σ α → Option (α × σ)
  | .ok a s => some (a, s)
  | .error _ _ => none

theorem eq_ok_of_succeeded {ε σ α : Type} {x : EStateM.Result ε σ α} {a : α} {s : σ}
    (h : succeeded x = some (a, s)) : x = .ok a s := by
  cases x with
  | ok b t =>
      simp only [succeeded, Option.some.injEq, Prod.mk.injEq] at h
      rw [h.1, h.2]
  | error e t => cases h

/-- The first version, made ready for redefinition. -/
def prepared : ClassFile :=
  match prepare {} (sample [10]) with
  | .ok (_, c) => c
  | .error _ => sample []

/-- What the host knows of the first version. -/
def loaded : Schema :=
  match Schema.ofClass prepared with
  | .ok s => s
  | .error _ => ⟨"", []⟩

/-- The second version adds a field, and the third drops the one it started with. -/
theorem shape_preserved_sample :
    ∃ o o' : Outcome, Chain {} loaded [o, o'] o'.schema ∧ o.added ≠ [] ∧
      (∃ c, ClassFile.parse o.bytes = .ok c ∧ c.fieldTable = .ok o.schema.fieldTable) ∧
      ∀ u ∈ [o, o'], ∃ c, ClassFile.parse u.bytes = .ok c ∧
        c.fieldTable = prepared.fieldTable := by
  have short {old : Schema} {c : ClassFile} {r : Registries}
      (h : (written noAnnotations r.context old c).toOption.all
        (fun w => decide w.ShortPayloads) = true) :
      ∀ w, written noAnnotations r.context old c = .ok w → w.ShortPayloads := by
    intro w hw
    simpa [hw, Except.toOption] using h
  have parsed₁ : ClassFile.parse (stored (sample [10, 12])) = .ok (sample [10, 12]) := by
    decide +kernel
  have parsed₂ : ClassFile.parse (stored (sample [12])) = .ok (sample [12]) := by decide +kernel
  have runs : ((succeeded (run noAnnotations loaded (sample [10, 12]) (.start {} "app"))).any
      fun x => !x.1.added.isEmpty && x.2.context.config == {} &&
        (written noAnnotations x.2.context x.1.schema (sample [12])).toOption.all
          (fun w => decide w.ShortPayloads) &&
        (succeeded (run noAnnotations x.1.schema (sample [12]) x.2)).isSome) = true := by
    decide +kernel
  obtain ⟨⟨o, r⟩, ran₁, h⟩ := (Option.any_eq_true _ _).mp runs
  simp only [Bool.and_eq_true, Bool.not_eq_true', beq_iff_eq, List.isEmpty_eq_false_iff] at h
  obtain ⟨⟨⟨hadded, hconfig⟩, hshort₂⟩, hran₂⟩ := h
  obtain ⟨⟨o', r'⟩, ran₂⟩ := Option.isSome_iff_exists.mp hran₂
  have hshort₁ : ∀ w, written noAnnotations (Registries.start {} "app").context loaded
      (sample [10, 12]) = .ok w → w.ShortPayloads := short (by decide +kernel)
  have chain : Chain {} loaded [o, o'] o'.schema :=
    .pass (.pass .nil parsed₁ rfl hshort₁ (eq_ok_of_succeeded ran₁)) parsed₂ hconfig
      (short hshort₂) (eq_ok_of_succeeded ran₂)
  refine ⟨o, o', chain, hadded, ?_, ?_⟩
  · obtain ⟨c, hparse, -, htable⟩ := shape_preserved.1 _ _ _ _ _ _ _ parsed₁ hshort₁
      (eq_ok_of_succeeded ran₁)
    exact ⟨c, hparse, htable⟩
  · have small : (sample [10]).pool.Addressable := by
      unfold Pool.Addressable
      decide
    exact shape_preserved.2 {} (sample [10]) prepared true loaded o'.schema [o, o'] small rfl
      (by decide +kernel) (by decide +kernel) chain

end Pass

end Reshape
