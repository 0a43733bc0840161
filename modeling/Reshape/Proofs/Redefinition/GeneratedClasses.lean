import Reshape.Proofs.Attribute.Metadata
import Reshape.Proofs.Redefinition.Replay

/-!
# What generated classes declare

A generated class starts from an empty pool, and everything it says of its field is interned there
anew.  The field has the name, the descriptor and the metadata that the added field has in the pool
of the new definition; the class is stored and can be read back.  The pool of the new definition has
grown by the time, which changes nothing of what could be read in it before.
-/

namespace Reshape

open Access

/-! ## §1 A class with one field -/

namespace Pool

theorem addressable_empty : empty.Addressable := by
  unfold Addressable
  decide

end Pool

/-- The first slot of a pool that has grown from nothing holds no constant, so a class that can be
named there is not referred to by zero. -/
theorem ClassFile.superName?_of_className {c : ClassFile} {name : String}
    (hgrowth : Pool.Growth Pool.empty c.pool) (h : c.pool.className c.superClass = .ok name) :
    c.superName? = .ok (some name) := by
  unfold superName?
  by_cases hzero : c.superClass = 0
  · have hslot : c.pool.slot 0 = .unused := hgrowth.slot_of_lt (by decide)
    rw [hzero, Pool.className, hslot] at h
    cases h
  · rw [if_neg hzero, h]
    rfl

namespace Generated

/-- A class that declares nothing but a copy of a field of another class. -/
structure Copies (source : Pool) (f : Field) (majorVersion : UInt16) (name : String)
    (flags : FieldAccess) (w : ClassFile) (g : Field) : Prop where
  growth : Pool.Growth Pool.empty w.pool
  named : w.name = .ok name
  below : w.superName? = .ok (some rootClass)
  version : w.majorVersion = majorVersion
  access : w.access = ⟨accPublic ||| accSuper⟩
  fields : w.fields = [g]
  methods : w.methods = []
  attributes : w.attributes = []
  flagged : g.access = flags
  identity : ∃ id, f.identityIn source = .ok id ∧ g.identityIn w.pool = .ok id
  metadata : Labelling.Copied source f.attributes ⟨w.pool, g.attributes⟩

theorem create_ok {majorVersion : UInt16} {access : ClassAccess} {name superName : String}
    {c : ClassFile} (h : ClassFile.create majorVersion access name superName = .ok c) :
    ∃ p i j, c = ⟨0, majorVersion, p, access, i, j, [], [], [], []⟩ ∧ Pool.Growth Pool.empty p ∧
      p.className i = .ok name ∧ p.className j = .ok superName := by
  unfold ClassFile.create at h
  dsimp only at h
  split at h
  · next thisClass superClass pool hconstants =>
    cases h
    obtain ⟨i, p₁, hthis, hconstants⟩ := state_bind_eq_ok.mp hconstants
    obtain ⟨j, p₂, hsuper, hconstants⟩ := state_bind_eq_ok.mp hconstants
    obtain ⟨hindices, rfl⟩ := state_pure_eq_ok.mp hconstants
    cases hindices
    have hgrowth := (Pool.grows_addClass name).growth hthis
    have hmore := (Pool.grows_addClass superName).growth hsuper
    have hname := Pool.className_of_addClass Pool.addressable_empty hthis
    have hp := hgrowth.addressable Pool.addressable_empty
    exact ⟨_, _, _, rfl, hgrowth.trans hmore, hmore.className hname,
      Pool.className_of_addClass hp hsuper⟩
  · cases h

/-- **The class that is generated for a field** declares a copy of it with the given flags. -/
theorem singleField_ok {majorVersion : UInt16} {name : String} {access : FieldAccess}
    {source : Pool} {f : Field} {w : ClassFile}
    (h : singleField majorVersion name access source f = .ok w) :
    ∃ g, Copies source f majorVersion name access w g := by
  obtain ⟨c, hcreate, h⟩ := except_bind_eq_ok.mp h
  obtain ⟨p, i, j, rfl, hgrowth, hname, hbelow⟩ := create_ok hcreate
  dsimp only at h
  split at h
  · next u w' hfill =>
    cases except_pure_eq_ok.mp h
    obtain ⟨id, c₁, hlook, hfill⟩ := state_bind_eq_ok.mp hfill
    obtain ⟨hid, rfl⟩ := Pass.classEdit_ofExcept_eq_ok.mp hlook
    obtain ⟨position, c₂, hdeclare, hfill⟩ := state_bind_eq_ok.mp hfill
    have hp : p.Addressable := hgrowth.addressable Pool.addressable_empty
    obtain ⟨⟨hmore, rfl⟩, g, hidentity, ⟨haccess, hbare⟩, hc₂⟩ := Pass.declareField_ok hp hdeclare
    obtain ⟨l, hcopy, rfl⟩ := onPart_eq_ok.mp hfill
    generalize c₂.pool = q at hmore hidentity hc₂ hcopy
    subst hc₂
    have hstart : (Site.ofField 0).attributes
        (⟨0, majorVersion, q, ⟨accPublic ||| accSuper⟩, i, j, [], [g], [], []⟩ : ClassFile) = [] :=
      hbare
    obtain ⟨hlast, hcopied⟩ :=
      Labelling.copyMetadata_ok (hmore.addressable hp) (hstart ▸ hcopy)
    have hall : Pool.Growth Pool.empty l.pool := (hgrowth.trans hmore).trans hlast
    refine ⟨{ g with attributes := l.attributes }, ?_⟩
    show Copies source f majorVersion name access ⟨0, majorVersion, l.pool,
      ⟨accPublic ||| accSuper⟩, i, j, [], [{ g with attributes := l.attributes }], [], []⟩ _
    exact {
      growth := hall
      named := (hmore.trans hlast).className hname
      below := ClassFile.superName?_of_className hall ((hmore.trans hlast).className hbelow)
      version := rfl
      access := rfl
      fields := rfl
      methods := rfl
      attributes := rfl
      flagged := haccess
      identity := ⟨id, mapError_eq_ok.mp hid, Member.identityIn_grown (m := g) hidentity hlast⟩
      metadata := hcopied }
  · cases h

/-- What is generated for a field is stored and read back. -/
theorem parse_of_copies {source : Pool} {f g : Field} {majorVersion : UInt16} {name : String}
    {access : FieldAccess} {w : ClassFile} {bytes : Bytes}
    (h : Copies source f majorVersion name access w g)
    (hshort : ∀ a ∈ f.attributes, a.ShortPayload) (hencode : w.encode = .ok bytes) :
    ClassFile.parse bytes = .ok w := by
  apply ClassFile.parse_of_encode (h.growth.wellFormed Pool.wellFormed_empty) _ hencode
  constructor
  · rw [h.attributes]
    simp
  · intro f' hf' a ha
    rw [h.fields] at hf'
    cases List.mem_singleton.mp hf'
    exact h.metadata.short hshort a ha
  · rw [h.methods]
    simp

end Generated

namespace Pass

/-! ## §2 The classes of a pass -/

/-- The class that is stored declares a field as the new definition does, except for the flags. -/
structure Mirrors (c : ClassFile) (f : Field) (flags : FieldAccess) (d : Definition)
    (w : ClassFile) (g : Field) : Prop where
  stored : ClassFile.parse d.bytes = .ok w
  named : w.name = .ok d.name
  below : w.superName? = .ok (some "java/lang/Object")
  access : w.access = ⟨accPublic ||| accSuper⟩
  version : w.majorVersion = c.majorVersion
  methods : w.methods = []
  fields : w.fields = [g]
  flagged : g.access = flags
  identity : ∃ id, f.identityIn c.pool = .ok id ∧ g.identityIn w.pool = .ok id
  annotations : ∀ annotations, AnnotationUse.visible? c.pool f.attributes = .ok annotations →
    AnnotationUse.visible? w.pool g.attributes = .ok annotations
  signature : ∀ signature, Attribute.signature? c.pool f.attributes = .ok signature →
    Attribute.signature? w.pool g.attributes = .ok signature

/-- The class stands for an added field of the definition, which the new schema lists with it. -/
structure Backs (c : ClassFile) (o : Outcome) (f : Field) (flags : FieldAccess)
    (d : Definition) : Prop where
  declared : f ∈ c.fields
  listed : ∃ e ∈ o.schema.fakeFields, f.identityIn c.pool = .ok e.identity ∧
    e.access = f.access ∧ e.kind = .fake d.name
  mirrors : ∃ w g, Mirrors c f flags d w g

/-- The fields that are added stand in the definition, and those of objects are not static. -/
theorem placeAll_added {s : Setting} {old : Schema} {c : ClassFile} {d : Draft}
    (h : placeAll s old c = .ok d) :
    (∀ f ∈ d.instances, f ∈ c.fields ∧ f.access.isStatic = false) ∧
      ∀ f ∈ d.statics, f ∈ c.fields ∧ f.access.isStatic = true := by
  obtain ⟨identities, -, h⟩ := except_bind_eq_ok.mp h
  split at h
  · exact (except_throw_eq_ok.mp h).elim
  refine except_foldlM_invariant (fun d : Draft =>
    (∀ f ∈ d.instances, f ∈ c.fields ∧ f.access.isStatic = false) ∧
      ∀ f ∈ d.statics, f ∈ c.fields ∧ f.access.isStatic = true) ?_ (by simp) h
  rintro d f d' hf ⟨hinstances, hstatics⟩ hplace
  obtain ⟨name, descriptor, -, hplaced⟩ := place_ok hplace
  cases hplaced with
  | passedOver => exact ⟨hinstances, hstatics⟩
  | seated => exact ⟨hinstances, hstatics⟩
  | added =>
      unfold Draft.add
      by_cases hstatic : f.access.isStatic = true
      · rw [if_pos hstatic]
        refine ⟨hinstances, fun g hg => ?_⟩
        rcases List.mem_append.mp hg with hg | hg
        · exact hstatics g hg
        · cases List.mem_singleton.mp hg
          exact ⟨hf, hstatic⟩
      · rw [if_neg hstatic]
        refine ⟨fun g hg => ?_, hstatics⟩
        rcases List.mem_append.mp hg with hg | hg
        · exact hinstances g hg
        · cases List.mem_singleton.mp hg
          exact ⟨hf, by simpa using hstatic⟩

namespace Ran

variable {source : AnnotationSource} {old : Schema} {c : ClassFile} {r r' : Registries}
  {o : Outcome} (t : Ran source old c r o r')
include t

/-- A field of the definition can be named, and it has the same name in the new shape. -/
theorem identity_of_mem {f : Field} (hf : f ∈ c.fields) : ∃ id,
    f.identityIn c.pool = .ok id ∧ f.identityIn t.shape.shaped.pool = .ok id := by
  obtain ⟨hplaced, -⟩ := reshape_steps t.reshaped
  obtain ⟨-, identities, -, hidentities⟩ := placeAll_instances hplaced
  obtain ⟨id, -, hid⟩ := exists_right_of_forall₂ hidentities hf
  exact ⟨id, hid, Member.identityIn_grown hid (growth_reshape t.reshaped)⟩

theorem mirrors {f g : Field} {flags : FieldAccess} {d : Definition} {w : ClassFile}
    (hf : f ∈ c.fields) (hshort : ∀ a ∈ f.attributes, a.ShortPayload)
    (h : Generated.Copies t.shape.shaped.pool f t.shape.shaped.majorVersion d.name flags w g)
    (hencode : w.encode = .ok d.bytes) : Mirrors c f flags d w g := by
  have hgrowth := growth_reshape t.reshaped
  obtain ⟨-, -, hshape, -⟩ := reshape_ok t.addressable t.reshaped
  have hversion : t.shape.shaped.majorVersion = c.majorVersion := by rw [hshape]
  obtain ⟨id, hid, hlater⟩ := t.identity_of_mem hf
  obtain ⟨id', hid', hcopied⟩ := h.identity
  cases hlater.symm.trans hid'
  obtain ⟨annotations, hannotations, hannotated⟩ := h.metadata.annotations
  obtain ⟨signature, hsignature, hsigned⟩ := h.metadata.signature
  refine {
    stored := Generated.parse_of_copies h hshort hencode
    named := h.named
    below := h.below
    access := h.access
    version := h.version.trans hversion
    methods := h.methods
    fields := h.fields
    flagged := h.flagged
    identity := ⟨id, hid, hcopied⟩
    annotations := ?_
    signature := ?_ }
  · intro before hbefore
    cases (AnnotationUse.visible?_grown hgrowth hbefore).symm.trans hannotations
    exact hannotated
  · intro before hbefore
    cases (Attribute.signature?_grown hgrowth hbefore).symm.trans hsignature
    exact hsigned

/-- The fields of objects that are added, each with the accessor class that was generated. -/
theorem proxied_backs {p : Pending} (hp : p ∈ t.proxied.map Prod.snd)
    (hshort : ∀ f ∈ c.fields, ∀ a ∈ f.attributes, a.ShortPayload) :
    ∃ f, f.access.isStatic = false ∧
      (∃ record ∈ o.added, f.identityIn c.pool = .ok record.identity) ∧
      Backs c o f f.access (p.definition r.context.loader) := by
  obtain ⟨hplaced, -⟩ := reshape_steps t.reshaped
  obtain ⟨x, hx, rfl⟩ := List.mem_map.mp hp
  obtain ⟨record, hrecord, f, hinstance, hidentity, proxy, generated, bytes, hgenerated, hencode,
    rfl⟩ := exists_left_of_forall₂ t.proxied_rows.1 hx
  obtain ⟨hf, hstatic⟩ := (placeAll_added hplaced).1 f hinstance
  obtain ⟨id, hid, hlater⟩ := t.identity_of_mem hf
  cases hlater.symm.trans hidentity
  obtain ⟨g, hcopies⟩ := Generated.singleField_ok hgenerated
  refine ⟨f, hstatic, ⟨record, hrecord, hid⟩, hf, ?_, generated, g, ?_⟩
  · refine ⟨⟨record.name, record.descriptor, f.access, .fake proxy⟩, ?_, hid, rfl, rfl⟩
    rw [t.fakeFields_eq]
    exact List.mem_append_left _ (List.mem_map_of_mem hx)
  · exact t.mirrors hf (hshort f hf) hcopies hencode

/-- The static fields that are added and that had no holder, each with the one generated for it. -/
theorem held_backs {p : Pending} (hp : p ∈ t.held.filterMap Held.pending)
    (hshort : ∀ f ∈ c.fields, ∀ a ∈ f.attributes, a.ShortPayload) :
    ∃ f, f.access.isStatic = true ∧
      (∃ x ∈ o.redirected, f.identityIn c.pool = .ok x.identity ∧
        x.holder = (p.definition r.context.loader).name) ∧
      Backs c o f (Generated.holderAccess f.access) (p.definition r.context.loader) := by
  obtain ⟨hplaced, -⟩ := reshape_steps t.reshaped
  obtain ⟨held, hheld, hpending⟩ := List.mem_filterMap.mp hp
  obtain ⟨f, hadded, s, s', hstep⟩ := exists_left_of_forall₂ (state_mapM_forall₂ t.holding) hheld
  obtain ⟨hf, hstatic⟩ := (placeAll_added hplaced).2 f hadded
  obtain ⟨hmade, ⟨hnone, -⟩ | hnew⟩ := holdStatic_steps hstep
  · cases hnone.symm.trans hpending
  obtain ⟨generated, bytes, hgenerated, hencode, hsome⟩ := hnew.generated
  cases hsome.symm.trans hpending
  obtain ⟨id, hid, hlater⟩ := t.identity_of_mem hf
  cases hlater.symm.trans hmade.identity
  obtain ⟨g, hcopies⟩ := Generated.singleField_ok hgenerated
  refine ⟨f, hstatic, ⟨held.redirect, ?_, hid, rfl⟩, hf, ⟨held.entry, ?_, ?_⟩, generated, g, ?_⟩
  · rw [t.redirected]
    exact List.mem_map_of_mem hheld
  · rw [t.fakeFields_eq]
    exact List.mem_append_right _ (List.mem_map_of_mem hheld)
  · rw [hmade.entry]
    exact ⟨hid, rfl, rfl⟩
  · exact t.mirrors hf (hshort f hf) hcopies hencode

end Ran

/-- **Generated classes mirror the added field.**  The attributes of the definition must be as short
as they are in any class that was read.  Whatever a pass commits, it commits for a field that the
definition adds.  The stored bytes are read back as a public class of the owner's version below the
root class, which has the generated name, no methods and one field.  That field is named and
labelled as the added one is; it also has the flags of the added one in an accessor class, while in
a holder it is public and static and has the bits of the added one that say how its value is
treated. -/
theorem generated_classes_mirror_fields {source : AnnotationSource} {old : Schema} {c : ClassFile}
    {r r' : Registries} {o : Outcome}
    (hshort : ∀ f ∈ c.fields, ∀ a ∈ f.attributes, a.ShortPayload)
    (ran : run source old c r = .ok o r') :
    ∃ new, r'.store.definitions = r.store.definitions ++ new ∧
      ∀ d ∈ new, d.scope = r.context.loader ∧ ∃ f,
        f.access.isStatic = false ∧
            (∃ record ∈ o.added, f.identityIn c.pool = .ok record.identity) ∧
            Backs c o f f.access d ∨
          f.access.isStatic = true ∧
            (∃ x ∈ o.redirected, f.identityIn c.pool = .ok x.identity ∧ x.holder = d.name) ∧
            Backs c o f ⟨(f.access.raw &&&
                (accVolatile ||| accTransient ||| accSynthetic ||| accEnum)) |||
              (accPublic ||| accStatic)⟩ d := by
  obtain ⟨t⟩ := run_ok ran
  refine ⟨_, t.committed.1, ?_⟩
  intro d hd
  obtain ⟨p, hp, rfl⟩ := List.mem_map.mp hd
  refine ⟨p.scope_definition _, ?_⟩
  rcases List.mem_append.mp hp with hp | hp
  · obtain ⟨f, h⟩ := t.proxied_backs hp hshort
    exact ⟨f, .inl h⟩
  · obtain ⟨f, h⟩ := t.held_backs hp hshort
    exact ⟨f, .inr h⟩

/-- An added field of objects with an annotation and a signature. -/
def labelledInstance : Field :=
  ⟨⟨0x1⟩, 10, 11, [⟨13, [0, 1, 0, 14, 0, 1, 0, 15, 73, 0, 16]⟩, ⟨17, [0, 18]⟩]⟩

/-- An added static field, private and volatile, with a signature. -/
def labelledStatic : Field := ⟨⟨0x4a⟩, 12, 11, [⟨17, [0, 18]⟩]⟩

def labelled : ClassFile :=
  { sample [] with
    pool := ⟨(sample []).pool.slots ++ #[.utf8 "RuntimeVisibleAnnotations", .utf8 "LMark;",
      .utf8 "v", .integer 7, .utf8 "Signature", .utf8 "TT;"]⟩
    fields := [labelledInstance, labelledStatic] }

/-- One class is generated for each field, and both say of it what the definition does. -/
theorem generated_classes_mirror_fields_labelled :
    ∃ (o : Outcome) (r : Registries) (d d' : Definition) (w w' : ClassFile) (g g' : Field),
      run noAnnotations ⟨"A", [storageEntry {}]⟩ labelled (.start {} "app") = .ok o r ∧
      r.store.definitions = [d, d'] ∧ d.name = "org/hotfield/proxy/FieldProxy$0" ∧
      d'.name = "A$StaticFieldHolder$0" ∧
      Mirrors labelled labelledInstance ⟨0x1⟩ d w g ∧
      AnnotationUse.visible? w.pool g.attributes = .ok (some [⟨"LMark;", [("v", .int 7)]⟩]) ∧
      Attribute.signature? w.pool g.attributes = .ok (some "TT;") ∧
      Mirrors labelled labelledStatic ⟨0x49⟩ d' w' g' ∧
      AnnotationUse.visible? w'.pool g'.attributes = .ok none ∧
      Attribute.signature? w'.pool g'.attributes = .ok (some "TT;") := by
  have runs : ((succeeded (run noAnnotations ⟨"A", [storageEntry {}]⟩ labelled
      (.start {} "app"))).any fun (o, r) =>
        r.store.definitions.map Definition.name ==
          ["org/hotfield/proxy/FieldProxy$0", "A$StaticFieldHolder$0"] &&
        o.schema.fakeFields.all fun e =>
          e.access.isStatic == (e.kind == .fake "A$StaticFieldHolder$0")) = true := by
    decide +kernel
  have parsed : ClassFile.parse (stored labelled) = .ok labelled := by decide +kernel
  obtain ⟨⟨o, r⟩, ran, h⟩ := (Option.any_eq_true _ _).mp runs
  simp only [Bool.and_eq_true, beq_iff_eq, List.all_eq_true] at h
  obtain ⟨hnames, hkinds⟩ := h
  obtain ⟨new, hnew, hall⟩ := generated_classes_mirror_fields
    (ClassFile.shortPayloads_of_parse parsed).ofFields (eq_ok_of_succeeded ran)
  rw [show (Registries.start {} "app").store.definitions = [] from rfl, List.nil_append] at hnew
  have kind {d : Definition} {f : Field} {flags : FieldAccess} (h : Backs labelled o f flags d) :
      f.access.isStatic = (FieldKind.fake d.name == .fake "A$StaticFieldHolder$0") := by
    obtain ⟨e, he, -, haccess, hkind⟩ := h.listed
    rw [← haccess, hkinds e he, hkind]
  obtain ⟨d, d', hdefinitions⟩ := List.length_eq_two.mp
    ((List.length_map _).symm.trans (congrArg List.length hnames))
  rw [hdefinitions, List.map_cons, List.map_cons, List.map_nil, List.cons.injEq,
    List.cons.injEq] at hnames
  obtain ⟨hname, hname', -⟩ := hnames
  rw [← hnew, hdefinitions] at hall
  obtain ⟨-, f, ⟨hinstance, -, hbacks⟩ | ⟨hstatic, -, hbacks⟩⟩ := hall d (by simp)
  case inr =>
    rw [kind hbacks, hname] at hstatic
    cases hstatic
  obtain ⟨-, f', ⟨hinstance', -, hbacks'⟩ | ⟨hstatic', -, hbacks'⟩⟩ := hall d' (by simp)
  case inl =>
    rw [kind hbacks', hname'] at hinstance'
    cases hinstance'
  have hf : f = labelledInstance := by
    rcases List.mem_pair.mp hbacks.declared with rfl | rfl
    · rfl
    · cases hinstance
  have hf' : f' = labelledStatic := by
    rcases List.mem_pair.mp hbacks'.declared with rfl | rfl
    · cases hstatic'
    · rfl
  subst hf hf'
  obtain ⟨w, g, hmirrors⟩ := hbacks.mirrors
  obtain ⟨w', g', hmirrors'⟩ := hbacks'.mirrors
  exact ⟨o, r, d, d', w, w', g, g', eq_ok_of_succeeded ran, hdefinitions, hname, hname', hmirrors,
    hmirrors.annotations _ rfl, hmirrors.signature _ rfl, hmirrors', hmirrors'.annotations _ rfl,
    hmirrors'.signature _ rfl⟩

end Pass

end Reshape
