import Reshape.Proofs.Attribute.Named
import Reshape.Proofs.Redefinition.ConstructorPaths
import Reshape.Proofs.Redefinition.FieldTable

/-!
# What a pass leaves alone

Shells, annotations, the storage field, and the block with its frames all go into one pool and one
class.  None of them disturbs another: the pool only gets longer, so an index keeps the constant
that it denotes, and of the class nothing but fields and constructors is rewritten.  A constructor
gets a new code attribute in the place of the one it had, and the code in it is longer, so the
constructors that were rewritten can be told by comparing the methods one by one.
-/

namespace Reshape

/-! ## §1 Code attributes -/

/-- What is read from a written body has its code. -/
theorem Body.code_of_parse_encode {b b' : Body} {payload : Bytes} (h : b.encode = .ok payload)
    (hparse : Body.parse payload = .ok b') : b'.code = b.code := by
  obtain ⟨hsize, hstored⟩ := Body.encode_eq_ok.mp h
  cases hstored
  have hlength : b.code.toList.length < 4294967296 :=
    Array.length_toList ▸ Nat.lt_of_le_of_lt hsize (by decide)
  have hcode := Reads.prefixed32 (ε := FormatError) hlength
  rw [Array.length_toList] at hcode
  rw [Body.parse, Body.reader_eq] at hparse
  obtain ⟨c, hread, -⟩ := Reader.runOn_ending_eq_ok.mp hparse
  simp only [Body.content, Cursor.start] at hread
  rw [(Reads.u16 b.maxStack).bind_apply, (Reads.u16 b.maxLocals).bind_apply,
    hcode.bind_apply] at hread
  obtain ⟨handlers, c₁, -, hread⟩ := state_bind_eq_ok.mp hread
  obtain ⟨attributes, c₂, -, hread⟩ := state_bind_eq_ok.mp hread
  obtain ⟨rfl, -⟩ := state_pure_eq_ok.mp hread
  rfl

namespace Prologue

/-- How a method is extended: its code attribute, of which nothing but the content is another one,
holds the old body with the block inserted behind the constructor call.  Names are read in `q`,
which the pool has grown to from `p`. -/
structure Extension (s : Setting) (p q : Pool) (m m' : Method) where
  position : Nat
  code : Attribute
  located : Attribute.locate? q Attribute.codeName 0 m.attributes = .ok (some (position, code))
  body : Body
  parsed : Body.parse code.payload = .ok body
  ins : Insertion
  found : ConstructorCall.find? q body.code = .ok (some ins.position)
  block : ins.block = s.block
  /-- What the frames in the new body are relative to. -/
  entry : List VerificationType
  before : Pool
  after : Pool
  grown : Pool.Growth p before
  entered : ∃ descriptor type, m.descriptorIn q = .ok descriptor ∧
    MethodType.ofDescriptor? descriptor = .ok type ∧
    FrameState.entryLocals s.thisClass false true type before = .ok entry after
  join : ins.join = if s.recordsFrames then some (entry.map (initialized s.thisClass)) else none
  edit : Edit
  inserted : ins.run entry ⟨body, after⟩ = .ok () edit
  kept : Pool.Growth edit.pool q
  payload : Bytes
  encoded : edit.body.encode = .ok payload
  result : m' = { m with attributes := m.attributes.set position ⟨code.name, payload⟩ }

/-- The body of a method is that of its code attribute. -/
theorem located_of_body? {p : Pool} {m : Method} {b : Body} (h : m.body? p = .ok (some b)) :
    ∃ position a, Attribute.locate? p Attribute.codeName 0 m.attributes = .ok (some (position, a)) ∧
      Body.parse a.payload = .ok b := by
  obtain ⟨found, hfound, h⟩ := except_bind_eq_ok.mp h
  obtain ⟨located, hlocated, rfl⟩ := except_map_eq_ok.mp hfound
  cases located with
  | none => cases h
  | some x =>
      obtain ⟨position, a⟩ := x
      obtain ⟨body, hbody, h⟩ := except_bind_eq_ok.mp h
      cases except_pure_eq_ok.mp h
      exact ⟨position, a, hlocated, hbody⟩

theorem extension_of_inserted {s : Setting} {p p₁ p₂ q : Pool} {m m' : Method} (hp : p.Addressable)
    (honce : p.NamedOnce Attribute.codeName) (hbefore : Pool.Growth p p₁)
    (hafter : Pool.Growth p₂ q) (h : Inserted s p₁ p₂ m m') : Nonempty (Extension s p q m m') := by
  have hgrowth := h.growth.trans hafter
  obtain ⟨body, ins, entry, p₃, edit, hbody, hfound, hblock, hp₃, hrun, hset, descriptor, type,
    hdescriptor, htype, hentry, hjoin⟩ := h
  obtain ⟨position, a, hlocated, hparse⟩ := located_of_body? hbody
  obtain ⟨payload, p₄, hpayload, hset⟩ := state_bind_eq_ok.mp hset
  obtain ⟨hencoded, rfl⟩ := Interning.ofExcept_eq_ok.mp hpayload
  obtain ⟨attributes, p₅, hattributes, hset⟩ := state_bind_eq_ok.mp hset
  obtain ⟨rfl, rfl⟩ := state_pure_eq_ok.mp hset
  have hreached : Pool.Growth p₁ edit.pool := hp₃.trans (Insertion.run_ok hrun).2.2
  have hstart : Pool.Growth p edit.pool := hbefore.trans hreached
  obtain ⟨front, rest, hsplit, hposition, hname, hfront⟩ := Attribute.locate?_eq_some hlocated
  rw [hsplit] at hattributes
  have hreplaced := Attribute.set_of_located (hstart.addressable hp) (hstart.namedOnce honce)
    (hreached.utf8 hname) (fun b hb => (hfront b hb).grown hreached) hattributes
  exact ⟨{
    position, body, ins, entry, edit, payload
    code := a
    located := Attribute.locate?_grown hgrowth hlocated
    parsed := hparse
    found := ConstructorCall.find?_grown hgrowth hfound
    block := hblock
    before := p₁
    after := p₃
    grown := hbefore
    entered := ⟨descriptor, type, hgrowth.utf8 hdescriptor, htype, hentry⟩
    join := hjoin
    inserted := hrun
    kept := ((Attribute.grows_set _ _ _).growth hattributes).trans hafter
    encoded := hencoded
    result := by rw [hreplaced, hsplit, hposition]; simp }⟩

/-- A method that is extended becomes another one, since its code becomes longer. -/
theorem Extension.ne {s : Setting} {p q : Pool} {m m' : Method} (t : Extension s p q m m')
    (hblock : 0 < s.block.size) : m' ≠ m := by
  intro heq
  have hattributes : m.attributes.set t.position ⟨t.code.name, t.payload⟩ = m.attributes := by
    have hsame := congrArg (fun m : Method => m.attributes) heq
    rwa [t.result] at hsame
  obtain ⟨front, rest, hsplit, hposition, -⟩ := Attribute.locate?_eq_some t.located
  have hpayload : t.payload = t.code.payload := by
    rw [hsplit, hposition] at hattributes
    simp only [Nat.zero_add, List.set_append_right, Nat.le_refl, Nat.sub_self, List.set_cons_zero,
      List.append_cancel_left_eq, List.cons.injEq, and_true] at hattributes
    exact congrArg Attribute.payload hattributes
  have hcode := Body.code_of_parse_encode t.encoded (hpayload ▸ t.parsed)
  obtain ⟨spliced⟩ := Insertion.splice_ok (Insertion.run_ok t.inserted).1
  have hsize : t.edit.body.code.size = t.body.code.size + t.ins.block.size := spliced.size_eq
  rw [← hcode, t.block] at hsize
  omega

end Prologue

namespace Pass

/-! ## §2 The whole class -/

/-- Nothing but the pool, the fields and the methods of a class is another one, and the pool is
longer at most. -/
structure Kept (c w : ClassFile) : Prop where
  others : w = { c with pool := w.pool, fields := w.fields, methods := w.methods }
  isPrefix : c.pool.slots.toList <+: w.pool.slots.toList
  slots : ∀ i, c.pool.slot i ≠ .unused → w.pool.slot i = c.pool.slot i

theorem Ran.kept {source : AnnotationSource} {old : Schema} {c : ClassFile} {r r' : Registries}
    {o : Outcome} (t : Ran source old c r o r') (hp : c.pool.Addressable) : Kept c t.written := by
  obtain ⟨hgrowth, -⟩ := t.declares_written hp
  obtain ⟨-, -, hshape, -⟩ := reshape_ok hp t.reshaped
  obtain ⟨-, hwritten⟩ := Prologue.instrument_keeps t.instrumented
  refine ⟨?_, hgrowth.isPrefix, fun i hi => hgrowth.slot hi⟩
  rw [hshape] at hwritten
  rw [hwritten]

/-- What became of the methods of a class to which fields were added: the constructors with code,
and only these, are other ones, and each was extended by the same block. -/
structure Prolonged (config : Config) (added : List AddedField) (c w : ClassFile)
    (instrumented : Nat) : Prop where
  methods : ∃ s : Prologue.Setting,
    (s.thisClass = c.thisClass ∧ s.recordsFrames = c.requiresStackMap) ∧
    (∃ owner layout p q, c.name = .ok owner ∧ StorageLayout.ofRecords? owner added = .ok layout ∧
      Pool.Growth c.pool p ∧ Prologue.block config owner layout p = .ok s.block q) ∧
    List.Forall₂ (fun m m' =>
      if Prologue.hasConstructorCode w.pool m then
        m' ≠ m ∧ Nonempty (Prologue.Extension s c.pool w.pool m m')
      else m' = m) c.methods w.methods
  count : instrumented = c.methods.countP (Prologue.hasConstructorCode w.pool)

/-- The block is a check and more. -/
theorem size_block_pos {config : Config} {owner : String} {l : StorageLayout} {block : Array UInt8}
    {p q : Pool} (h : Prologue.block config owner l p = .ok block q) : 0 < block.size := by
  obtain ⟨-, fill, p₁, index, -, -, hsize, -⟩ := Prologue.block_parts h
  have hle : 7 + fill.size ≤ Fragment.alignedSize (7 + fill.size) 4 :=
    (Fragment.alignedSize_bounds (by decide)).1
  omega

/-- A method that was looked at was extended, or it is the one it was. -/
theorem treated_cases {s : Prologue.Setting} {p₀ p q : Pool} {m m' : Method} (hp : p₀.Addressable)
    (honce : p₀.NamedOnce Attribute.codeName) (hgrowth : Pool.Growth p₀ p)
    (hblock : 0 < s.block.size) (h : Prologue.Treated s p q m m') :
    if Prologue.hasConstructorCode q m then
      m' ≠ m ∧ Nonempty (Prologue.Extension s p₀ q m m')
    else m' = m := by
  cases h with
  | skipped before after skipped =>
      rw [skipped.hasConstructorCode after]
      rfl
  | inserted before after isConstructor inserted =>
      rw [if_pos (inserted.hasConstructorCode (inserted.growth.trans after) isConstructor)]
      obtain ⟨t⟩ :=
        Prologue.extension_of_inserted hp honce (hgrowth.trans before) after inserted
      exact ⟨t.ne hblock, ⟨t⟩⟩

/-- What is counted are the constructors with code, if fields are added, and else nothing. -/
theorem Ran.instrumented_eq {source : AnnotationSource} {old : Schema} {c : ClassFile}
    {r r' : Registries} {o : Outcome} (t : Ran source old c r o r') (hp : c.pool.Addressable) :
    o.instrumented = if o.added = [] then 0
      else c.methods.countP (Prologue.hasConstructorCode t.written.pool) := by
  have hinstrumented := t.instrumented
  rw [← t.added] at hinstrumented
  by_cases hnone : o.added = []
  · rw [if_pos hnone]
    rw [hnone] at hinstrumented
    exact (Prod.mk.inj (except_pure_eq_ok.mp hinstrumented)).2.symm
  · rw [if_neg hnone]
    obtain ⟨-, -, -, -, -, -, -, -, -, -, -, hcount⟩ := Prologue.instrument_ok hnone hinstrumented
    rwa [t.methods_shaped hp] at hcount

theorem Ran.prolonged {source : AnnotationSource} {old : Schema} {c : ClassFile}
    {r r' : Registries} {o : Outcome} (t : Ran source old c r o r') (hp : c.pool.Addressable)
    (honce : c.pool.NamedOnce Attribute.codeName) (hadded : o.added ≠ []) :
    Prolonged r.context.config o.added c t.written o.instrumented := by
  obtain ⟨hgrowth, -⟩ := reshape_ok hp t.reshaped
  have hcount := t.instrumented_eq hp
  rw [if_neg hadded] at hcount
  obtain ⟨layout, s, p, hlayout, hblock, -, htreated, hsetting⟩ := t.treated hp hadded
  have hbefore := hgrowth.trans ((Prologue.grows_block _ _ _).growth hblock)
  refine ⟨⟨s, hsetting, ⟨t.owner, layout, t.shape.shaped.pool, p, t.named, hlayout, hgrowth,
    hblock⟩, ?_⟩, hcount⟩
  exact htreated.imp fun m m' h => treated_cases hp honce hbefore (size_block_pos hblock) h

/-- **A pass touches nothing else.**  Take a class that was read and whose pool has the name of code
attributes once at most.  The class that a pass writes out keeps the header, the interfaces, the
attributes and the methods in their order, and the pool is a front part of the new one, so every
index denotes what it did.  Without added instance fields all methods are the same.  With some, the
methods that are other ones are the constructors with code, which are counted; each differs in its
code attribute only, which holds the old body with one and the same block inserted behind the
constructor call.  Names are read in the pool of the new class, where what could be read before
reads the same. -/
theorem pass_keeps_rest {source : AnnotationSource} {old : Schema} {data : Bytes} {c : ClassFile}
    {r r' : Registries} {o : Outcome} (parsed : ClassFile.parse data = .ok c)
    (once : c.pool.NamedOnce Attribute.codeName) (ran : run source old c r = .ok o r') :
    ∃ w, written source r.context old c = .ok w ∧ w.encode = .ok o.bytes ∧
      (w.ShortPayloads → ClassFile.parse o.bytes = .ok w) ∧ Kept c w ∧
      (o.added = [] → w.methods = c.methods ∧ o.instrumented = 0) ∧
      (o.added ≠ [] → Prolonged r.context.config o.added c w o.instrumented) := by
  obtain ⟨t⟩ := run_ok ran
  obtain ⟨hpool, hp⟩ := ClassFile.wellFormed_of_parse parsed
  obtain ⟨hgrowth, -⟩ := t.declares_written hp
  refine ⟨t.written, t.written_eq, t.encoded, ?_, t.kept hp, ?_, t.prolonged hp once⟩
  · exact fun hshort => ClassFile.parse_of_encode (hgrowth.wellFormed hpool) hshort t.encoded
  · intro hnone
    have hinstrumented := t.instrumented
    rw [← t.added, hnone] at hinstrumented
    obtain ⟨hwritten, hcount⟩ := Prod.mk.inj (except_pure_eq_ok.mp hinstrumented)
    obtain ⟨-, -, hshape, -⟩ := reshape_ok hp t.reshaped
    rw [← hwritten, ← hcount, hshape]
    exact ⟨rfl, rfl⟩

/-- The one method of the class is extended when a field is added. -/
theorem pass_keeps_rest_sample :
    ∃ (o : Outcome) (w : ClassFile), o.added ≠ [] ∧ o.instrumented = 1 ∧
      w.encode = .ok o.bytes ∧ Kept (sample [10, 12]) w ∧
      Prolonged {} o.added (sample [10, 12]) w o.instrumented := by
  have parsed : ClassFile.parse (stored (sample [10, 12])) = .ok (sample [10, 12]) := by
    decide +kernel
  have once : (sample [10, 12]).pool.NamedOnce Attribute.codeName := by decide
  have runs : ((succeeded (run noAnnotations loaded (sample [10, 12]) (.start {} "app"))).any
      fun x => !x.1.added.isEmpty && x.1.instrumented == 1) = true := by
    decide +kernel
  obtain ⟨⟨o, r⟩, ran, h⟩ := (Option.any_eq_true _ _).mp runs
  simp only [Bool.and_eq_true, Bool.not_eq_true', List.isEmpty_eq_false_iff, beq_iff_eq] at h
  obtain ⟨hadded, hcount⟩ := h
  obtain ⟨w, -, hencoded, -, hkept, -, hprolonged⟩ :=
    pass_keeps_rest parsed once (eq_ok_of_succeeded ran)
  exact ⟨o, w, hadded, hcount, hencoded, hkept, hprolonged hadded⟩

end Pass

end Reshape
