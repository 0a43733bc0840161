import Reshape.Proofs.Attribute.Annotations
import Reshape.Proofs.Redefinition.Partition

/-!
# Annotations of loaded fields

A class that is redefined has to keep the annotations that its fields were loaded with.  Those that
the new definition declares are recorded instead, and reflection reports them.  A pass writes the
loaded ones into the pool of the new definition, one field after the other, so what it has written
is read back from a pool that has grown since.
-/

namespace Reshape

/-! ## §1 Records -/

namespace Reflection

theorem recorded_foldl (entries : List FieldAnnotations) :
    ∀ r : Reflection, (entries.foldl (fun r e => r.record e) r).recorded =
      entries.reverse ++ r.recorded := by
  induction entries with
  | nil => exact fun r => rfl
  | cons e entries ih =>
      intro r
      rw [List.foldl_cons, ih, List.reverse_cons, List.append_assoc]
      rfl

/-- What was recorded for a field is found, unless something else was for a field of that name and
descriptor. -/
theorem find?_recorded {entries : List FieldAnnotations} {e : FieldAnnotations} (r : Reflection)
    (hdistinct : (entries.map fun e => (e.name, e.descriptor)).Nodup) (he : e ∈ entries) :
    FieldAnnotations.find? (entries.foldl (fun r e => r.record e) r).recorded e.owner e.name
      e.descriptor = some e := by
  rw [recorded_foldl, FieldAnnotations.find?, List.find?_append]
  have hsome : (entries.reverse.find? fun x => x.owner == e.owner && x.name == e.name &&
      x.descriptor == e.descriptor).isSome = true :=
    List.find?_isSome.mpr ⟨e, List.mem_reverse.mpr he, by simp⟩
  obtain ⟨e', he'⟩ := Option.isSome_iff_exists.mp hsome
  have hkey := List.find?_some he'
  have hmem := List.mem_reverse.mp (List.mem_of_find?_eq_some he')
  simp only [Bool.and_eq_true, beq_iff_eq] at hkey
  have hsame : e' = e :=
    List.inj_on_of_nodup_map hdistinct hmem he (Prod.ext hkey.1.2 hkey.2)
  rw [he', hsame, Option.some_or]

end Reflection

namespace Pass

/-- For the field of a candidate is recorded, under the owner, what `f` declares.  `p` is the pool of
the definition and `q` the one that it has grown to. -/
structure RecordedAs (reflection : Reflection) (owner : String) (x : Candidate) (p q : Pool)
    (f : Field) : Prop where
  recorded : reflection.isRecorded owner x.name x.descriptor = true
  readable : AnnotationUse.visible? q f.attributes =
    .ok (reflection.declared? owner x.name x.descriptor)
  declared : ∀ annotations, AnnotationUse.visible? p f.attributes = .ok annotations →
    reflection.declared? owner x.name x.descriptor = annotations

/-- A record for the field of a candidate says what the field declares. -/
def Records (pool : Pool) (row : Field × Candidate) (e : FieldAnnotations) : Prop :=
  (e.name, e.descriptor) = row.2.identity ∧
    AnnotationUse.visible? pool row.1.attributes = .ok e.annotations

theorem Records.grown {p q : Pool} {row : Field × Candidate} {e : FieldAnnotations}
    (h : Records p row e) (hgrowth : Pool.Growth p q) : Records q row e :=
  ⟨h.1, AnnotationUse.visible?_grown hgrowth h.2⟩

/-- What was recorded for a field is found under the owner that it was recorded under. -/
theorem Records.recordedAs {entries : List FieldAnnotations} {e : FieldAnnotations} {p q : Pool}
    {row : Field × Candidate} (h : Records q row e) (hgrowth : Pool.Growth p q) (r : Reflection)
    (hdistinct : (entries.map fun e => (e.name, e.descriptor)).Nodup) (he : e ∈ entries) :
    RecordedAs (entries.foldl (fun r e => r.record e) r) e.owner row.2 p q row.1 := by
  obtain ⟨hkey, hvisible⟩ := h
  have hfound := Reflection.find?_recorded r hdistinct he
  have hname : e.name = row.2.name := congrArg Prod.fst hkey
  have hdescriptor : e.descriptor = row.2.descriptor := congrArg Prod.snd hkey
  rw [hname, hdescriptor] at hfound
  constructor
  · rw [Reflection.isRecorded, hfound]
    rfl
  · rw [Reflection.declared?, hfound]
    exact hvisible
  · intro annotations hbefore
    rw [Reflection.declared?, hfound]
    exact Except.ok.inj (hvisible.symm.trans (AnnotationUse.visible?_grown hgrowth hbefore))

/-! ## §2 One field -/

/-- A field of the definition that may take the place of the field that an entry describes. -/
def Replaces (c : ClassFile) (g : Field) (e : SchemaField) : Prop :=
  e.isNormal = true ∧ ∃ x, Field.candidateIn c.pool g = .ok x ∧ e.accepts x = true

/-- The field carries what the source says of the entry's field.  That there is nothing can only
be seen if no attribute which comes from the definition has a name that leads astray. -/
def Carries (source : AnnotationSource) (owner : String) (c : ClassFile) (pool : Pool) (f : Field)
    (e : SchemaField) : Prop :=
  ∃ loaded, source owner e.name e.descriptor = .ok loaded ∧
    ((loaded = none → ∀ g ∈ c.fields, Replaces c g e → ∀ a ∈ g.attributes, a.Named c.pool) →
      AnnotationUse.visible? pool f.attributes = .ok loaded)

theorem Carries.grown {source : AnnotationSource} {owner : String} {c : ClassFile} {p q : Pool}
    {f : Field} {e : SchemaField} (h : Carries source owner c p f e) (hgrowth : Pool.Growth p q) :
    Carries source owner c q f e := by
  obtain ⟨loaded, hloaded, hvisible⟩ := h
  exact ⟨loaded, hloaded, fun hnamed => AnnotationUse.visible?_grown hgrowth (hvisible hnamed)⟩

/-- The field is the one that the entry describes, and it carries what was loaded, unless it is the
storage field. -/
structure StandsFor (source : AnnotationSource) (owner storageName : String) (c : ClassFile)
    (pool : Pool) (f : Field) (e : SchemaField) : Prop where
  declares : Field.Declares pool f e
  carries : (e.isNormal = true → e.name ≠ storageName) → Carries source owner c pool f e

theorem lasting_standsFor (source : AnnotationSource) (owner storageName : String)
    (c : ClassFile) : Lasting (StandsFor source owner storageName c) := by
  intro p q f e hf hgrowth
  constructor
  · exact hf.declares.grown hgrowth
  · intro hstorage
    exact (hf.carries hstorage).grown hgrowth

/-- Of the definition's own attributes of that name, one at most, none is left. -/
theorem visible?_of_remove {p q : Pool} {attributes rest : List Attribute}
    {removed : Option Attribute} (hgrowth : Pool.Growth p q)
    (hnamed : ∀ a ∈ attributes, a.Named p)
    (hone : attributes.countP (Attribute.isNamed p Attribute.visibleAnnotationsName) ≤ 1)
    (h : Attribute.remove q Attribute.visibleAnnotationsName attributes = .ok (removed, rest)) :
    AnnotationUse.visible? q rest = .ok none := by
  refine AnnotationUse.visible?_of_others (Attribute.other_of_remove ?_ ?_ h)
  · exact fun a ha => Attribute.Named.grown (hnamed a ha) hgrowth
  · rwa [List.countP_congr fun a ha => by rw [Attribute.isNamed_grown hgrowth (hnamed a ha)]]

/-- A matched field carries what was loaded. -/
theorem withLoadedAnnotations_carries {s : Setting} {name descriptor : String} {f g : Field}
    {p₀ p q : Pool} {before : Option (List AnnotationUse)} (hp₀ : p₀.Addressable)
    (honce : p₀.NamedOnce Attribute.visibleAnnotationsName)
    (hone : f.attributes.countP (Attribute.isNamed p₀ Attribute.visibleAnnotationsName) ≤ 1)
    (hgrowth : Pool.Growth p₀ p) (hbefore : AnnotationUse.visible? p f.attributes = .ok before)
    (h : withLoadedAnnotations s name descriptor f p = .ok (g, q)) :
    ∃ loaded, s.source s.owner name descriptor = .ok loaded ∧
      ((loaded = none → ∀ a ∈ f.attributes, a.Named p₀) →
        AnnotationUse.visible? q g.attributes = .ok loaded) := by
  obtain ⟨loaded, hloaded, h⟩ := except_bind_eq_ok.mp h
  refine ⟨loaded, mapError_eq_ok.mp hloaded, fun hnamed => ?_⟩
  cases loaded with
  | none =>
      obtain ⟨⟨removed, attributes⟩, hremoved, h⟩ := except_bind_eq_ok.mp h
      cases except_pure_eq_ok.mp h
      exact visible?_of_remove hgrowth (hnamed rfl) hone (mapError_eq_ok.mp hremoved)
  | some loaded =>
      obtain ⟨⟨attributes, pool⟩, hset, h⟩ := except_bind_eq_ok.mp h
      cases except_pure_eq_ok.mp h
      exact AnnotationUse.visible?_of_setVisible (hgrowth.addressable hp₀) (hgrowth.namedOnce honce)
        hbefore (interned_eq_ok.mp hset)

/-- A shell carries what was loaded. -/
theorem shell_carries {s : Setting} {c : ClassFile} {e : SchemaField} {f : Field} {p q : Pool}
    (hp : p.Addressable) (honce : p.NamedOnce Attribute.visibleAnnotationsName)
    (h : shell s e p = .ok (f, q)) : Carries s.source s.owner c q f e := by
  obtain ⟨g, p₁, loaded, hdeclare, hloaded, hf⟩ := shell_steps h
  obtain ⟨hgrowth, -⟩ := Member.declare_ok hp hdeclare
  have hnone : AnnotationUse.visible? p₁ g.attributes = .ok none := by
    rw [Member.attributes_of_declare hdeclare]
    rfl
  refine ⟨loaded, hloaded, fun _ => ?_⟩
  cases loaded with
  | none =>
      obtain ⟨rfl, rfl⟩ := hf
      exact hnone
  | some loaded =>
      obtain ⟨attributes, hset, rfl⟩ := hf
      exact AnnotationUse.visible?_of_setVisible (hgrowth.addressable hp) (hgrowth.namedOnce honce)
        hnone hset

/-! ## §3 The fields of a definition -/

/-- What is known after the fields of some rows are placed: those who took a seat carry what was
loaded, for each of them there is a record of what it declared, and the added static fields stand as
they are. -/
structure Draft.Remembers (s : Setting) (old : Schema) (c : ClassFile)
    (rows : List (Field × Candidate)) (d : Draft) : Prop where
  seated : ∀ seat ∈ d.seats, ∀ f, seat.occupant = some f →
    Carries s.source s.owner c d.pool f seat.entry
  declared : List.Forall₂ (fun row e => e.owner = s.owner ∧ Records d.pool row e)
    (rows.filter fun row => old.hasMatch s.config.storageName row.2) d.declared
  statics : d.statics = (rows.filter fun row =>
    !old.hasMatch s.config.storageName row.2 && row.2.access.isStatic).map Prod.fst

theorem Draft.Remembers.next {s : Setting} {old : Schema} {c : ClassFile}
    {rows : List (Field × Candidate)} {row : Field × Candidate} {d d' : Draft}
    (hd : d.Remembers s old c rows) (haccounts : d.Accounts s old c.pool (rows.map Prod.snd))
    (hp : c.pool.Addressable) (honce : c.pool.NamedOnce Attribute.visibleAnnotationsName)
    (hone : row.1.attributes.countP
      (Attribute.isNamed c.pool Attribute.visibleAnnotationsName) ≤ 1)
    (hmem : row.1 ∈ c.fields) (hx : Field.candidateIn c.pool row.1 = .ok row.2)
    (hname : row.2.name ≠ s.config.storageName) (h : Next s old d row.1 row.2 d') :
    d'.Remembers s old c (rows ++ [row]) := by
  obtain ⟨-, haccess⟩ := Field.candidateIn_eq_ok.mp hx
  cases h with
  | passedOver named => exact (hname named).elim
  | added _ noMatch _ =>
      unfold Draft.add
      rw [haccess]
      by_cases hstatic : row.2.access.isStatic = true
      · rw [if_pos hstatic]
        refine ⟨hd.seated, ?_, ?_⟩
        · simpa [List.filter_append, noMatch] using hd.declared
        · simp [List.filter_append, noMatch, hstatic, hd.statics]
      · rw [if_neg hstatic]
        refine ⟨hd.seated, ?_, ?_⟩
        · simpa [List.filter_append, noMatch] using hd.declared
        · simpa [List.filter_append, hstatic] using hd.statics
  | @matched _ index seat place isOpen accepts annotations declared g pool loaded =>
      obtain ⟨hgrowth, -⟩ := withLoadedAnnotations_ok loaded
      have hm := Seat.isMatchable_of_isOpen isOpen
      have hentry := List.mem_of_getElem? (haccounts.getElem?_fields place)
      have hhas : old.hasMatch s.config.storageName row.2 = true :=
        List.any_eq_true.mpr ⟨seat.entry, hentry, by rw [hm, accepts]; rfl⟩
      refine ⟨?_, ?_, ?_⟩
      · intro seat' hseat' f hf
        rcases mem_of_mem_modify hseat' with hseat' | ⟨taken, htaken, rfl⟩
        · exact (hd.seated seat' hseat' f hf).grown hgrowth
        · cases place.symm.trans htaken
          cases hf
          obtain ⟨answer, hanswer, hvisible⟩ := withLoadedAnnotations_carries hp honce hone
            haccounts.growth declared loaded
          obtain ⟨hentryName, hentryDescriptor⟩ :=
            Prod.mk.inj (SchemaField.identity_of_accepts accepts)
          refine ⟨answer, by rw [hentryName, hentryDescriptor, hanswer], ?_⟩
          intro hnamed
          have hnormal : seat.entry.isNormal = true := (Bool.and_eq_true _ _ ▸ hm).1
          exact hvisible fun hnone => hnamed hnone row.1 hmem ⟨hnormal, row.2, hx, accepts⟩
      · simp only [List.filter_append, List.filter_cons, hhas, if_true, List.filter_nil]
        refine List.rel_append (hd.declared.imp fun _ _ h => ⟨h.1, h.2.grown hgrowth⟩) ?_
        exact .cons ⟨rfl, rfl, AnnotationUse.visible?_grown hgrowth declared⟩ .nil
      · simpa [List.filter_append, hhas] using hd.statics

/-- What a reshaped definition keeps of annotations: its fields stand for the entries of the old
schema, and there is a record for each field that is matched. -/
structure Reshaped.Remembers (s : Setting) (old : Schema) (c : ClassFile) (r : Reshaped) :
    Prop where
  fields : List.Forall₂ (StandsFor s.source s.owner s.config.storageName c r.shaped.pool)
    r.shaped.fields (declaredEntries old.fields s.config r.appendsStorage)
  rows : ∃ rows : List (Field × Candidate),
    (∀ f ∈ c.fields, ∀ x, Field.candidateIn c.pool f = .ok x → x.name ≠ s.config.storageName →
      (f, x) ∈ rows) ∧
    (∀ row ∈ rows, Field.candidateIn c.pool row.1 = .ok row.2) ∧
    (rows.map (·.2.identity)).Nodup ∧
    List.Forall₂ (fun row e => e.owner = s.owner ∧ Records r.shaped.pool row e)
      (rows.filter fun row => old.hasMatch s.config.storageName row.2) r.draft.declared ∧
    r.draft.statics = (rows.filter fun row =>
      !old.hasMatch s.config.storageName row.2 && row.2.access.isStatic).map Prod.fst

theorem reshape_remembers {s : Setting} {old : Schema} {c : ClassFile} {r : Reshaped}
    (hp : c.pool.Addressable) (honce : c.pool.NamedOnce Attribute.visibleAnnotationsName)
    (hone : ∀ f ∈ c.fields, f.attributes.countP
      (Attribute.isNamed c.pool Attribute.visibleAnnotationsName) ≤ 1)
    (h : reshape s old c = .ok r) : r.Remembers s old c := by
  obtain ⟨hplaced, ⟨seats, pool, hseats, hshaped⟩, -⟩ := reshape_steps h
  have hsound := placeAll_sound hplaced
  have hp' := hsound.growth.addressable hp
  have lasting := lasting_standsFor s.source s.owner s.config.storageName c
  obtain ⟨rows, hfields, hrows, hnodup, -, hd⟩ :
      ∃ rows : List (Field × Candidate), rows.map Prod.fst = c.fields ∧
        (∀ row ∈ rows, Field.candidateIn c.pool row.1 = .ok row.2) ∧
        (rows.map (·.2.identity)).Nodup ∧ _ ∧
        r.draft.Remembers s old c (rows.filter (·.2.name != s.config.storageName)) := by
    refine placeAll_next (I := Draft.Remembers s old c) (distinct_of_reshape hp h) hplaced
      ⟨by simp, .nil, rfl⟩ ?_
    intro done d d' row hmem hx hname haccounts hd hnext
    exact hd.next haccounts hp honce (hone row.1 hmem) hmem hx hname hnext
  have hseated : ∀ seat ∈ r.draft.seats, ∀ f, seat.occupant = some f →
      seat.entry.isNormal = true ∧
        StandsFor s.source s.owner s.config.storageName c r.draft.pool f seat.entry := by
    intro seat hseat f hf
    obtain ⟨hnormal, -, hdeclares⟩ := hsound.seated seat hseat f hf
    exact ⟨hnormal, hdeclares, fun _ => hd.seated seat hseat f hf⟩
  have hshell : ∀ e p f q, Pool.Growth r.draft.pool p → shell s e p = .ok (f, q) →
      StandsFor s.source s.owner s.config.storageName c q f e := by
    intro e p f q hgrowth hf
    have hmore := hsound.growth.trans hgrowth
    have hdeclares := declares_of_shell (hmore.addressable hp) hf
    exact ⟨hdeclares, fun _ => shell_carries (hmore.addressable hp) (hmore.namedOnce honce) hf⟩
  have hstorageShell : ∀ e p f q, e.kind = .normal → e.name = s.config.storageName →
      Pool.Growth r.draft.pool p → storageShell e p = .ok (f, q) →
      StandsFor s.source s.owner s.config.storageName c q f e := by
    intro e p f q hkind hname hgrowth hf
    have hdeclares := declares_of_storageShell (hgrowth.addressable hp') hf
    refine ⟨hdeclares, fun hstorage => ?_⟩
    exact (hstorage (by simp [SchemaField.isNormal, hkind]) hname).elim
  obtain ⟨hgrowth, hentries, hsettled⟩ :=
    fillShells_ok lasting hshell hstorageShell hseated hseats
  have hdeclared := forall₂_of_settled hsettled
  rw [hentries, hsound.entries] at hdeclared
  obtain ⟨hmore, hstand, -⟩ := declareFields_ok lasting
    (fun p f hf => ⟨hf, fun hstorage => (hstorage rfl rfl).elim⟩) (hgrowth.addressable hp')
    hdeclared hshaped
  refine ⟨hstand, rows.filter (·.2.name != s.config.storageName), ?_, ?_, ?_, ?_, hd.statics⟩
  · intro f hf x hx hname
    rw [← hfields] at hf
    obtain ⟨⟨f', x'⟩, hrow, rfl⟩ := List.mem_map.mp hf
    cases hx.symm.trans (hrows _ hrow)
    exact List.mem_filter.mpr ⟨hrow, bne_iff_ne.mpr hname⟩
  · intro row hrow
    exact hrows row (List.mem_filter.mp hrow).1
  · exact hnodup.sublist (List.filter_sublist.map _)
  · refine hd.declared.imp ?_
    rintro row e ⟨howner, hrecords⟩
    exact ⟨howner, hrecords.grown (hgrowth.trans hmore)⟩

/-! ## §4 One pass -/

namespace Ran

variable {source : AnnotationSource} {old : Schema} {c : ClassFile} {r r' : Registries}
  {o : Outcome}

/-- A static field is recorded under its holder. -/
theorem records_held (t : Ran source old c r o r') (hp : c.pool.Addressable)
    {rows : List (Field × Candidate)}
    (hrows : ∀ row ∈ rows, Field.candidateIn c.pool row.1 = .ok row.2)
    (hstatics : t.shape.draft.statics = rows.map Prod.fst) :
    List.Forall₂ (fun row held => (held.redirect.owner = t.owner ∧
        held.redirect.name = row.2.name ∧ held.redirect.descriptor = row.2.descriptor) ∧
        held.declared.owner = held.redirect.holder ∧
        Records t.shape.shaped.pool row held.declared) rows t.held := by
  obtain ⟨hgrowth, -⟩ := reshape_ok hp t.reshaped
  have hmade := state_mapM_forall₂ t.holding
  rw [hstatics, List.forall₂_map_left_iff] at hmade
  refine (forall₂_with_mem hmade).imp ?_
  rintro row held ⟨hrow, -, u, u', hstep⟩
  obtain ⟨hheld, -⟩ := holdStatic_made hstep
  obtain ⟨annotations, hvisible, hdeclared⟩ := hheld.declared
  obtain ⟨hname, hdescriptor⟩ := hheld.named hgrowth (hrows row hrow)
  have howner : held.redirect.owner = t.owner := by rw [hheld.owner, t.fixed]
  refine ⟨⟨howner, hname, hdescriptor⟩, ?_, ?_⟩
  · rw [hdeclared]
  · rw [hdeclared]
    exact ⟨Prod.ext hname hdescriptor, hvisible⟩

/-- The fields of the written class stand for the entries, and for the storage field if it was
added. -/
theorem standsFor_written (t : Ran source old c r o r') (h : t.shape.Remembers t.setting old c) :
    List.Forall₂ (StandsFor source t.owner r.context.config.storageName c t.written.pool)
      t.written.fields (declaredEntries old.fields r.context.config t.shape.appendsStorage) := by
  obtain ⟨hmore, hwritten⟩ := Prologue.instrument_keeps t.instrumented
  have hfields := h.fields
  rw [t.fixed] at hfields
  rw [hwritten]
  exact hfields.imp fun f e hf => lasting_standsFor _ _ _ _ _ _ f e hf hmore

/-- No two records are for the same name and descriptor. -/
theorem nodup_records (t : Ran source old c r o r') (hp : c.pool.Addressable)
    {rows : List (Field × Candidate)} {storageName : String}
    (hrows : ∀ row ∈ rows, Field.candidateIn c.pool row.1 = .ok row.2)
    (hnodup : (rows.map (·.2.identity)).Nodup)
    (hmatched : List.Forall₂
      (fun row e => e.owner = t.owner ∧ Records t.shape.shaped.pool row e)
      (rows.filter fun row => old.hasMatch storageName row.2) t.shape.draft.declared)
    (hstatics : t.shape.draft.statics = (rows.filter fun row =>
      !old.hasMatch storageName row.2 && row.2.access.isStatic).map Prod.fst) :
    ((t.shape.draft.declared ++ t.held.map Held.declared).map fun e =>
      (e.name, e.descriptor)).Nodup := by
  have hheld := t.records_held hp (fun row hrow => hrows row (List.mem_filter.mp hrow).1) hstatics
  have hparts := (partition_perm (fun row : Field × Candidate => old.hasMatch storageName row.2)
    (fun row => row.2.access.isStatic) rows).map (·.2.identity)
  have hfirst : (rows.filter fun row => old.hasMatch storageName row.2).map (·.2.identity) =
      t.shape.draft.declared.map fun e => (e.name, e.descriptor) :=
    map_eq_of_forall₂ (hmatched.imp fun _ _ h => h.2.1.symm)
  have hlast : (rows.filter fun row => !old.hasMatch storageName row.2 &&
      row.2.access.isStatic).map (·.2.identity) =
        (t.held.map Held.declared).map fun e => (e.name, e.descriptor) := by
    rw [List.map_map]
    exact map_eq_of_forall₂ (hheld.imp fun _ _ h => h.2.2.1.symm)
  rw [List.map_append, ← hfirst, ← hlast, ← List.map_append]
  refine (hparts.nodup_iff.mpr hnodup).sublist (List.Sublist.map _ ?_)
  exact (List.sublist_append_right _ _).append_left _

/-- What the definition declares for a matched field is recorded for it, and what it declares for an
added static field is recorded under the holder. -/
theorem recordedAs (t : Ran source old c r o r') (hp : c.pool.Addressable)
    (h : t.shape.Remembers t.setting old c) {f : Field} (hf : f ∈ c.fields) {x : Candidate}
    (hx : Field.candidateIn c.pool f = .ok x) (hname : x.name ≠ r.context.config.storageName) :
    (old.hasMatch r.context.config.storageName x = true →
      RecordedAs r'.reflection t.owner x c.pool t.written.pool f) ∧
    (old.hasMatch r.context.config.storageName x = false → x.access.isStatic = true →
      ∃ redirect ∈ o.redirected, redirect.owner = t.owner ∧ redirect.name = x.name ∧
        redirect.descriptor = x.descriptor ∧
        RecordedAs r'.reflection redirect.holder x c.pool t.written.pool f) := by
  obtain ⟨rows, hmem, hrows, hnodup, hmatched, hstatics⟩ := h.rows
  have hsetting : t.setting.config = r.context.config := by rw [t.fixed]
  have howner : t.setting.owner = t.owner := by rw [t.fixed]
  rw [hsetting] at hmem hmatched hstatics
  rw [howner] at hmatched
  have hrow := hmem f hf x hx hname
  have hheld := t.records_held hp (fun row hrow => hrows row (List.mem_filter.mp hrow).1) hstatics
  obtain ⟨hmore, -⟩ := Prologue.instrument_keeps t.instrumented
  obtain ⟨hgrowth, -⟩ := t.declares_written hp
  obtain ⟨-, hreflection, -⟩ := conclude_ok t.concluded
  have hkeys := t.nodup_records hp hrows hnodup hmatched hstatics
  constructor
  · intro hhas
    obtain ⟨e, he, howner, hrecords⟩ :=
      exists_right_of_forall₂ hmatched (List.mem_filter.mpr ⟨hrow, hhas⟩)
    rw [hreflection, ← howner]
    exact (hrecords.grown hmore).recordedAs hgrowth _ hkeys (List.mem_append_left _ he)
  · intro hno hstatic
    obtain ⟨held, hmem, ⟨howner, hheldName, hheldDescriptor⟩, hholder, hrecords⟩ :=
      exists_right_of_forall₂ hheld (List.mem_filter.mpr ⟨hrow, by simp [hno, hstatic]⟩)
    refine ⟨held.redirect, ?_, howner, hheldName, hheldDescriptor, ?_⟩
    · rw [t.redirected]
      exact List.mem_map_of_mem hmem
    · rw [hreflection, ← hholder]
      refine (hrecords.grown hmore).recordedAs hgrowth _ hkeys (List.mem_append_right _ ?_)
      exact List.mem_map_of_mem hmem

end Ran

/-- **Annotations survive.**  Take a class that was read, whose pool has the name of annotation
attributes once at most and whose fields have one such attribute at most.  In the class that a pass
writes out, the field of each entry that the old class declares carries what the source says of it,
the storage field apart: the same annotations where there are some, and none where there are none.
(If the new definition has a field that takes the place of one without annotations, all attributes
of that field must have names that can be read, since otherwise nothing can be read behind them.)
What the new definition itself declares for a matched field is recorded, and for an added static
field it is recorded under the holder. -/
theorem loaded_annotations_survive {source : AnnotationSource} {old : Schema} {data : Bytes}
    {c : ClassFile} {r r' : Registries} {o : Outcome} (parsed : ClassFile.parse data = .ok c)
    (once : c.pool.NamedOnce Attribute.visibleAnnotationsName)
    (single : ∀ f ∈ c.fields, f.attributes.countP
      (Attribute.isNamed c.pool Attribute.visibleAnnotationsName) ≤ 1)
    (ran : run source old c r = .ok o r') :
    ∃ owner w appends, c.name = .ok owner ∧ written source r.context old c = .ok w ∧
      w.encode = .ok o.bytes ∧ (w.ShortPayloads → ClassFile.parse o.bytes = .ok w) ∧
      List.Forall₂ (StandsFor source owner r.context.config.storageName c w.pool) w.fields
        (declaredEntries old.fields r.context.config appends) ∧
      ∀ f ∈ c.fields, ∀ x, Field.candidateIn c.pool f = .ok x →
        x.name ≠ r.context.config.storageName →
        (old.hasMatch r.context.config.storageName x = true →
          RecordedAs r'.reflection owner x c.pool w.pool f) ∧
        (old.hasMatch r.context.config.storageName x = false → x.access.isStatic = true →
          ∃ redirect ∈ o.redirected, redirect.owner = owner ∧ redirect.name = x.name ∧
            redirect.descriptor = x.descriptor ∧
            RecordedAs r'.reflection redirect.holder x c.pool w.pool f) := by
  obtain ⟨t⟩ := run_ok ran
  obtain ⟨hpool, hp⟩ := ClassFile.wellFormed_of_parse parsed
  obtain ⟨hgrowth, -⟩ := t.declares_written hp
  have hremembers := reshape_remembers hp once single t.reshaped
  refine ⟨t.owner, t.written, t.shape.appendsStorage, t.named, t.written_eq, t.encoded, ?_,
    t.standsFor_written hremembers, ?_⟩
  · exact fun hshort => ClassFile.parse_of_encode (hgrowth.wellFormed hpool) hshort t.encoded
  · exact fun f hf x hx hname => t.recordedAs hp hremembers hf hx hname

/-! ### A field that has other annotations than it was loaded with -/

/-- The field `x` was loaded with an annotation that holds an array. -/
def marked : List AnnotationUse := [⟨"LMark;", [("v", .array [.int 7, .text "a"])]⟩]

def markedSource : AnnotationSource := fun _ name _ =>
  .ok (if name = "x" then some marked else none)

/-- This version has another annotation at the loaded field, and adds a static field that has it
too. -/
def otherMarks : ClassFile where
  minorVersion := 0
  majorVersion := 49
  pool := ⟨#[.unused, .utf8 "A", .classRef 1, .utf8 "java/lang/Object", .classRef 3, .utf8 "x",
    .utf8 "I", .utf8 "y", .utf8 "RuntimeVisibleAnnotations", .utf8 "LOther;"]⟩
  access := ⟨0x21⟩
  thisClass := 2
  superClass := 4
  interfaces := []
  fields := [⟨⟨1⟩, 5, 6, [⟨8, [0, 1, 0, 9, 0, 0]⟩]⟩, ⟨⟨9⟩, 7, 6, [⟨8, [0, 1, 0, 9, 0, 0]⟩]⟩]
  methods := []
  attributes := []

/-- The loaded field keeps its annotation, and the other one is recorded for both fields. -/
theorem loaded_annotations_survive_otherMarks :
    ∃ (o : Outcome) (r : Registries) (w : ClassFile),
      run markedSource loaded otherMarks (.start {} "app") = .ok o r ∧ w.encode = .ok o.bytes ∧
      (∃ f ∈ w.fields, f.identityIn w.pool = .ok ("x", "I") ∧
        AnnotationUse.visible? w.pool f.attributes = .ok (some marked)) ∧
      RecordedAs r.reflection "A" ⟨"x", "I", ⟨1⟩⟩ otherMarks.pool w.pool
        ⟨⟨1⟩, 5, 6, [⟨8, [0, 1, 0, 9, 0, 0]⟩]⟩ ∧
      ∃ redirect ∈ o.redirected, RecordedAs r.reflection redirect.holder ⟨"y", "I", ⟨9⟩⟩
        otherMarks.pool w.pool ⟨⟨9⟩, 7, 6, [⟨8, [0, 1, 0, 9, 0, 0]⟩]⟩ := by
  have parsed : ClassFile.parse (stored otherMarks) = .ok otherMarks := by decide +kernel
  have once : otherMarks.pool.NamedOnce Attribute.visibleAnnotationsName := by decide
  have single : ∀ f ∈ otherMarks.fields, f.attributes.countP
      (Attribute.isNamed otherMarks.pool Attribute.visibleAnnotationsName) ≤ 1 := by
    decide
  have runs : (succeeded (run markedSource loaded otherMarks (.start {} "app"))).isSome = true := by
    decide +kernel
  obtain ⟨⟨o, r⟩, ran⟩ := Option.isSome_iff_exists.mp runs
  have hran := eq_ok_of_succeeded ran
  obtain ⟨owner, w, appends, hname, -, hencoded, -, hfields, hrecords⟩ :=
    loaded_annotations_survive parsed once single hran
  have howner : owner = "A" := Except.ok.inj (hname.symm.trans (by decide))
  subst howner
  refine ⟨o, r, w, hran, hencoded, ?_, ?_, ?_⟩
  · have hentry : ⟨"x", "I", ⟨1⟩, .normal⟩ ∈ declaredEntries loaded.fields {} appends :=
      List.mem_append_left _ (by decide +kernel)
    obtain ⟨f, hf, hdeclares, hcarries⟩ := exists_left_of_forall₂ hfields hentry
    obtain ⟨answer, hanswer, hvisible⟩ := hcarries fun _ => by decide
    cases hanswer
    exact ⟨f, hf, hdeclares.1, hvisible nofun⟩
  · exact (hrecords _ List.mem_cons_self ⟨"x", "I", ⟨1⟩⟩ (by decide) (by decide)).1
      (by decide +kernel)
  · obtain ⟨redirect, hmem, -, -, -, hrecorded⟩ :=
      (hrecords _ (List.mem_cons_of_mem _ List.mem_cons_self) ⟨"y", "I", ⟨9⟩⟩ (by decide)
        (by decide)).2 (by decide +kernel) (by decide)
    exact ⟨redirect, hmem, hrecorded⟩

/-! ### An attribute without a name

Behind the annotations of the loaded field stands an attribute whose name index denotes nothing. The
annotations are taken away, and then nothing can be found among the attributes any more. -/

def unnamedAttribute : ClassFile where
  minorVersion := 0
  majorVersion := 49
  pool := ⟨#[.unused, .utf8 "A", .classRef 1, .utf8 "java/lang/Object", .classRef 3, .utf8 "x",
    .utf8 "I", .utf8 "RuntimeVisibleAnnotations"]⟩
  access := ⟨0x21⟩
  thisClass := 2
  superClass := 4
  interfaces := []
  fields := [⟨⟨1⟩, 5, 6, [⟨7, [0, 0]⟩, ⟨0, []⟩]⟩]
  methods := []
  attributes := []

/-- The field was loaded without annotations, and afterwards its annotations cannot be read. -/
theorem annotations_unreadable_after_removal :
    ∃ (o : Outcome) (r : Registries) (w : ClassFile),
      ClassFile.parse (stored unnamedAttribute) = .ok unnamedAttribute ∧
      unnamedAttribute.pool.NamedOnce Attribute.visibleAnnotationsName ∧
      (∀ f ∈ unnamedAttribute.fields, f.attributes.countP
        (Attribute.isNamed unnamedAttribute.pool Attribute.visibleAnnotationsName) ≤ 1) ∧
      ⟨"x", "I", ⟨1⟩, .normal⟩ ∈ loaded.fields ∧ noAnnotations "A" "x" "I" = .ok none ∧
      run noAnnotations loaded unnamedAttribute (.start {} "app") = .ok o r ∧
      ClassFile.parse o.bytes = .ok w ∧
      ∃ f ∈ w.fields, f.identityIn w.pool = .ok ("x", "I") ∧
        AnnotationUse.visible? w.pool f.attributes ≠ .ok none := by
  have parsed : ClassFile.parse (stored unnamedAttribute) = .ok unnamedAttribute := by
    decide +kernel
  have once : unnamedAttribute.pool.NamedOnce Attribute.visibleAnnotationsName := by decide
  have single : ∀ f ∈ unnamedAttribute.fields, f.attributes.countP
      (Attribute.isNamed unnamedAttribute.pool Attribute.visibleAnnotationsName) ≤ 1 := by
    decide
  have runs : ((succeeded (run noAnnotations loaded unnamedAttribute (.start {} "app"))).any
      fun (o, _) => (ClassFile.parse o.bytes).toOption.any fun w => w.fields.any fun f =>
        (f.identityIn w.pool).toOption == some ("x", "I") &&
          (AnnotationUse.visible? w.pool f.attributes).toOption.isNone) = true := by
    decide +kernel
  obtain ⟨⟨o, r⟩, ran, h⟩ := (Option.any_eq_true _ _).mp runs
  obtain ⟨w, hw, h⟩ := (Option.any_eq_true _ _).mp h
  obtain ⟨f, hf, h⟩ := List.any_eq_true.mp h
  rw [Bool.and_eq_true, beq_iff_eq] at h
  obtain ⟨hidentity, hvisible⟩ := h
  refine ⟨o, r, w, parsed, once, single, by decide +kernel, rfl, eq_ok_of_succeeded ran,
    eq_ok_of_toOption hw, f, hf, eq_ok_of_toOption hidentity, ?_⟩
  intro hnone
  rw [hnone] at hvisible
  cases hvisible

end Pass

end Reshape
