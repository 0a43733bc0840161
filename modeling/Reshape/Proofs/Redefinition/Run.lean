import Reshape.Proofs.Redefinition.Prologue
import Reshape.Proofs.Redefinition.Shape

/-!
# What a successful pass has done

A pass goes through a fixed row of steps, and it succeeds only if each of them does.  `Ran` lists
the results of the steps, so that a statement about a pass never has to open the pass itself.
-/

namespace Reshape.Pass

theorem ofExcept_eq_ok {α : Type} {x : Except RedefineError α} {a : α} {r r' : Registries} :
    ofExcept x r = .ok a r' ↔ x = .ok a ∧ r = r' :=
  state_lift_eq_ok ofExcept (fun _ => rfl) (fun _ => rfl)

theorem ofBuild_eq_ok {α : Type} {x : Except BuildError α} {a : α} {r r' : Registries} :
    ofBuild x r = .ok a r' ↔ x = .ok a ∧ r = r' := by
  rw [ofBuild, ofExcept_eq_ok, mapError_eq_ok]

/-- The steps of a pass that starts in `r` and ends with the outcome `o` in `r'`. -/
structure Ran (source : AnnotationSource) (old : Schema) (c : ClassFile) (r : Registries)
    (o : Outcome) (r' : Registries) where
  owner : String
  named : c.name = .ok owner
  setting : Setting
  fixed : setting = ⟨owner, r.context.loader, r.context.config, source⟩
  shape : Reshaped
  reshaped : reshape setting old c = .ok shape
  proxied : List (SchemaField × Pending)
  afterProxies : Registries
  generated : ((shape.added.zip shape.draft.instances).mapM fun (record, f) =>
    generateAccessor setting shape.shaped shape.layout record f) r = .ok proxied afterProxies
  held : List Held
  afterHolders : Registries
  holding : shape.draft.statics.mapM (holdStatic setting shape.shaped) afterProxies =
    .ok held afterHolders
  /-- The class that is stored. -/
  written : ClassFile
  instrumented :
    Prologue.instrument r.context.config shape.added shape.shaped = .ok (written, o.instrumented)
  encoded : written.encode = .ok o.bytes
  concluded : conclude (proxied.map Prod.snd ++ held.filterMap Held.pending)
    (shape.draft.declared ++ held.map Held.declared)
    ⟨shape.added, held.map Held.redirect, removals setting shape.draft.seats⟩ afterHolders =
      .ok () r'
  added : o.added = shape.added
  redirected : o.redirected = held.map Held.redirect
  removed : o.removed = removals setting shape.draft.seats
  schema : o.schema = ⟨owner, keptFields r.context.config.storageName shape.draft.seats ++
    (if shape.appendsStorage then [storageEntry r.context.config] else []) ++
    proxied.map Prod.fst ++ held.map Held.entry⟩

theorem run_ok {source : AnnotationSource} {old : Schema} {c : ClassFile} {r r' : Registries}
    {o : Outcome} (h : run source old c r = .ok o r') : Nonempty (Ran source old c r o r') := by
  obtain ⟨r₁, r₂, hget, h⟩ := state_bind_eq_ok.mp h
  obtain ⟨rfl, rfl⟩ := state_get_eq_ok.mp hget
  obtain ⟨owner, r₁, howner, h⟩ := state_bind_eq_ok.mp h
  obtain ⟨hnamed, rfl⟩ := ofExcept_eq_ok.mp howner
  obtain ⟨shape, r₁, hshape, h⟩ := state_bind_eq_ok.mp h
  obtain ⟨hreshaped, rfl⟩ := ofExcept_eq_ok.mp hshape
  obtain ⟨proxied, r₁, hproxied, h⟩ := state_bind_eq_ok.mp h
  obtain ⟨held, r₂, hheld, h⟩ := state_bind_eq_ok.mp h
  obtain ⟨⟨written, count⟩, r₃, hinstrument, h⟩ := state_bind_eq_ok.mp h
  obtain ⟨hinstrumented, rfl⟩ := ofExcept_eq_ok.mp hinstrument
  obtain ⟨bytes, r₃, hencode, h⟩ := state_bind_eq_ok.mp h
  obtain ⟨hencoded, rfl⟩ := ofBuild_eq_ok.mp hencode
  obtain ⟨u, r₃, hconclude, h⟩ := state_bind_eq_ok.mp h
  obtain ⟨rfl, rfl⟩ := state_pure_eq_ok.mp h
  exact ⟨{
    owner, shape, proxied, held, written
    named := mapError_eq_ok.mp hnamed
    setting := _
    fixed := rfl
    reshaped := hreshaped
    afterProxies := r₁
    generated := hproxied
    afterHolders := r₂
    holding := hheld
    instrumented := hinstrumented
    encoded := hencoded
    concluded := hconclude
    added := rfl
    redirected := rfl
    removed := rfl
    schema := rfl }⟩

/-! ## §1 Entries of generated classes -/

/-- The accessor class of an added instance field is generated under the next name of the store. -/
theorem generateAccessor_steps {s : Setting} {c : ClassFile} {layout : StorageLayout}
    {record : AddedField} {f : Field} {x : SchemaField × Pending} {r r' : Registries}
    (h : generateAccessor s c layout record f r = .ok x r') :
    ∃ proxy generated bytes, proxy = (r.store.nextName s.config.accessorStem).1 ∧
      Generated.accessor c.majorVersion proxy c.pool f = .ok generated ∧
      generated.encode = .ok bytes ∧
      x = (⟨record.name, record.descriptor, f.access, .fake proxy⟩,
        .accessor ⟨s.owner, proxy, ⟨record.ordinal, layout⟩⟩ bytes) ∧
      r' = { r with store := (r.store.nextName s.config.accessorStem).2 } := by
  obtain ⟨proxy, r₁, hproxy, h⟩ := state_bind_eq_ok.mp h
  obtain ⟨r₂, r₃, hget, hdraw⟩ := state_bind_eq_ok.mp hproxy
  obtain ⟨rfl, rfl⟩ := state_get_eq_ok.mp hget
  obtain ⟨u, r₄, hset, hdraw⟩ := state_bind_eq_ok.mp hdraw
  obtain ⟨rfl, rfl⟩ := state_pure_eq_ok.mp hdraw
  obtain ⟨generated, r₅, hgenerated, h⟩ := state_bind_eq_ok.mp h
  obtain ⟨hclass, rfl⟩ := ofBuild_eq_ok.mp hgenerated
  obtain ⟨bytes, r₆, hbytes, h⟩ := state_bind_eq_ok.mp h
  obtain ⟨hencoded, rfl⟩ := ofBuild_eq_ok.mp hbytes
  obtain ⟨rfl, rfl⟩ := state_pure_eq_ok.mp h
  exact ⟨_, generated, bytes, rfl, hclass, hencoded, rfl, (state_set_eq_ok.mp hset).symm⟩

/-- The entry of an added instance field names its accessor class, which is not registered yet. -/
theorem generateAccessor_ok {s : Setting} {c : ClassFile} {layout : StorageLayout}
    {record : AddedField} {f : Field} {entry : SchemaField} {pending : Pending}
    {r r' : Registries}
    (h : generateAccessor s c layout record f r = .ok (entry, pending) r') :
    (∃ proxy bytes, entry = ⟨record.name, record.descriptor, f.access, .fake proxy⟩ ∧
      pending = .accessor ⟨s.owner, proxy, ⟨record.ordinal, layout⟩⟩ bytes) ∧
      r'.context = r.context := by
  obtain ⟨proxy, generated, bytes, -, -, -, hx, rfl⟩ := generateAccessor_steps h
  cases hx
  exact ⟨⟨proxy, bytes, rfl, rfl⟩, rfl⟩

theorem drawHolderName_ok {owner holder : String} {r r' : Registries}
    (h : drawHolderName owner r = .ok holder r') :
    holder = (r.context.nextHolderName owner).1 ∧
      r' = { r with context := (r.context.nextHolderName owner).2 } := by
  obtain ⟨r₁, r₂, hget, h⟩ := state_bind_eq_ok.mp h
  obtain ⟨rfl, rfl⟩ := state_get_eq_ok.mp hget
  obtain ⟨u, r₃, hset, h⟩ := state_bind_eq_ok.mp h
  obtain ⟨rfl, rfl⟩ := state_pure_eq_ok.mp h
  exact ⟨rfl, (state_set_eq_ok.mp hset).symm⟩

/-- How an added static field is held: by the holder that the context knows for it, or else by a new
one, which is not registered yet. -/
structure Held.Made (context : Context) (s : Setting) (pool : Pool) (f : Field) (held : Held) :
    Prop where
  identity : f.identityIn pool = .ok (held.redirect.name, held.redirect.descriptor)
  owner : held.redirect.owner = s.owner
  loader : held.redirect.loader = s.loader
  entry : held.entry = ⟨held.redirect.name, held.redirect.descriptor, f.access,
    .fake held.redirect.holder⟩
  declared : ∃ annotations, AnnotationUse.visible? pool f.attributes = .ok annotations ∧
    held.declared = ⟨held.redirect.holder, held.redirect.name, held.redirect.descriptor,
      annotations⟩
  holder : context.holderFor? s.owner held.redirect.name held.redirect.descriptor =
        some held.redirect.holder ∧ held.pending = none ∨
    context.holderFor? s.owner held.redirect.name held.redirect.descriptor = none ∧
      ∃ bytes, held.pending = some (.holder ⟨s.owner, held.redirect.name, held.redirect.descriptor,
        held.redirect.holder⟩ bytes)

/-- A holder that is new is generated under the next name of its owner. -/
structure Held.Generated (s : Setting) (c : ClassFile) (f : Field) (held : Held)
    (r r' : Registries) : Prop where
  named : held.redirect.holder = (r.context.nextHolderName s.owner).1
  generated : ∃ generated bytes,
    Generated.holder c.majorVersion held.redirect.holder c.pool f = .ok generated ∧
      generated.encode = .ok bytes ∧
      held.pending = some (.holder ⟨s.owner, held.redirect.name, held.redirect.descriptor,
        held.redirect.holder⟩ bytes)
  drawn : r' = { r with context := (r.context.nextHolderName s.owner).2 }

theorem holdStatic_steps {s : Setting} {c : ClassFile} {f : Field} {held : Held}
    {r r' : Registries} (h : holdStatic s c f r = .ok held r') :
    held.Made r.context s c.pool f ∧
      (held.pending = none ∧ r' = r ∨ Held.Generated s c f held r r') := by
  obtain ⟨⟨name, descriptor⟩, r₁, hidentity, h⟩ := state_bind_eq_ok.mp h
  obtain ⟨hnamed, rfl⟩ := ofExcept_eq_ok.mp hidentity
  rw [mapError_eq_ok] at hnamed
  obtain ⟨r₂, r₃, hget, h⟩ := state_bind_eq_ok.mp h
  obtain ⟨rfl, rfl⟩ := state_get_eq_ok.mp hget
  dsimp only at h
  cases hholder : r.context.holderFor? s.owner name descriptor with
  | some holder =>
      rw [hholder] at h
      obtain ⟨annotations, r₄, hannotations, h⟩ := state_bind_eq_ok.mp h
      obtain ⟨hvisible, rfl⟩ := ofExcept_eq_ok.mp hannotations
      obtain ⟨rfl, rfl⟩ := state_pure_eq_ok.mp h
      exact ⟨⟨hnamed, rfl, rfl, rfl, ⟨annotations, mapError_eq_ok.mp hvisible, rfl⟩,
        .inl ⟨hholder, rfl⟩⟩, .inl ⟨rfl, rfl⟩⟩
  | none =>
      rw [hholder] at h
      obtain ⟨holder, r₄, hdraw, h⟩ := state_bind_eq_ok.mp h
      obtain ⟨hdrawn, hstate⟩ := drawHolderName_ok hdraw
      obtain ⟨generated, r₅, hgenerated, h⟩ := state_bind_eq_ok.mp h
      obtain ⟨hclass, rfl⟩ := ofBuild_eq_ok.mp hgenerated
      obtain ⟨bytes, r₆, hbytes, h⟩ := state_bind_eq_ok.mp h
      obtain ⟨hencoded, rfl⟩ := ofBuild_eq_ok.mp hbytes
      obtain ⟨annotations, r₇, hannotations, h⟩ := state_bind_eq_ok.mp h
      obtain ⟨hvisible, rfl⟩ := ofExcept_eq_ok.mp hannotations
      obtain ⟨rfl, rfl⟩ := state_pure_eq_ok.mp h
      exact ⟨⟨hnamed, rfl, rfl, rfl, ⟨annotations, mapError_eq_ok.mp hvisible, rfl⟩,
        .inr ⟨hholder, bytes, rfl⟩⟩,
        .inr ⟨hdrawn, ⟨generated, bytes, hclass, hencoded, rfl⟩, hstate⟩⟩

theorem holdStatic_made {s : Setting} {c : ClassFile} {f : Field} {held : Held}
    {r r' : Registries} (h : holdStatic s c f r = .ok held r') :
    held.Made r.context s c.pool f ∧ r'.context.accessors = r.context.accessors := by
  obtain ⟨hmade, ⟨-, rfl⟩ | hgenerated⟩ := holdStatic_steps h
  · exact ⟨hmade, rfl⟩
  · exact ⟨hmade, by rw [hgenerated.drawn]; rfl⟩

/-! ## §2 The end of a pass -/

/-- Concluding commits what is pending, records the annotations and passes the requests on. -/
theorem conclude_ok {pending : List Pending} {declared : List FieldAnnotations}
    {requests : Requests} {r r' : Registries}
    (h : conclude pending declared requests r = .ok () r') :
    r.context.commit r.store pending = .ok (r'.store, r'.context) ∧
      r'.reflection = declared.foldl (fun r e => r.record e) r.reflection ∧
      r'.requests = r.requests ++ requests := by
  obtain ⟨r₁, r₂, hget, h⟩ := state_bind_eq_ok.mp h
  obtain ⟨rfl, rfl⟩ := state_get_eq_ok.mp hget
  cases hcommit : r.context.commit r.store pending with
  | error clash =>
      rw [hcommit] at h
      exact (state_throw_eq_ok.mp h).elim
  | ok committed =>
      obtain ⟨store, context⟩ := committed
      rw [hcommit] at h
      rw [← state_set_eq_ok.mp h]
      exact ⟨rfl, rfl, rfl⟩

/-- Concluding fails with a clash, and then it has done nothing. -/
theorem conclude_error {pending : List Pending} {declared : List FieldAnnotations}
    {requests : Requests} {r r' : Registries} {e : PassFailure}
    (h : conclude pending declared requests r = .error e r') :
    r' = r ∧ ∃ clash, e = .clash clash ∧ r.context.commit r.store pending = .error clash := by
  rcases state_bind_eq_error.mp h with h | ⟨r₁, r₂, hget, h⟩
  · cases h
  · obtain ⟨rfl, rfl⟩ := state_get_eq_ok.mp hget
    cases hcommit : r.context.commit r.store pending with
    | error clash =>
        rw [hcommit] at h
        cases h
        exact ⟨rfl, clash, rfl, rfl⟩
    | ok committed =>
        rw [hcommit] at h
        cases h

/-- While classes are generated, no accessor is registered. -/
theorem Ran.accessors_afterHolders {source : AnnotationSource} {old : Schema} {c : ClassFile}
    {r r' : Registries} {o : Outcome} (t : Ran source old c r o r') :
    t.afterHolders.context.accessors = r.context.accessors := by
  have hproxies : t.afterProxies.context.accessors = r.context.accessors := by
    refine state_mapM_invariant (fun s => s.context.accessors = r.context.accessors) ?_ rfl
      t.generated
    rintro ⟨record, f⟩ - s ⟨entry, pending⟩ s' hs hstep
    obtain ⟨-, hcontext⟩ := generateAccessor_ok hstep
    rw [hcontext, hs]
  refine state_mapM_invariant (fun s => s.context.accessors = r.context.accessors) ?_ hproxies
    t.holding
  intro f _ s held s' hs hstep
  rw [(holdStatic_made hstep).2, hs]

end Reshape.Pass
