import Reshape.Proofs.Redefinition.Run

/-!
# Names of generated classes

The entries of added fields name the generated classes that back them.  A pass passes over such
entries, and the names it draws itself go nowhere but into its redirects and its schema.  So a
pass makes of a class the same in whatever registries it runs, as far as it can be seen without
these names.
-/

namespace Reshape

/-! ## §1 Without the names -/

/-- The entry without the name of its generated class. -/
def SchemaField.unnamed (f : SchemaField) : SchemaField :=
  { f with kind := match f.kind with
    | .normal => .normal
    | .removed => .removed
    | .fake _ => .fake "" }

def Schema.unnamed (s : Schema) : Schema := { s with fields := s.fields.map SchemaField.unnamed }

def StaticRedirect.unnamed (x : StaticRedirect) : StaticRedirect := { x with holder := "" }

namespace SchemaField

variable (f : SchemaField)

@[simp] theorem name_unnamed : f.unnamed.name = f.name := rfl

@[simp] theorem isNormal_unnamed : f.unnamed.isNormal = f.isNormal := by
  obtain ⟨name, descriptor, access, kind⟩ := f
  cases kind <;> rfl

@[simp] theorem isFake_unnamed : f.unnamed.isFake = f.isFake := by
  obtain ⟨name, descriptor, access, kind⟩ := f
  cases kind <;> rfl

@[simp] theorem isNamed_unnamed (name descriptor : String) :
    f.unnamed.isNamed name descriptor = f.isNamed name descriptor := rfl

@[simp] theorem toRemoved_unnamed : f.unnamed.toRemoved = f.toRemoved := rfl

@[simp] theorem unnamed_toRemoved : f.toRemoved.unnamed = f.toRemoved := rfl

end SchemaField

namespace Pass

theorem Held.Made.redirect_unnamed {context : Context} {s : Setting} {pool : Pool} {f : Field}
    {held : Held} (h : held.Made context s pool f) : held.redirect.unnamed =
      ⟨s.owner, "", held.redirect.name, held.redirect.descriptor, s.loader⟩ := by
  rw [StaticRedirect.unnamed, h.owner, h.loader]

def Seat.unnamed (seat : Seat) : Seat := { seat with entry := seat.entry.unnamed }

def Draft.unnamed (d : Draft) : Draft := { d with seats := d.seats.map Seat.unnamed }

def Reshaped.unnamed (r : Reshaped) : Reshaped := { r with draft := r.draft.unnamed }

@[simp] theorem Seat.entry_unnamed (seat : Seat) : seat.unnamed.entry = seat.entry.unnamed := rfl

@[simp] theorem Seat.isOpen_unnamed (storageName : String) (seat : Seat) :
    seat.unnamed.isOpen storageName = seat.isOpen storageName := by
  simp only [Seat.isOpen, Seat.entry_unnamed, SchemaField.isNormal_unnamed,
    SchemaField.name_unnamed]
  rfl

/-! ## §2 The new shape -/

theorem seatFor?_unnamed (s : Setting) (className : String) (seats : List Seat)
    (name descriptor : String) (access : FieldAccess) :
    seatFor? s className (seats.map Seat.unnamed) name descriptor access =
      seatFor? s className seats name descriptor access := by
  have hfitting : (fun seat : Seat =>
      seat.isOpen s.config.storageName && seat.entry.isNamed name descriptor) ∘ Seat.unnamed =
        fun seat => seat.isOpen s.config.storageName && seat.entry.isNamed name descriptor := by
    funext seat
    simp
  unfold seatFor?
  simp only [List.findIdx?_map, List.find?_map, hfitting]
  cases seats.findIdx? _ with
  | none => simp
  | some index =>
      cases seats.find? _ with
      | none => rfl
      | some seat => rfl

theorem modify_unnamed (change : Seat → Seat)
    (h : ∀ seat, change seat.unnamed = (change seat).unnamed) (seats : List Seat) (index : Nat) :
    (seats.map Seat.unnamed).modify index change =
      (seats.modify index change).map Seat.unnamed := by
  refine List.ext_getElem? fun k => ?_
  simp only [List.getElem?_map, List.getElem?_modify]
  cases seats[k]? with
  | none => rfl
  | some seat => by_cases hk : index = k <;> simp [hk, h]

theorem place_unnamed (s : Setting) (className : String) (d : Draft) (f : Field) :
    place s className d.unnamed f = (place s className d f).map Draft.unnamed := by
  unfold place
  show (f.identityIn d.pool).mapError RedefineError.format >>= _ = _
  cases (f.identityIn d.pool).mapError RedefineError.format with
  | error e => rfl
  | ok identity =>
      obtain ⟨name, descriptor⟩ := identity
      by_cases hstorage : name = s.config.storageName
      · simp only [bind, Except.bind, if_pos hstorage]
        rfl
      simp only [bind, Except.bind, if_neg hstorage]
      rw [Draft.unnamed, seatFor?_unnamed]
      cases seatFor? s className d.seats name descriptor f.access with
      | error e => rfl
      | ok index =>
        cases index with
        | none =>
            dsimp only
            split <;> rfl
        | some index =>
            dsimp only
            cases (AnnotationUse.visible? d.pool f.attributes).mapError RedefineError.format with
            | error e => rfl
            | ok annotations =>
              dsimp only
              cases withLoadedAnnotations s name descriptor f d.pool with
              | error e => rfl
              | ok made =>
                refine congrArg Except.ok ?_
                simp only [Draft.unnamed, Draft.mk.injEq, true_and, and_true]
                refine modify_unnamed _ ?_ _ _
                exact fun _ => rfl

theorem placeAll_unnamed (s : Setting) (old : Schema) (c : ClassFile) :
    placeAll s old.unnamed c = (placeAll s old c).map Draft.unnamed := by
  unfold placeAll
  cases (c.fields.mapM (Member.identityIn c.pool)).mapError RedefineError.format with
  | error e => rfl
  | ok identities =>
      simp only [bind, Except.bind]
      cases firstRepeated [] identities with
      | some repeated => rfl
      | none =>
          have hstart : (⟨c.pool, old.unnamed.fields.map (⟨·, none⟩), [], [], []⟩ : Draft) =
              Draft.unnamed ⟨c.pool, old.fields.map (⟨·, none⟩), [], [], []⟩ := by
            simp [Draft.unnamed, Schema.unnamed, Seat.unnamed]
          exact hstart ▸ except_foldlM_map (place_unnamed s old.className) c.fields _

/-- Filling seats does not look at the names if what goes into them does not. -/
theorem fill_unnamed {occupantOf? : Seat → Option (Pool → Except RedefineError (Field × Pool))}
    (h : ∀ seat, occupantOf? seat.unnamed = occupantOf? seat) (pool : Pool) (seats : List Seat) :
    fill occupantOf? pool (seats.map Seat.unnamed) =
      (fill occupantOf? pool seats).map (Prod.map (List.map Seat.unnamed) id) := by
  unfold fill
  rw [List.foldlM_map]
  refine except_foldlM_map (g := Prod.map (List.map Seat.unnamed) id) ?_ seats ([], pool)
  rintro ⟨done, pool⟩ seat
  unfold fill.step
  dsimp only [Prod.map, id]
  rw [h]
  cases occupantOf? seat with
  | none => simp [pure, Except.pure, Except.map]
  | some make =>
      dsimp only
      cases make pool with
      | error e => rfl
      | ok made => simp [bind, Except.bind, pure, Except.pure, Except.map, Seat.unnamed]

theorem fillShells_unnamed (s : Setting) (pool : Pool) (seats : List Seat) :
    fillShells s pool (seats.map Seat.unnamed) =
      (fillShells s pool seats).map (Prod.map (List.map Seat.unnamed) id) := by
  unfold fillShells
  rw [fill_unnamed]
  · refine except_bind_map fun (seats, pool) => fill_unnamed ?_ pool seats
    rintro ⟨⟨name, descriptor, access, kind⟩, occupant⟩
    cases kind <;> rfl
  · intro seat
    rw [Seat.isOpen_unnamed]
    rfl

/-- **The new shape** of a class does not depend on the names. -/
theorem reshape_unnamed (s : Setting) (old : Schema) (c : ClassFile) :
    reshape s old.unnamed c = (reshape s old c).map Reshaped.unnamed := by
  unfold reshape
  rw [placeAll_unnamed]
  refine except_bind_map fun d => ?_
  have hpool : d.unnamed.pool = d.pool := rfl
  have hseats : d.unnamed.seats = d.seats.map Seat.unnamed := rfl
  have hinstances : d.unnamed.instances = d.instances := rfl
  rw [hpool, hseats, hinstances, fillShells_unnamed]
  refine except_bind_map fun (seats, pool) => ?_
  dsimp only [Prod.map, id]
  have hoccupants : (seats.map Seat.unnamed).filterMap Seat.occupant =
      seats.filterMap Seat.occupant := by
    rw [List.filterMap_map]
    rfl
  have hstorage : (old.unnamed.fields.any fun f => f.isNormal && f.name == s.config.storageName) =
      old.fields.any fun f => f.isNormal && f.name == s.config.storageName := by
    simp [Schema.unnamed, List.any_map, Function.comp_def]
  rw [hoccupants, hstorage]
  exact except_bind_same fun shaped => except_bind_same fun added => except_bind_same fun layout =>
    rfl

/-! ## §3 The outcome -/

theorem keptFields_unnamed (storageName : String) (seats : List Seat) :
    keptFields storageName (seats.map Seat.unnamed) =
      (keptFields storageName seats).map SchemaField.unnamed := by
  unfold keptFields
  rw [List.filterMap_map, List.map_filterMap]
  refine List.filterMap_congr fun seat _ => ?_
  simp only [Function.comp_apply, Seat.isOpen_unnamed, Seat.entry_unnamed,
    SchemaField.isFake_unnamed, SchemaField.toRemoved_unnamed]
  by_cases hfake : seat.entry.isFake = true
  · simp [hfake]
  · by_cases hopen : seat.isOpen storageName = true <;> simp [hfake, hopen]

theorem removals_unnamed (s : Setting) (seats : List Seat) :
    removals s (seats.map Seat.unnamed) = removals s seats := by
  unfold removals
  rw [List.filter_map, List.map_map]
  have hopen : (Seat.isOpen s.config.storageName ∘ Seat.unnamed) =
      Seat.isOpen s.config.storageName := by
    funext seat
    exact Seat.isOpen_unnamed s.config.storageName seat
  rw [hopen]
  rfl

end Pass

/-- The outcomes are the same but for the names of generated classes. -/
structure Outcome.Alike (o o' : Outcome) : Prop where
  bytes : o.bytes = o'.bytes
  added : o.added = o'.added
  removed : o.removed = o'.removed
  instrumented : o.instrumented = o'.instrumented
  redirected : o.redirected.map StaticRedirect.unnamed = o'.redirected.map StaticRedirect.unnamed
  schema : o.schema.unnamed = o'.schema.unnamed

namespace Pass.Ran

variable {source : AnnotationSource} {old old' : Schema} {c : ClassFile}
  {r r' r₁ r₁' : Registries} {o o' : Outcome} (t : Ran source old c r o r₁)
  (t' : Ran source old' c r' o' r₁')
include t t'

theorem reshaped_alike (hloader : r.context.loader = r'.context.loader)
    (hconfig : r.context.config = r'.context.config) (hold : old.unnamed = old'.unnamed) :
    t.owner = t'.owner ∧ t.setting = t'.setting ∧ t.shape.unnamed = t'.shape.unnamed := by
  have howner : t.owner = t'.owner := Except.ok.inj (t.named.symm.trans t'.named)
  have hsetting : t.setting = t'.setting := by
    rw [t.fixed, t'.fixed, howner, hloader, hconfig]
  refine ⟨howner, hsetting, ?_⟩
  have hshape := reshape_unnamed t.setting old c
  have hshape' := reshape_unnamed t'.setting old' c
  rw [t.reshaped] at hshape
  rw [t'.reshaped, ← hsetting, ← hold, hshape] at hshape'
  exact Except.ok.inj hshape'

/-- The entry of an accessor class comes from its record and its field. -/
theorem proxied_alike (hadded : t.shape.added = t'.shape.added)
    (hinstances : t.shape.draft.instances = t'.shape.draft.instances) :
    (t.proxied.map Prod.fst).map SchemaField.unnamed =
      (t'.proxied.map Prod.fst).map SchemaField.unnamed := by
  have hmade' := state_mapM_forall₂ t'.generated
  rw [← hadded, ← hinstances] at hmade'
  rw [List.map_map, List.map_map]
  refine map_eq_map_of_forall₂ (state_mapM_forall₂ t.generated) hmade' ?_
  rintro ⟨record, f⟩ ⟨entry, pending⟩ ⟨entry', pending'⟩ ⟨s, s', h⟩ ⟨u, u', h'⟩
  obtain ⟨⟨proxy, bytes, rfl, -⟩, -⟩ := generateAccessor_ok h
  obtain ⟨⟨proxy', bytes', rfl, -⟩, -⟩ := generateAccessor_ok h'
  rfl

/-- The redirect and the entry of an added static field come from the field. -/
theorem held_alike (hsetting : t.setting = t'.setting) (hshaped : t.shape.shaped = t'.shape.shaped)
    (hstatics : t.shape.draft.statics = t'.shape.draft.statics) :
    t.held.map (fun held => (held.redirect.unnamed, held.entry.unnamed)) =
      t'.held.map fun held => (held.redirect.unnamed, held.entry.unnamed) := by
  have hmade' := state_mapM_forall₂ t'.holding
  rw [← hstatics, ← hsetting, ← hshaped] at hmade'
  refine map_eq_map_of_forall₂ (state_mapM_forall₂ t.holding) hmade' ?_
  rintro f held held' ⟨s, s', h⟩ ⟨u, u', h'⟩
  obtain ⟨hmade, -⟩ := holdStatic_made h
  obtain ⟨hmade', -⟩ := holdStatic_made h'
  obtain ⟨hname, hdescriptor⟩ :=
    Prod.mk.inj (Except.ok.inj (hmade.identity.symm.trans hmade'.identity))
  rw [hmade.entry, hmade'.entry, hmade.redirect_unnamed, hmade'.redirect_unnamed, hname, hdescriptor]
  rfl

/-- **What a pass makes of a class.**  Two passes over one class in the same setting, from schemas
that differ in the names of generated classes only, have outcomes that differ in such names
only. -/
theorem alike (hloader : r.context.loader = r'.context.loader)
    (hconfig : r.context.config = r'.context.config) (hold : old.unnamed = old'.unnamed) :
    o.Alike o' := by
  obtain ⟨howner, hsetting, hshape⟩ := t.reshaped_alike t' hloader hconfig hold
  have hshaped : t.shape.shaped = t'.shape.shaped :=
    congrArg (fun shape => shape.shaped) hshape
  have hadded : t.shape.added = t'.shape.added := congrArg (fun shape => shape.added) hshape
  have happends : t.shape.appendsStorage = t'.shape.appendsStorage :=
    congrArg (fun shape => shape.appendsStorage) hshape
  have hseats : t.shape.draft.seats.map Seat.unnamed = t'.shape.draft.seats.map Seat.unnamed :=
    congrArg (fun shape => shape.draft.seats) hshape
  obtain ⟨hwritten, hinstrumented⟩ : t.written = t'.written ∧ o.instrumented = o'.instrumented := by
    have hsame := t.instrumented
    rw [hconfig, hadded, hshaped, t'.instrumented] at hsame
    obtain ⟨hclass, hcount⟩ := Prod.mk.inj (Except.ok.inj hsame)
    exact ⟨hclass.symm, hcount.symm⟩
  have hproxied := t.proxied_alike t' hadded (congrArg (fun shape => shape.draft.instances) hshape)
  have hheld := t.held_alike t' hsetting hshaped
    (congrArg (fun shape => shape.draft.statics) hshape)
  refine ⟨?_, ?_, ?_, hinstrumented, ?_, ?_⟩
  · have hbytes := t.encoded
    rw [hwritten, t'.encoded] at hbytes
    exact (Except.ok.inj hbytes).symm
  · rw [t.added, t'.added, hadded]
  · rw [t.removed, t'.removed, ← removals_unnamed, hseats, removals_unnamed, hsetting]
  · rw [t.redirected, t'.redirected, List.map_map, List.map_map]
    simpa [Function.comp_def] using congrArg (List.map Prod.fst) hheld
  · have hentries : (t.held.map Held.entry).map SchemaField.unnamed =
        (t'.held.map Held.entry).map SchemaField.unnamed := by
      simpa [Function.comp_def] using congrArg (List.map Prod.snd) hheld
    rw [t.schema, t'.schema]
    simp only [Schema.unnamed, List.map_append, ← keptFields_unnamed, hseats, howner, hconfig,
      happends, hproxied, hentries]

end Pass.Ran

end Reshape
