import Reshape.Redefinition.Generated
import Reshape.Redefinition.Prologue
import Reshape.Redefinition.Schema
import Reshape.Registry.Context
import Reshape.Registry.Reflection

/-!
# One redefinition

The host accepts a new definition of a loaded class only if it declares the very fields that
were loaded.  A pass brings a new definition into that shape: fields that match loaded ones take
their places, loaded fields without a match stay as shells, and added fields move to generated
classes, the instance fields among them to the storage of each object.  What the pass generates
takes effect at its very end; a pass that fails has done nothing but draw names.
-/

namespace Reshape

open Access in
/-- The flags of the storage field. -/
def storageAccess : FieldAccess := ⟨accPublic ||| accTransient ||| accSynthetic⟩

/-- Adds the storage field to a class before it is loaded, so that instance fields can be added
later without changing its shape.  Answers whether the field had to be added; an interface is
left alone. -/
def prepare (config : Config) (c : ClassFile) : Except RedefineError (Bool × ClassFile) := do
  if c.access.isInterface then return (false, c)
  match ← (c.findField? config.storageName config.storageDescriptor).mapError .format with
  | some _ => return (false, c)
  | none =>
    match ClassFile.declareField storageAccess config.storageName config.storageDescriptor c with
    | .ok _ c => return (true, c)
    | .error e _ => throw (.ofBuild e)

/-- Everything a pass reads and changes besides the class. -/
structure Registries where
  store : Store
  context : Context
  reflection : Reflection
  requests : Requests

/-- Registries without any content, for one loader scope. -/
def Registries.start (config : Config) (loader : String) : Registries :=
  ⟨{}, { loader, config }, {}, {}⟩

/-- Why a pass did not succeed. -/
inductive PassFailure
  | refused (error : RedefineError)
  | clash (clash : NameClash)

structure Outcome where
  bytes : Bytes
  added : List AddedField
  redirected : List StaticRedirect
  removed : List RemovedField
  /-- The class as the next pass has to see it. -/
  schema : Schema
  instrumented : Nat

namespace Pass

/-- What stays the same throughout one pass. -/
structure Setting where
  owner : String
  loader : String
  config : Config
  source : AnnotationSource

/-! ## §1 Matching -/

/-- A field of the old schema and what takes its place in the new definition. -/
structure Seat where
  entry : SchemaField
  occupant : Option Field

/-- The new definition as far as its fields have been looked at. -/
structure Draft where
  pool : Pool
  seats : List Seat
  /-- The annotations that the matched fields declare. -/
  declared : List FieldAnnotations := []
  statics : List Field := []
  instances : List Field := []

/-- Whether a new field may still match the seat's field. -/
def Seat.isOpen (storageName : String) (s : Seat) : Bool :=
  s.entry.isNormal && s.entry.name != storageName && s.occupant.isNone

/-- Carries out an action on the pool. -/
def interned {α : Type} (action : Interning α) (pool : Pool) :
    Except RedefineError (α × Pool) :=
  match action pool with
  | .ok a pool => .ok (a, pool)
  | .error e _ => .error (.ofBuild e)

/-- The first name and descriptor, in order, that stood there before. -/
def firstRepeated (seen : List (String × String)) :
    List (String × String) → Option (String × String)
  | [] => none
  | m :: rest => if seen.contains m then some m else firstRepeated (m :: seen) rest

/-- The seat that a new field takes, if it matches one. -/
def seatFor? (s : Setting) (className : String) (seats : List Seat) (name descriptor : String)
    (access : FieldAccess) : Except RedefineError (Option Nat) :=
  let fitting (seat : Seat) : Bool :=
    seat.isOpen s.config.storageName && seat.entry.isNamed name descriptor
  match seats.findIdx? fitting, seats.find? fitting with
  | some index, some seat =>
    let before := seat.entry.access
    if before = access ∨ before.differsOnlyInStatic access then .ok (some index)
    else
      match s.config.accessPolicy with
      | .reject => .error (.accessChange className name descriptor before access)
      | .treatAsNew => .ok none
  | _, _ => .ok none

/-- A matched field with the annotations of the loaded field in place of its own. -/
def withLoadedAnnotations (s : Setting) (name descriptor : String) (f : Field) (pool : Pool) :
    Except RedefineError (Field × Pool) := do
  match ← (s.source s.owner name descriptor).mapError .lookup with
  | some loaded =>
    let (attributes, pool) ← interned (AnnotationUse.setVisible loaded f.attributes) pool
    return ({ f with attributes }, pool)
  | none =>
    let (_, attributes) ←
      (Attribute.remove pool Attribute.visibleAnnotationsName f.attributes).mapError .format
    return ({ f with attributes }, pool)

/-- Looks at one field of the new definition. -/
def place (s : Setting) (className : String) (d : Draft) (f : Field) :
    Except RedefineError Draft := do
  let (name, descriptor) ← (f.identityIn d.pool).mapError .format
  if name = s.config.storageName then return d
  match ← seatFor? s className d.seats name descriptor f.access with
  | some index =>
    let annotations ← (AnnotationUse.visible? d.pool f.attributes).mapError .format
    let (f, pool) ← withLoadedAnnotations s name descriptor f d.pool
    let occupy (seat : Seat) : Seat :=
      { seat with occupant := some { f with access := seat.entry.access } }
    return { d with
      pool
      seats := d.seats.modify index occupy
      declared := d.declared ++ [⟨s.owner, name, descriptor, annotations⟩] }
  | none =>
    return if f.access.isStatic then { d with statics := d.statics ++ [f] }
      else { d with instances := d.instances ++ [f] }

/-- All fields of the new definition placed; none may be declared twice. -/
def placeAll (s : Setting) (old : Schema) (c : ClassFile) : Except RedefineError Draft := do
  let identities ← (c.fields.mapM (Member.identityIn c.pool)).mapError RedefineError.format
  match firstRepeated [] identities with
  | some (name, descriptor) => throw (.duplicate name descriptor)
  | none =>
    c.fields.foldlM (place s old.className) { pool := c.pool, seats := old.fields.map (⟨·, none⟩) }

/-! ## §2 Shells and the field table -/

/-- A field as it was loaded, annotations included. -/
def shell (s : Setting) (entry : SchemaField) (pool : Pool) :
    Except RedefineError (Field × Pool) := do
  let (f, pool) ← interned (Member.declare entry.access entry.name entry.descriptor) pool
  match ← (s.source s.owner entry.name entry.descriptor).mapError .lookup with
  | some loaded =>
    let (attributes, pool) ← interned (AnnotationUse.setVisible loaded f.attributes) pool
    return ({ f with attributes }, pool)
  | none => return (f, pool)

/-- The storage field as it was loaded. -/
def storageShell (entry : SchemaField) (pool : Pool) : Except RedefineError (Field × Pool) :=
  interned (Member.declare entry.access entry.name entry.descriptor) pool

/-- Fills the seats that `occupantOf?` has something for, in order. -/
def fill (occupantOf? : Seat → Option (Pool → Except RedefineError (Field × Pool)))
    (pool : Pool) (seats : List Seat) : Except RedefineError (List Seat × Pool) :=
  seats.foldlM step ([], pool)
where
  /-- Adds the next seat to those done. -/
  step (state : List Seat × Pool) (seat : Seat) : Except RedefineError (List Seat × Pool) := do
    let (done, pool) := state
    match occupantOf? seat with
    | none => return (done ++ [seat], pool)
    | some make =>
      let (f, pool) ← make pool
      return (done ++ [{ seat with occupant := some f }], pool)

/-- Fields without a match get shells first, then those removed by earlier passes; the storage
field is declared anew. -/
def fillShells (s : Setting) (pool : Pool) (seats : List Seat) :
    Except RedefineError (List Seat × Pool) := do
  let (seats, pool) ←
    fill (fun seat => if seat.isOpen s.config.storageName then some (shell s seat.entry) else none)
      pool seats
  fill (fun seat =>
      match seat.entry.kind with
      | .removed => some (shell s seat.entry)
      | .normal =>
        if seat.entry.name == s.config.storageName then some (storageShell seat.entry) else none
      | .fake _ => none)
    pool seats

/-- Carries out an edit of the class. -/
def edited {α : Type} (action : ClassEdit α) (c : ClassFile) : Except RedefineError ClassFile :=
  match action c with
  | .ok _ c => .ok c
  | .error e _ => .error (.ofBuild e)

/-- The class with exactly the given fields and, if need be, the storage field after them. -/
def declareFields (config : Config) (fields : List Field) (appendsStorage : Bool)
    (c : ClassFile) : Except RedefineError ClassFile := do
  let c ← fields.foldlM (fun c f => edited (ClassFile.addField f) c) { c with fields := [] }
  if appendsStorage then
    edited (ClassFile.declareField storageAccess config.storageName config.storageDescriptor) c
  else return c

/-! ## §3 The new schema -/

/-- How the next pass sees the fields of the old schema. -/
def keptFields (storageName : String) (seats : List Seat) : List SchemaField :=
  seats.filterMap fun seat =>
    if seat.entry.isFake then none
    else if seat.isOpen storageName then some seat.entry.toRemoved
    else some seat.entry

def storageEntry (config : Config) : SchemaField :=
  ⟨config.storageName, config.storageDescriptor, storageAccess, .normal⟩

/-- The requests for the fields that lose their last declaration in this pass. -/
def removals (s : Setting) (seats : List Seat) : List RemovedField :=
  (seats.filter (·.isOpen s.config.storageName)).map fun seat =>
    ⟨s.owner, seat.entry.name, seat.entry.descriptor, seat.entry.access, s.loader⟩

/-- The records of the added instance fields, numbered in the order of declaration. -/
def addedRecords (s : Setting) (pool : Pool) (fields : List Field) :
    Except RedefineError (List AddedField) :=
  fields.zipIdx.mapM fun (f, ordinal) => do
    let (name, descriptor) ← (f.identityIn pool).mapError RedefineError.format
    return ⟨ordinal, name, descriptor, s.owner, s.loader⟩

/-- A new definition in the loaded shape, and what its added instance fields need. -/
structure Reshaped where
  draft : Draft
  /-- The class with the field table it is to have. -/
  shaped : ClassFile
  appendsStorage : Bool
  added : List AddedField
  layout : StorageLayout

/-- Gives the new definition the field table of the loaded class, with a storage field behind it
if it needs one and has none. -/
def reshape (s : Setting) (old : Schema) (c : ClassFile) : Except RedefineError Reshaped := do
  let draft ← placeAll s old c
  let (seats, pool) ← fillShells s draft.pool draft.seats
  let hasStorage := old.fields.any fun f => f.isNormal && f.name == s.config.storageName
  let appendsStorage := !hasStorage && !draft.instances.isEmpty
  let shaped ←
    declareFields s.config (seats.filterMap Seat.occupant) appendsStorage { c with pool }
  let added ← addedRecords s shaped.pool draft.instances
  let layout ← (StorageLayout.ofRecords? s.owner added).mapError .ofType
  return ⟨draft, shaped, appendsStorage, added, layout⟩

/-! ## §4 Generated classes -/

/-- An action of the pass; names drawn before a failure stay drawn. -/
abbrev Action (α : Type) := EStateM PassFailure Registries α

def ofExcept {α : Type} : Except RedefineError α → Action α
  | .ok a => pure a
  | .error e => throw (.refused e)

def ofBuild {α : Type} (result : Except BuildError α) : Action α :=
  ofExcept (result.mapError RedefineError.ofBuild)

def drawProxyName (stem : String) : Action String := do
  let r ← get
  let (name, store) := r.store.nextName stem
  set { r with store }
  return name

def drawHolderName (owner : String) : Action String := do
  let r ← get
  let (name, context) := r.context.nextHolderName owner
  set { r with context }
  return name

/-- Generates the accessor class of an added instance field. -/
def generateAccessor (s : Setting) (c : ClassFile) (layout : StorageLayout)
    (record : AddedField) (f : Field) : Action (SchemaField × Pending) := do
  let proxy ← drawProxyName s.config.accessorStem
  let generated ← ofBuild (Generated.accessor c.majorVersion proxy c.pool f)
  let bytes ← ofBuild generated.encode
  return (⟨record.name, record.descriptor, f.access, .fake proxy⟩,
    .accessor ⟨s.owner, proxy, ⟨record.ordinal, layout⟩⟩ bytes)

/-- What becomes of one added static field. -/
structure Held where
  entry : SchemaField
  redirect : StaticRedirect
  declared : FieldAnnotations
  pending : Option Pending

/-- The holder of an added static field; one that exists already is kept. -/
def holdStatic (s : Setting) (c : ClassFile) (f : Field) : Action Held := do
  let (name, descriptor) ← ofExcept ((f.identityIn c.pool).mapError .format)
  let held (holder : String) (pending : Option Pending) : Action Held := do
    let annotations ← ofExcept ((AnnotationUse.visible? c.pool f.attributes).mapError .format)
    return {
      entry := ⟨name, descriptor, f.access, .fake holder⟩
      redirect := ⟨s.owner, holder, name, descriptor, s.loader⟩
      declared := ⟨holder, name, descriptor, annotations⟩
      pending }
  match (← get).context.holderFor? s.owner name descriptor with
  | some holder => held holder none
  | none =>
    let holder ← drawHolderName s.owner
    let generated ← ofBuild (Generated.holder c.majorVersion holder c.pool f)
    let bytes ← ofBuild generated.encode
    held holder (some (.holder ⟨s.owner, name, descriptor, holder⟩ bytes))

/-! ## §5 The pass -/

/-- Commits what was generated, and records annotations and requests. -/
def conclude (pending : List Pending) (declared : List FieldAnnotations) (requests : Requests) :
    Action Unit := do
  let r ← get
  match r.context.commit r.store pending with
  | .error e => throw (.clash e)
  | .ok (store, context) =>
    set { r with
      store, context
      reflection := declared.foldl (fun r e => r.record e) r.reflection
      requests := r.requests ++ requests }

/-- Brings the new definition `c` of the class whose fields `old` describes into shape. -/
def run (source : AnnotationSource) (old : Schema) (c : ClassFile) : Action Outcome := do
  let context := (← get).context
  let owner ← ofExcept (c.name.mapError .format)
  let s : Setting := ⟨owner, context.loader, context.config, source⟩
  let d ← ofExcept (reshape s old c)
  let proxied ← (d.added.zip d.draft.instances).mapM fun (record, f) =>
    generateAccessor s d.shaped d.layout record f
  let held ← d.draft.statics.mapM (holdStatic s d.shaped)
  let (c, instrumented) ← ofExcept (Prologue.instrument s.config d.added d.shaped)
  let bytes ← ofBuild c.encode
  let redirected := held.map Held.redirect
  let removed := removals s d.draft.seats
  conclude (proxied.map Prod.snd ++ held.filterMap Held.pending)
    (d.draft.declared ++ held.map Held.declared) ⟨d.added, redirected, removed⟩
  let fields := keptFields s.config.storageName d.draft.seats ++
    (if d.appendsStorage then [storageEntry s.config] else []) ++
    proxied.map Prod.fst ++ held.map Held.entry
  return ⟨bytes, d.added, redirected, removed, ⟨owner, fields⟩, instrumented⟩

end Pass

end Reshape
