import Reshape.ClassFile.Basic
import Reshape.Code.Fragment
import Reshape.Code.Insertion
import Reshape.Redefinition.Config
import Reshape.Redefinition.Error
import Reshape.Storage.Layout

/-!
# The constructor prologue

A class with added instance fields needs storage in every new object.  Right behind the call of
another constructor, each constructor checks whether the storage field is null, and if so
allocates an array and fills it with the initial values:

    aload_0; getfield storage; ifnonnull end
    aload_0; size; anewarray; dup_x1; putfield storage
    dup; ordinal; initial value; aastore      for every slot
    pop
    end:

The block is filled up to a multiple of four bytes, so that switches behind it stay aligned.
-/

namespace Reshape.Prologue

/-- The class of the elements of the storage array. -/
def elementClass : String := "java/lang/Object"

/-- Pushes the initial value of a slot, boxed. -/
def pushInitial (t : FieldType) (f : Fragment) : Interning Fragment :=
  match t.primitive? with
  | some p =>
    let box := p.boxClass
    let descriptor := "(" ++ String.singleton p.letter ++ ")L" ++ box ++ ";"
    (f.pushZero p).onMethod .invokeStatic ⟨box, "valueOf", descriptor⟩
  | none => pure (f.op .aconstNull)

/-- Stores the initial value of one slot into the array on top of the stack. -/
def storeInitial (f : Fragment) (slot : FieldType × Nat) : Interning Fragment := do
  let f ← (f.op .dup).pushInt (Int32.ofNat slot.2)
  let f ← pushInitial slot.1 f
  return f.op .aastore

/-- The part that allocates and fills the array. -/
def allocation (storage : MemberRef) (l : StorageLayout) : Interning Fragment := do
  let f ← (Fragment.empty.aload 0).pushInt (Int32.ofNat l.size)
  let f ← f.anewarray elementClass
  let f ← (f.op .dupX1).onField .putField storage
  let f ← l.slots.zipIdx.foldlM storeInitial f
  return f.op .pop

/-- The whole block for a class. -/
def block (config : Config) (owner : String) (l : StorageLayout) : Interning (Array UInt8) := do
  if 2147483648 ≤ l.size then throw (.tooManyItems .addedFields l.size)
  let storage : MemberRef := ⟨owner, config.storageName, config.storageDescriptor⟩
  let fill ← allocation storage l
  let check ← (Fragment.empty.aload 0).onField .getField storage
  let position := check.size
  let check := check.branch .ifNonNull
  let stop := Fragment.alignedSize (check.size + fill.size) 4
  let check ← Interning.ofExcept (check.patch position stop)
  return (Fragment.fillTo stop ⟨check.code ++ fill.code⟩).code

/-- The view of the locals once the object is initialized. -/
def initialized (thisClass : UInt16) : VerificationType → VerificationType
  | .uninitializedThis => .object thisClass
  | t => t

/-- What the constructors of one class have in common. -/
structure Setting where
  owner : String
  thisClass : UInt16
  recordsFrames : Bool
  block : Array UInt8

/-- The method with the block inserted, or nothing if it is no constructor with a body. -/
def instrumentMethod (s : Setting) (m : Method) : Interning (Option Method) := do
  if !(← Interning.reading m.isConstructor) then return none
  match ← Interning.reading m.body? with
  | none => return none
  | some body =>
    let descriptor ← Interning.reading m.descriptorIn
    let type ← Interning.ofFormat
      ((MethodType.ofDescriptor? descriptor).mapError FormatError.methodDescriptor)
    let found ← Interning.reading fun pool => ConstructorCall.find? pool body.code
    match found with
    | none =>
      throw (.constructorCallNotFound
        (s.owner ++ "." ++ ConstructorCall.constructorName ++ descriptor))
    | some position =>
      let entry ← FrameState.entryLocals s.thisClass false true type
      let join := if s.recordsFrames then some (entry.map (initialized s.thisClass)) else none
      let insertion : Insertion := ⟨position, s.block, join⟩
      let body ← insertInto insertion entry body
      return some (← m.setBody body)
where
  /-- Carries out the insertion with the pool at hand. -/
  insertInto (insertion : Insertion) (entry : List VerificationType) (body : Body) :
      Interning Body := fun pool =>
    match insertion.run entry ⟨body, pool⟩ with
    | .ok _ edit => .ok edit.body edit.pool
    | .error e edit => .error e edit.pool

/-- The methods with every constructor changed, and the number of those changed. -/
def instrumentMethods (s : Setting) (done : List Method) (count : Nat) :
    List Method → Interning (List Method × Nat)
  | [] => pure (done.reverse, count)
  | m :: rest => do
    match ← instrumentMethod s m with
    | some changed => instrumentMethods s (changed :: done) (count + 1) rest
    | none => instrumentMethods s (m :: done) count rest

/-- The class with the prologue in every constructor, and the number of those changed.  Without
added fields nothing is looked at. -/
def instrument (config : Config) (records : List AddedField) (c : ClassFile) :
    Except RedefineError (ClassFile × Nat) := do
  if records.isEmpty then return (c, 0)
  let owner ← c.name.mapError RedefineError.format
  let layout ← (StorageLayout.ofRecords? owner records).mapError RedefineError.ofType
  let action : Interning (List Method × Nat) := do
    let block ← block config owner layout
    instrumentMethods ⟨owner, c.thisClass, c.requiresStackMap, block⟩ [] 0 c.methods
  match action c.pool with
  | .ok (methods, count) pool => return ({ c with pool, methods }, count)
  | .error e _ => throw (RedefineError.ofBuild e)

end Reshape.Prologue
