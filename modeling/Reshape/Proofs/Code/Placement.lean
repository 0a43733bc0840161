import Reshape.Proofs.Code.Fragments
import Reshape.Proofs.Pool.Additions

/-!
# The place of an insertion

An insertion is refused for its place only where the new code is put together, and not if an
instruction starts there or the code ends there.  Every other step that fails does so for a reason of
its own: something cannot be read, a table is too long, a jump too far or the pool is full.  A
fragment refuses the place of a branch only if there is none.
-/

namespace Reshape

/-! ## §1 Steps that do not refuse the place -/

/-- The error does not refuse the place of an insertion. -/
def BuildError.AcceptsPlace (e : BuildError) : Prop := ∀ offset, e ≠ .invalidInsertionPoint offset

open BuildError (AcceptsPlace)

theorem acceptsPlace_format (e : FormatError) : AcceptsPlace (.format e) := nofun

theorem Table.acceptsPlace_count (table : Table) (n : Nat) :
    FaultsOnly AcceptsPlace (table.count n) :=
  .ite (fun _ => .ok _) fun _ => .error nofun

theorem Table.acceptsPlace_encode {α : Type} (table : Table) (item : α → Bytes) (items : List α) :
    FaultsOnly AcceptsPlace (table.encode item items) := by
  intro e h
  unfold Table.encode at h
  split at h
  · cases h
  · next hcount =>
    cases h
    exact table.acceptsPlace_count items.length _ hcount

theorem Frame.acceptsPlace_encode (f : Frame) : FaultsOnly AcceptsPlace f.encode := by
  unfold Frame.encode
  dsimp only
  split
  · exact .ok _
  · exact .ok _
  · exact .ok _
  · exact .ok _
  · exact .bind (Table.acceptsPlace_encode _ _ _) fun _ =>
      .bind (Table.acceptsPlace_encode _ _ _) fun _ => .ok _

theorem Frame.acceptsPlace_encodeAll (frames : List Frame) :
    FaultsOnly AcceptsPlace (Frame.encodeAll frames) :=
  .bind (Table.acceptsPlace_count _ _) fun _ => .bind (.mapM acceptsPlace_encode _) fun _ => .ok _

theorem Body.acceptsPlace_encode (b : Body) : FaultsOnly AcceptsPlace b.encode := by
  have hrest : FaultsOnly AcceptsPlace (do
      let handlers ← Table.exceptionHandlers.encode Handler.encode b.handlers
      let attributes ← Attribute.encodeAll b.attributes
      return BigEndian.u16 b.maxStack ++ BigEndian.u16 b.maxLocals ++
        BigEndian.u32 (UInt32.ofNat b.code.size) ++ b.code.toList ++ handlers ++ attributes) :=
    .bind (Table.acceptsPlace_encode _ _ _) fun _ =>
      .bind (Table.acceptsPlace_encode _ _ _) fun _ => .ok _
  exact .ite (fun _ => .bind (.error nofun) fun _ => hrest) fun _ => hrest

namespace Relocation

variable (r : Relocation) (code : Array UInt8)

theorem acceptsPlace_patch (i : Instruction) (o : JumpOperand) :
    FaultsOnly AcceptsPlace (r.patch code i o) := by
  refine .bind (.mapError acceptsPlace_format) fun relative => ?_
  dsimp only
  split
  · exact .ite (fun _ => .ok _) fun _ => .error nofun
  · exact .ok _

theorem acceptsPlace_patches (is : List Instruction) :
    FaultsOnly AcceptsPlace (r.patches code is) := by
  have hone (i : Instruction) : FaultsOnly AcceptsPlace (r.patchesOf code i) :=
    .bind (.mapError acceptsPlace_format) fun _ => .mapM (r.acceptsPlace_patch code i) _
  exact .bind (.mapM hone is) fun _ => .ok _

end Relocation

namespace Insertion

variable (ins : Insertion) (entry : List VerificationType)

/-- If the code decodes and the place is one for an insertion, then it is not refused. -/
theorem acceptsPlace_splice {code : Array UInt8}
    (hplace : (decodeAll code).fault = none →
      Decodes.Boundary code (decodeAll code).instructions ins.position) :
    FaultsOnly AcceptsPlace (ins.splice code) := by
  refine .bind_of ?_ fun is his => ?_
  · unfold instructions
    dsimp only
    split
    · refine .error fun offset h => ?_
      cases h
    · exact .mapError acceptsPlace_format
  · obtain ⟨rfl, hfault, -⟩ := instructions_ok his
    have hboundary : (ins.position == code.size ||
        (decodeAll code).instructions.any (·.offset == ins.position)) = true := by
      simpa [Decodes.Boundary] using hplace hfault
    have hpatches := ins.relocation.acceptsPlace_patches code (decodeAll code).instructions
    dsimp only
    rw [hboundary, if_neg (by decide)]
    refine .ite (fun _ => .error fun offset h => ?_) fun _ => .bind hpatches fun _ => .ok _
    cases h

theorem acceptsPlace_payload (name : String) (old : Bytes) :
    FaultsOnly AcceptsPlace (ins.payload entry name old) := by
  unfold payload
  refine .ite (fun _ => ?_) fun _ => .ite (fun _ => ?_) fun _ => .ite (fun _ => ?_) fun _ => .ok _
  · exact .bind (.mapError acceptsPlace_format) fun _ => Table.acceptsPlace_encode _ _ _
  · exact .bind (.mapError acceptsPlace_format) fun _ => Table.acceptsPlace_encode _ _ _
  · exact .bind (.mapError acceptsPlace_format) fun _ =>
      .bind (.mapError acceptsPlace_format) fun _ => Frame.acceptsPlace_encodeAll _

theorem acceptsPlace_attributes (pool : Pool) (attributes : List Attribute) : ∀ mapped : Bool,
    FaultsOnly AcceptsPlace (ins.attributes pool entry mapped attributes).2 := by
  induction attributes with
  | nil => exact fun _ => .ok _
  | cons a rest ih =>
      intro mapped
      unfold Insertion.attributes
      dsimp only
      split
      · next e he =>
        refine .error (FaultsOnly.bind ?_ (fun name => ?_) e he)
        · exact .mapError acceptsPlace_format
        · exact .bind (ins.acceptsPlace_payload entry name a.payload) fun _ => .ok _
      · exact ih _

end Insertion

/-! ## §2 Actions that do not refuse the place -/

section Actions

variable {α : Type}

/-- Room that lacks in the pool is no matter of the place. -/
theorem acceptsPlace_of_looksUp {x : Interning α} {look : Pool → Option α} (h : x.LooksUp look) :
    FailsOnly AcceptsPlace x := by
  refine h.full.mono ?_
  rintro e rfl
  exact nofun

theorem Interning.acceptsPlace_ofExcept {x : Except BuildError α} (h : FaultsOnly AcceptsPlace x) :
    FailsOnly AcceptsPlace (Interning.ofExcept x) :=
  .lift id (fun _ => rfl) (fun _ => rfl) h

theorem Interning.acceptsPlace_ofFormat (x : Except FormatError α) :
    FailsOnly AcceptsPlace (Interning.ofFormat x) :=
  .lift BuildError.format (fun _ => rfl) (fun _ => rfl) fun e _ => acceptsPlace_format e

theorem Interning.acceptsPlace_reading (look : Pool → Except FormatError α) :
    FailsOnly AcceptsPlace (Interning.reading look) :=
  .bind .get fun _ => Interning.acceptsPlace_ofFormat _

theorem Editing.acceptsPlace_ofExcept {x : Except BuildError α} (h : FaultsOnly AcceptsPlace x) :
    FailsOnly AcceptsPlace (Editing.ofExcept x) :=
  .lift id (fun _ => rfl) (fun _ => rfl) h

end Actions

theorem Attribute.acceptsPlace_set (name : String) (payload : Bytes)
    (attributes : List Attribute) :
    FailsOnly AcceptsPlace (Attribute.set name payload attributes) :=
  .bind (acceptsPlace_of_looksUp (Pool.Addition.looksUp_addUtf8 name)) fun _ => .pure _

theorem VerificationType.acceptsPlace_ofFieldType (t : FieldType) :
    FailsOnly AcceptsPlace (ofFieldType t) := by
  unfold ofFieldType
  split
  · exact .pure _
  · exact .pure _
  · exact .pure _
  · exact .pure _
  · split
    · exact .bind (acceptsPlace_of_looksUp (Pool.Addition.looksUp_addClass _)) fun _ => .pure _
    · exact .pure _

theorem FrameState.acceptsPlace_parameterTypes (types : List FieldType) :
    ∀ done, FailsOnly AcceptsPlace (parameterTypes done types) := by
  induction types with
  | nil => exact fun done => .pure _
  | cons t types ih =>
      exact fun done => .bind (VerificationType.acceptsPlace_ofFieldType t) fun type => ih _

namespace Insertion

theorem acceptsPlace_recordJoin (entry : List VerificationType) (join : FrameState) :
    FailsOnly AcceptsPlace (recordJoin entry join) :=
  .bind (Editing.acceptsPlace_ofExcept (Frame.acceptsPlace_encodeAll _)) fun _ =>
    .bind .get fun _ => .bind (.onPart (Attribute.acceptsPlace_set _ _ _)) fun _ => nofun

theorem acceptsPlace_raiseMaxStack : FailsOnly AcceptsPlace raiseMaxStack :=
  .bind .get fun _ =>
    .bind (Editing.acceptsPlace_ofExcept (.mapError acceptsPlace_format)) fun _ => .set _

/-- An insertion at such a place may fail, but not for the place. -/
theorem acceptsPlace_run {ins : Insertion} {entry : List VerificationType} {s t : Edit}
    {e : BuildError} (hplace : (decodeAll s.body.code).fault = none →
      Decodes.Boundary s.body.code (decodeAll s.body.code).instructions ins.position)
    (h : ins.run entry s = .error e t) : AcceptsPlace e := by
  obtain ⟨s₁, s₂, hget, h⟩ := FailsOnly.get.passes (P := fun _ => False) id h
  obtain ⟨rfl, rfl⟩ := state_get_eq_ok.mp hget
  refine FailsOnly.bind (Editing.acceptsPlace_ofExcept (ins.acceptsPlace_splice hplace))
    (fun code => ?_) s e t h
  refine .bind (.set _) fun _ =>
    .bind (Editing.acceptsPlace_ofExcept (ins.acceptsPlace_attributes entry _ _ _)) fun mapped => ?_
  dsimp only
  split
  · exact .bind (acceptsPlace_recordJoin entry _) fun _ => acceptsPlace_raiseMaxStack
  · exact acceptsPlace_raiseMaxStack

end Insertion

/-! ## §3 Fragments -/

namespace Fragment

theorem acceptsPlace_pushInt (value : Int32) (f : Fragment) :
    FailsOnly AcceptsPlace (f.pushInt value) := by
  iterate 9 refine .ite (.pure _) ?_
  exact .bind (acceptsPlace_of_looksUp (.intern (by simp))) fun _ => .pure _

theorem acceptsPlace_onField (opcode : Opcode) (m : MemberRef) (f : Fragment) :
    FailsOnly AcceptsPlace (f.onField opcode m) :=
  .bind (acceptsPlace_of_looksUp (Pool.Addition.looksUp (.fieldRef m))) fun _ => .pure _

theorem acceptsPlace_onMethod (opcode : Opcode) (m : MemberRef) (f : Fragment) :
    FailsOnly AcceptsPlace (f.onMethod opcode m) :=
  .bind (acceptsPlace_of_looksUp (Pool.Addition.looksUp (.methodRef m))) fun _ => .pure _

theorem acceptsPlace_anewarray (element : String) (f : Fragment) :
    FailsOnly AcceptsPlace (f.anewarray element) :=
  .bind (acceptsPlace_of_looksUp (Pool.Addition.looksUp_addClass element)) fun _ => .pure _

/-- A branch that is there can be patched. -/
theorem acceptsPlace_patch (opcode : Opcode) (target : Nat) (f : Fragment) :
    FaultsOnly AcceptsPlace ((f.branch opcode).patch f.size target) := by
  have hfits : f.size + 3 ≤ (f.branch opcode).code.size :=
    Nat.le_of_eq (size_branch opcode f).symm
  unfold patch
  dsimp only
  refine .ite (fun _ => ?_) fun _ => .error nofun
  rw [if_pos hfits]
  split
  · exact .ok _
  · exact .ok _

end Fragment

end Reshape
