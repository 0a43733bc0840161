import Reshape.Proofs.Code.Fragments
import Reshape.Proofs.Redefinition.Prologue

/-!
# Through the storage block

The block that a constructor gets is a null check and a row of plain operations that allocates
the array and fills it.  The check either finds storage and leads behind the block, or goes on
into the row.  So a path that enters the block leaves it at its end, and it has then found storage
or executed the whole block.
-/

namespace Reshape

/-! ## §1 Plain fragments -/

namespace Fragment

/-- All that was appended so far are plain operations. -/
def IsPlain (f : Fragment) : Prop := ∃ ops, PlainRow f.code.toList ops

variable {f g : Fragment} {opcode : Opcode} {p q : Pool}

theorem isPlain_empty : empty.IsPlain := ⟨[], .nil⟩

/-- One more operation with its operands. -/
theorem IsPlain.append (hf : f.IsPlain) (plain : opcode.isPlain = true) (operands : Bytes)
    (sized : opcode.size? = some (operands.length + 1))
    (hg : g.code.toList = f.code.toList ++ opcode.byte :: operands) : g.IsPlain := by
  obtain ⟨ops, hops⟩ := hf
  refine ⟨ops ++ [opcode], ?_⟩
  rw [hg]
  have hrow := hops.append (.cons operands plain sized .nil)
  rwa [List.append_nil] at hrow

theorem IsPlain.op (hf : f.IsPlain) (plain : opcode.isPlain = true)
    (sized : opcode.size? = some 1) : (f.op opcode).IsPlain :=
  hf.append plain [] sized (f.toList_op opcode)

theorem IsPlain.op8 (hf : f.IsPlain) (plain : opcode.isPlain = true)
    (sized : opcode.size? = some 2) (operand : UInt8) : (f.op8 opcode operand).IsPlain :=
  hf.append plain [operand] sized (f.toList_op8 opcode operand)

theorem IsPlain.op16 (hf : f.IsPlain) (plain : opcode.isPlain = true)
    (sized : opcode.size? = some 3) (operand : UInt16) : (f.op16 opcode operand).IsPlain := by
  refine hf.append plain (BigEndian.u16 operand) ?_ (f.toList_op16 opcode operand)
  rw [BigEndian.length_u16, sized]

theorem plain_of_constants :
    ∀ c ∈ constants, c.1.isPlain = true ∧ c.1.size? = some 1 := by
  decide

theorem IsPlain.pushInt (hf : f.IsPlain) {value : Int32} (h : f.pushInt value p = .ok g q) :
    g.IsPlain := by
  cases pushes_of_pushInt h with
  | constant told =>
      obtain ⟨plain, sized⟩ := plain_of_constants _ told
      exact hf.op plain sized
  | byte small => exact hf.op8 rfl rfl _
  | word small => exact hf.op16 rfl rfl _
  | pooled interned small => exact hf.op8 rfl rfl _
  | pooledFar interned => exact hf.op16 rfl rfl _

theorem IsPlain.onField (hf : f.IsPlain) (plain : opcode.isPlain = true)
    (sized : opcode.size? = some 3) {m : MemberRef} (h : f.onField opcode m p = .ok g q) :
    g.IsPlain := by
  obtain ⟨index, p₁, -, h⟩ := state_bind_eq_ok.mp h
  obtain ⟨rfl, -⟩ := state_pure_eq_ok.mp h
  exact hf.op16 plain sized index

theorem IsPlain.onMethod (hf : f.IsPlain) (plain : opcode.isPlain = true)
    (sized : opcode.size? = some 3) {m : MemberRef} (h : f.onMethod opcode m p = .ok g q) :
    g.IsPlain := by
  obtain ⟨index, p₁, -, h⟩ := state_bind_eq_ok.mp h
  obtain ⟨rfl, -⟩ := state_pure_eq_ok.mp h
  exact hf.op16 plain sized index

theorem IsPlain.anewarray (hf : f.IsPlain) {element : String}
    (h : f.anewarray element p = .ok g q) : g.IsPlain := by
  obtain ⟨index, p₁, -, h⟩ := state_bind_eq_ok.mp h
  obtain ⟨rfl, -⟩ := state_pure_eq_ok.mp h
  exact hf.op16 rfl rfl index

theorem IsPlain.pushZero (hf : f.IsPlain) (t : Primitive) : (f.pushZero t).IsPlain := by
  cases t <;> exact hf.op rfl rfl

end Fragment

/-! ## §2 The shape of the block -/

namespace Prologue

open Fragment

theorem isPlain_pushInitial {t : FieldType} {f g : Fragment} {p q : Pool} (hf : f.IsPlain)
    (h : pushInitial t f p = .ok g q) : g.IsPlain := by
  unfold pushInitial at h
  cases hprimitive : t.primitive? with
  | some primitive =>
      rw [hprimitive] at h
      exact (hf.pushZero primitive).onMethod rfl rfl h
  | none =>
      rw [hprimitive] at h
      obtain ⟨rfl, -⟩ := state_pure_eq_ok.mp h
      exact hf.op rfl rfl

theorem isPlain_storeInitial {slot : FieldType × Nat} {f g : Fragment} {p q : Pool}
    (hf : f.IsPlain) (h : storeInitial f slot p = .ok g q) : g.IsPlain := by
  obtain ⟨f₁, p₁, hindex, h⟩ := state_bind_eq_ok.mp h
  obtain ⟨f₂, p₂, hinitial, h⟩ := state_bind_eq_ok.mp h
  obtain ⟨rfl, -⟩ := state_pure_eq_ok.mp h
  exact (isPlain_pushInitial ((hf.op rfl rfl).pushInt hindex) hinitial).op rfl rfl

theorem isPlain_storeAll {slots : List (FieldType × Nat)} :
    ∀ {f g : Fragment} {p q : Pool}, f.IsPlain → slots.foldlM storeInitial f p = .ok g q →
      g.IsPlain := by
  induction slots with
  | nil =>
      intro f g p q hf h
      obtain ⟨rfl, -⟩ := state_pure_eq_ok.mp h
      exact hf
  | cons slot slots ih =>
      intro f g p q hf h
      rw [List.foldlM_cons] at h
      obtain ⟨f₁, p₁, hslot, h⟩ := state_bind_eq_ok.mp h
      exact ih (isPlain_storeInitial hf hslot) h

theorem isPlain_allocation {storage : MemberRef} {l : StorageLayout} {f : Fragment} {p q : Pool}
    (h : allocation storage l p = .ok f q) : f.IsPlain := by
  obtain ⟨f₁, p₁, hsize, h⟩ := state_bind_eq_ok.mp h
  obtain ⟨f₂, p₂, harray, h⟩ := state_bind_eq_ok.mp h
  obtain ⟨f₃, p₃, hput, h⟩ := state_bind_eq_ok.mp h
  obtain ⟨f₄, p₄, hslots, h⟩ := state_bind_eq_ok.mp h
  obtain ⟨rfl, -⟩ := state_pure_eq_ok.mp h
  have hself : (Fragment.empty.aload 0).IsPlain := isPlain_empty.op rfl rfl
  have hstored := (((hself.pushInt hsize).anewarray harray).op rfl rfl).onField rfl rfl hput
  exact (isPlain_storeAll hstored hslots).op rfl rfl

/-- A null check that branches to the end, and plain operations behind it. -/
structure Shape (block : Array UInt8) where
  check : Bytes
  fill : Bytes
  ops : List Opcode
  checks : PlainRow check [.aload0, .getField]
  fills : PlainRow fill ops
  four : check.length = 4
  near : JumpWidth.short.Holds ((block.size : Int) - 4)
  bytes : block.toList = check ++
    (Opcode.ifNonNull.byte :: JumpWidth.short.store ((block.size : Int) - 4)) ++ fill

/-- The branch of the check gets the distance to the end of the block. -/
theorem patch_check {position target : Nat} {f g : Fragment} (before : Bytes)
    (hf : f.code.toList = before ++ [Opcode.ifNonNull.byte, 0, 0])
    (hposition : before.length = position) (htarget : target < 0x8000000000000000)
    (hless : position < 0x8000000000000000) (h : f.patch position target = .ok g) :
    JumpWidth.short.Holds ((target : Int) - position) ∧
      g.code.toList = before ++
        (Opcode.ifNonNull.byte :: JumpWidth.short.store ((target : Int) - position)) := by
  obtain ⟨hnear, -, hcode⟩ := patch_eq_ok.mp h
  rw [distance_eq hless htarget] at hnear hcode
  refine ⟨hnear, ?_⟩
  subst hposition
  simp only [hcode, Relocation.overwrite, Array.toList_setIfInBounds, hf, JumpWidth.store,
    BigEndian.digits, List.nil_append, List.cons_append]
  rw [List.set_append_right _ _ (by omega), List.set_append_right _ _ (by omega)]
  simp [Nat.add_assoc]

/-- The bytes of the check of a storage field that has the given index. -/
def checkBytes (index : UInt16) : Bytes :=
  Opcode.aload0.byte :: Opcode.getField.byte :: BigEndian.u16 index

theorem length_checkBytes (index : UInt16) : (checkBytes index).length = 4 := by
  rw [checkBytes, List.length_cons, List.length_cons, BigEndian.length_u16]

theorem plainRow_check (index : UInt16) :
    PlainRow (checkBytes index) [.aload0, .getField] := by
  have hself : PlainRow [Opcode.aload0.byte] [.aload0] := .cons [] rfl rfl .nil
  have hfield : PlainRow (Opcode.getField.byte :: BigEndian.u16 index) [.getField] := by
    have hsized : Opcode.getField.size? = some ((BigEndian.u16 index).length + 1) := by
      rw [BigEndian.length_u16]
      rfl
    have hrow := PlainRow.cons (BigEndian.u16 index) rfl hsized .nil
    rwa [List.append_nil] at hrow
  exact hself.append hfield

theorem size_fillTo {size : Nat} {f : Fragment} (h : f.code.size ≤ size) :
    (f.fillTo size).code.size = size := by
  rw [Fragment.fillTo, Array.size_append, Array.size_replicate]
  omega

/-- What a block is put together from, unless it is longer than any code can be. -/
theorem block_parts {config : Config} {owner : String} {l : StorageLayout} {code : Array UInt8}
    {p q : Pool} (h : block config owner l p = .ok code q) :
    l.size < 2147483648 ∧ ∃ (fill : Fragment) (p₁ : Pool) (index : UInt16),
      allocation ⟨owner, config.storageName, config.storageDescriptor⟩ l p = .ok fill p₁ ∧
      Pool.addFieldRef ⟨owner, config.storageName, config.storageDescriptor⟩ p₁ = .ok index q ∧
      code.size = alignedSize (7 + fill.size) 4 ∧
      (code.size < 0x8000000000000000 → JumpWidth.short.Holds ((code.size : Int) - 4) ∧
        code.toList = checkBytes index ++
          (Opcode.ifNonNull.byte :: JumpWidth.short.store ((code.size : Int) - 4)) ++
          (fill.code.toList ++
            List.replicate (code.size - (7 + fill.size)) Opcode.nop.byte)) := by
  unfold block at h
  split at h
  · obtain ⟨u, p₁, hthrow, -⟩ := state_bind_eq_ok.mp h
    exact (state_throw_eq_ok.mp hthrow).elim
  next hfits =>
  obtain ⟨fill, p₁, hfill, h⟩ := state_bind_eq_ok.mp h
  obtain ⟨check, p₂, hcheck, h⟩ := state_bind_eq_ok.mp h
  obtain ⟨index, p₃, hindex, hcheck⟩ := state_bind_eq_ok.mp hcheck
  obtain ⟨rfl, rfl⟩ := state_pure_eq_ok.mp hcheck
  obtain ⟨patched, p₄, hclosed, h⟩ := state_bind_eq_ok.mp h
  obtain ⟨hpatch, rfl⟩ := Interning.ofExcept_eq_ok.mp hclosed
  clear hclosed
  obtain ⟨rfl, rfl⟩ := state_pure_eq_ok.mp h
  refine ⟨Nat.lt_of_not_le hfits, fill, p₁, index, hfill, hindex, ?_⟩
  have hopen : (((Fragment.empty.aload 0).op16 .getField index).branch .ifNonNull).code.toList =
      checkBytes index ++ [Opcode.ifNonNull.byte, 0, 0] := by
    simp [checkBytes, Fragment.branch, Fragment.op16, Fragment.aload, Fragment.op, Fragment.empty,
      BigEndian.u16, BigEndian.digits]
  have hchecked : (((Fragment.empty.aload 0).op16 .getField index).branch .ifNonNull).size = 7 := by
    have hlength := congrArg List.length hopen
    rw [List.length_append, length_checkBytes] at hlength
    exact hlength
  have hparts : (patched.code ++ fill.code).size = 7 + fill.size := by
    rw [Array.size_append]
    exact congrArg (· + fill.size) ((size_of_patch hpatch).trans hchecked)
  rw [hchecked] at hpatch ⊢
  generalize hstop : alignedSize (7 + fill.size) 4 = stop at hpatch ⊢
  have hsize : (Fragment.fillTo stop ⟨patched.code ++ fill.code⟩).code.size = stop := by
    refine size_fillTo ?_
    rw [hparts, ← hstop]
    exact (alignedSize_bounds (by decide)).1
  refine ⟨hsize, fun hsmall => ?_⟩
  rw [hsize] at hsmall ⊢
  obtain ⟨hnear, hpatched⟩ :=
    patch_check _ hopen (length_checkBytes index) hsmall (by decide) hpatch
  refine ⟨hnear, ?_⟩
  simp only [Fragment.fillTo, Array.toList_append, Array.toList_replicate, hpatched, hparts,
    List.append_assoc]
  rfl

/-- **The block has this shape**, unless it is longer than any code can be. -/
theorem shape_of_block {config : Config} {owner : String} {l : StorageLayout}
    {code : Array UInt8} {p q : Pool} (hsmall : code.size < 0x8000000000000000)
    (h : block config owner l p = .ok code q) :
    ∃ (t : Shape code) (fill : Fragment) (p₁ : Pool) (index : UInt16) (n : Nat),
      allocation ⟨owner, config.storageName, config.storageDescriptor⟩ l p = .ok fill p₁ ∧
      Pool.addFieldRef ⟨owner, config.storageName, config.storageDescriptor⟩ p₁ = .ok index q ∧
      t.check = checkBytes index ∧
      t.fill = fill.code.toList ++ List.replicate n Opcode.nop.byte := by
  obtain ⟨-, fill, p₁, index, hfill, hindex, -, hparts⟩ := block_parts h
  obtain ⟨hnear, hbytes⟩ := hparts hsmall
  obtain ⟨ops, hops⟩ := isPlain_allocation hfill
  exact ⟨{
    check := checkBytes index
    fill := fill.code.toList ++ List.replicate (code.size - (7 + fill.size)) Opcode.nop.byte
    ops := ops ++ List.replicate (code.size - (7 + fill.size)) .nop
    checks := plainRow_check index
    fills := hops.append (PlainRow.nops _)
    four := length_checkBytes index
    near := hnear
    bytes := hbytes }, fill, p₁, index, _, hfill, hindex, rfl, rfl⟩

theorem block_ok {config : Config} {owner : String} {l : StorageLayout} {code : Array UInt8}
    {p q : Pool} (hsmall : code.size < 0x8000000000000000)
    (h : block config owner l p = .ok code q) : Nonempty (Shape code) := by
  obtain ⟨t, -⟩ := shape_of_block hsmall h
  exact ⟨t⟩

/-! ## §3 The way through -/

/-- The instructions of a block that stands at a position. -/
def placed (block : Array UInt8) (position : Nat) : List Instruction :=
  (decodeAll block).instructions.map fun i => { i with offset := position + i.offset }

/-- The ways through a block: the whole of it, or the three instructions of its check when there
is storage. -/
def Passage (block : Array UInt8) (position : Nat) (through : List Instruction) : Prop :=
  through = placed block position ∨ through = (placed block position).take 3

/-- Somewhere the path goes through the block and leaves it at its end. -/
def RunsThrough (block : Array UInt8) (position : Nat) (path : List Instruction) : Prop :=
  ∃ before through after, path = before ++ through ++ after ∧ Passage block position through ∧
    after.head?.map Instruction.offset = some (position + block.size)

namespace Shape

variable {block code : Array UInt8} {position : Nat}

theorem size_eq (t : Shape block) : block.size = t.fill.length + 7 := by
  have hlength := congrArg List.length t.bytes
  rw [Array.length_toList, List.length_append, List.length_append, List.length_cons,
    JumpWidth.length_store, t.four] at hlength
  simp only [JumpWidth.bytes] at hlength
  omega

/-- The parts of the block, where the block is. -/
theorem holds (t : Shape block) (h : Code.Holds code position block.toList) :
    Code.Holds code position t.check ∧
      Code.Holds code (position + 4)
        (Opcode.ifNonNull.byte :: JumpWidth.short.store ((block.size : Int) - 4)) ∧
      Code.Holds code (position + 7) t.fill := by
  rw [t.bytes] at h
  have hcheck := h.left.left
  have hbranch := h.left.right
  have hfill := h.right
  rw [t.four] at hbranch
  rw [List.length_append, t.four, List.length_cons, JumpWidth.length_store] at hfill
  exact ⟨hcheck, hbranch, hfill⟩

theorem branch_decoded (t : Shape block) (h : Code.Holds code position block.toList) :
    Instruction.decode code (position + 4) = .ok ⟨position + 4, .ifNonNull, 3⟩ := by
  have hdecode := (t.holds h).2.1.decode_eq
    (by rw [JumpWidth.length_store]; rfl)
  rwa [JumpWidth.length_store] at hdecode

theorem placed_eq (t : Shape block) : placed block position =
    Instruction.row position [.aload0, .getField] ++
      ⟨position + 4, .ifNonNull, 3⟩ :: Instruction.row (position + 7) t.ops := by
  have hself := Code.Holds.self block
  obtain ⟨hcheck, hbranch, hfill⟩ := t.holds hself
  have hfilled : Decodes block (0 + 7) (Instruction.row (0 + 7) t.ops ++ []) := by
    refine t.fills.decodes hfill (.nil ?_)
    have hsize := t.size_eq
    omega
  rw [List.append_nil] at hfilled
  have hbranched : Decodes block (0 + t.check.length)
      (⟨4, .ifNonNull, 3⟩ :: Instruction.row (0 + 7) t.ops) := by
    rw [t.four]
    exact .cons (t.branch_decoded hself) hfilled
  have hall := decodeAll_of_decodes (t.checks.decodes hcheck hbranched)
  rw [placed, hall, List.map_append, Instruction.row_add, List.map_cons, Instruction.row_add,
    Nat.add_zero]

theorem relative_eq (t : Shape block) (h : Code.Holds code position block.toList) :
    JumpOperand.relative code ⟨position + 4 + 1, .short⟩ = .ok ((block.size : Int) - 4) := by
  refine JumpOperand.relative_of_store t.near fun k hk => ?_
  have hbyte := (t.holds h).2.1 (k + 1) (by
    rw [List.length_cons, JumpWidth.length_store]
    exact Nat.succ_lt_succ hk)
  rwa [List.getElem?_cons_succ, Nat.add_comm k 1, ← Nat.add_assoc] at hbyte

/-- The branch of the check leads behind the block. -/
theorem eq_of_jump (t : Shape block) (h : Code.Holds code position block.toList)
    {targets : List Nat} {target : Nat}
    (known : Instruction.jumpTargets code ⟨position + 4, .ifNonNull, 3⟩ = .ok targets)
    (mem : target ∈ targets) : target = position + block.size := by
  obtain ⟨operands, hoperands, htargets⟩ := except_bind_eq_ok.mp known
  have hjumps : Instruction.Jumps code ⟨position + 4, .ifNonNull, 3⟩ [⟨position + 4 + 1, .short⟩] :=
    .short rfl
  cases (Instruction.jumpOperands_eq_ok.mpr hjumps).symm.trans hoperands
  obtain ⟨o, ho, htarget⟩ := exists_left_of_forall₂ (except_mapM_eq_ok.mp htargets) mem
  cases List.mem_singleton.mp ho
  obtain ⟨relative, hrelative, hsum, -⟩ := Instruction.targetOf_eq_ok.mp htarget
  cases (t.relative_eq h).symm.trans hrelative
  dsimp only at hsum
  omega

/-- **A path that enters the block goes through it.** -/
theorem enter (t : Shape block) (h : Code.Holds code position block.toList)
    {path : List Instruction} (hpath : Code.Path code position path) :
    ∃ through after, path = through ++ after ∧ Passage block position through ∧
      Code.Path code (position + block.size) after := by
  obtain ⟨hcheck, hbranch, hfill⟩ := t.holds h
  obtain ⟨rest, rfl, hrest⟩ := t.checks.run_through hcheck hpath
  rw [t.four] at hrest
  have hdecode := t.branch_decoded h
  cases hrest with
  | returns decoded isReturn =>
      cases hdecode.symm.trans decoded
      cases isReturn
  | @step _ next i rest decoded leads behind =>
      cases hdecode.symm.trans decoded
      cases leads with
      | falls passes =>
          obtain ⟨after, rfl, hafter⟩ := t.fills.run_through hfill behind
          refine ⟨placed block position, after, ?_, .inl rfl, ?_⟩
          · rw [t.placed_eq, List.append_assoc, List.cons_append]
          · rwa [t.size_eq, Nat.add_comm t.fill.length, ← Nat.add_assoc]
      | jumps known mem =>
          cases t.eq_of_jump h known mem
          refine ⟨(placed block position).take 3, rest, ?_, .inr rfl, behind⟩
          rw [t.placed_eq]
          rfl

/-- There is always the way through the whole block. -/
theorem leave (t : Shape block) (h : Code.Holds code position block.toList)
    {after : List Instruction} (hafter : Code.Path code (position + block.size) after) :
    Code.Path code position (placed block position ++ after) := by
  obtain ⟨hcheck, hbranch, hfill⟩ := t.holds h
  rw [t.size_eq, Nat.add_comm t.fill.length, ← Nat.add_assoc] at hafter
  have hfilled := t.fills.path hfill hafter
  have hbranched : Code.Path code (position + 4)
      (⟨position + 4, .ifNonNull, 3⟩ :: (Instruction.row (position + 7) t.ops ++ after)) :=
    .step (t.branch_decoded h) (.falls rfl) hfilled
  rw [← t.four] at hbranched
  have hall := t.checks.path hcheck hbranched
  rwa [t.four, ← List.cons_append, ← List.append_assoc, ← t.placed_eq] at hall

/-- Nothing in the block creates an object, calls a constructor or lies elsewhere. -/
theorem of_mem_placed (t : Shape block) {i : Instruction} (hi : i ∈ placed block position) :
    i.opcode ≠ .newObject ∧ i.opcode ≠ .invokeSpecial ∧ position ≤ i.offset ∧
      i.offset < position + block.size := by
  have hplain {op : Opcode} (h : op.isPlain = true) : op ≠ .newObject ∧ op ≠ .invokeSpecial := by
    simp only [Opcode.isPlain, Bool.and_eq_true, bne_iff_ne] at h
    exact ⟨h.1.2, h.2⟩
  have hsize := t.size_eq
  rw [t.placed_eq] at hi
  rcases List.mem_append.mp hi with hi | hi
  · obtain ⟨hnew, hcall⟩ := hplain (t.checks.isPlain _ (PlainRow.opcode_mem i hi))
    have hbounds := t.checks.offset_of_mem i hi
    rw [t.four] at hbounds
    exact ⟨hnew, hcall, hbounds.1, by omega⟩
  · rcases List.mem_cons.mp hi with rfl | hi
    · have hnew : Opcode.ifNonNull ≠ .newObject := by decide
      have hcall : Opcode.ifNonNull ≠ .invokeSpecial := by decide
      refine ⟨hnew, hcall, Nat.le_add_right _ _, ?_⟩
      show position + 4 < _
      omega
    · obtain ⟨hnew, hcall⟩ := hplain (t.fills.isPlain _ (PlainRow.opcode_mem i hi))
      have hbounds := t.fills.offset_of_mem i hi
      exact ⟨hnew, hcall, by omega, by omega⟩

end Shape

end Prologue

end Reshape
