import Reshape.Proofs.Code.Decoding
import Reshape.Proofs.Code.Edit

/-!
# Insertion preserves control flow

The code behind the insertion point moves as a whole, and then every jump operand is overwritten
with its new value.  The operands of all instructions lie one behind the other, so no new value
disturbs another, and no other byte changes.  Hence each instruction is found again at its new
place, and its jumps lead to where their old targets went.
-/

namespace Reshape

/-! ## §1 Stored jumps -/

/-- The bytes of a jump. -/
def JumpWidth.store : JumpWidth → Int → Bytes
  | .short, x => BigEndian.digits 2 (x % 65536).toNat
  | .wide, x => BigEndian.digits 4 (x % 4294967296).toNat

/-- The width can hold the signed value. -/
def JumpWidth.Holds : JumpWidth → Int → Prop
  | .short, x => -32768 ≤ x ∧ x < 32768
  | .wide, x => -2147483648 ≤ x ∧ x < 2147483648

theorem JumpWidth.length_store (w : JumpWidth) (x : Int) : (w.store x).length = w.bytes := by
  cases w with
  | short => exact BigEndian.length_digits _ _
  | wide => exact BigEndian.length_digits _ _

namespace BigEndian

theorem toInt16_value_digits {x : Int} (h : -32768 ≤ x ∧ x < 32768) :
    (UInt16.ofNat (value (digits 2 (x % 65536).toNat))).toInt16.toInt = x := by
  rw [value_digits]
  show (BitVec.ofNat 16 _).toInt = x
  rw [BitVec.toInt_ofNat']
  have hcast : (((x % 65536).toNat % Nat.pow 256 2 : Nat) : Int) = x % 65536 := by
    show (((x % 65536).toNat % 65536 : Nat) : Int) = x % 65536
    omega
  rw [hcast, show ((65536 : Int)) = ((2 ^ 16 : Nat) : Int) from rfl, Int.emod_bmod]
  exact Int.bmod_eq_of_le (by omega) (by omega)

theorem toInt32_value_digits {x : Int} (h : -2147483648 ≤ x ∧ x < 2147483648) :
    (UInt32.ofNat (value (digits 4 (x % 4294967296).toNat))).toInt32.toInt = x := by
  rw [value_digits]
  show (BitVec.ofNat 32 _).toInt = x
  rw [BitVec.toInt_ofNat']
  have hcast : (((x % 4294967296).toNat % Nat.pow 256 4 : Nat) : Int) = x % 4294967296 := by
    show (((x % 4294967296).toNat % 4294967296 : Nat) : Int) = x % 4294967296
    omega
  rw [hcast, show ((4294967296 : Int)) = ((2 ^ 32 : Nat) : Int) from rfl, Int.emod_bmod]
  exact Int.bmod_eq_of_le (by omega) (by omega)

end BigEndian

/-- A stored jump is read back. -/
theorem JumpOperand.relative_of_store {code : Array UInt8} {o : JumpOperand} {x : Int}
    (hx : o.width.Holds x)
    (h : ∀ k < o.width.bytes, code[o.position + k]? = (o.width.store x)[k]?) :
    o.relative code = .ok x := by
  obtain ⟨position, width⟩ := o
  cases width with
  | short =>
      have h0 := h 0 (show 0 < 2 by decide)
      have h1 := h 1 (show 1 < 2 by decide)
      simp only [JumpWidth.store, BigEndian.digits, List.nil_append, List.cons_append,
        Nat.add_zero, List.getElem?_cons_zero, List.getElem?_cons_succ] at h0 h1
      have hback := BigEndian.toInt16_value_digits hx
      simp only [BigEndian.digits, List.nil_append, List.cons_append] at hback
      simp only [JumpOperand.relative, Code.i16At, Code.u16At, Code.byteAt, h0, h1]
      exact congrArg Except.ok hback
  | wide =>
      have h0 := h 0 (show 0 < 4 by decide)
      have h1 := h 1 (show 1 < 4 by decide)
      have h2 := h 2 (show 2 < 4 by decide)
      have h3 := h 3 (show 3 < 4 by decide)
      simp only [JumpWidth.store, BigEndian.digits, List.nil_append, List.cons_append,
        Nat.add_zero, List.getElem?_cons_zero, List.getElem?_cons_succ] at h0 h1 h2 h3
      have hback := BigEndian.toInt32_value_digits hx
      simp only [BigEndian.digits, List.nil_append, List.cons_append] at hback
      simp only [JumpOperand.relative, Code.i32At, Code.byteAt, h0, h1, h2, h3]
      exact congrArg Except.ok hback

namespace Relocation

/-! ## §2 Writing over code -/

theorem size_overwrite (bs : Bytes) : ∀ (code : Array UInt8) (position : Nat),
    (overwrite code position bs).size = code.size := by
  induction bs with
  | nil =>
      intro code position
      rfl
  | cons b bs ih =>
      intro code position
      rw [overwrite, ih, Array.size_setIfInBounds]

theorem overwrite_outside (bs : Bytes) : ∀ (code : Array UInt8) (position k : Nat),
    k < position ∨ position + bs.length ≤ k → (overwrite code position bs)[k]? = code[k]? := by
  induction bs with
  | nil =>
      intro code position k _
      rfl
  | cons b bs ih =>
      intro code position k hk
      rw [List.length_cons] at hk
      rw [overwrite, ih _ _ _ (by omega), Array.getElem?_setIfInBounds_ne (by omega)]

theorem overwrite_inside (bs : Bytes) : ∀ (code : Array UInt8) (position k : Nat),
    k < bs.length → position + k < code.size →
      (overwrite code position bs)[position + k]? = bs[k]? := by
  induction bs with
  | nil =>
      intro code position k hk
      cases hk
  | cons b bs ih =>
      intro code position k hk hsize
      rw [overwrite]
      cases k with
      | zero =>
          rw [overwrite_outside _ _ _ _ (by omega), Nat.add_zero,
            Array.getElem?_setIfInBounds_self_of_lt (by omega)]
          rfl
      | succ k =>
          rw [List.length_cons] at hk
          have hrest := ih (code.setIfInBounds position b) (position + 1) k (by omega)
            (by rw [Array.size_setIfInBounds]; omega)
          rw [List.getElem?_cons_succ, ← hrest]
          congr 1
          omega

/-- The code with all patches written over it. -/
def patched (code : Array UInt8) (patches : List Patch) : Array UInt8 :=
  patches.foldl (fun c p => overwrite c p.position p.bytes) code

theorem size_patched (patches : List Patch) : ∀ code : Array UInt8,
    (patched code patches).size = code.size := by
  induction patches with
  | nil => exact fun code => rfl
  | cons p patches ih =>
      intro code
      show (patched (overwrite code p.position p.bytes) patches).size = code.size
      rw [ih, size_overwrite]

theorem patched_outside (patches : List Patch) : ∀ (code : Array UInt8) (k : Nat),
    (∀ p ∈ patches, k < p.position ∨ p.position + p.bytes.length ≤ k) →
      (patched code patches)[k]? = code[k]? := by
  induction patches with
  | nil => exact fun code k _ => rfl
  | cons p patches ih =>
      intro code k hk
      show (patched (overwrite code p.position p.bytes) patches)[k]? = code[k]?
      rw [ih _ _ fun q hq => hk q (List.mem_cons_of_mem p hq),
        overwrite_outside _ _ _ _ (hk p List.mem_cons_self)]

/-- Patches that lie one behind the other do not disturb each other. -/
theorem patched_inside (patches : List Patch) : ∀ code : Array UInt8,
    (patches.Pairwise fun p q => p.position + p.bytes.length ≤ q.position) →
    ∀ p ∈ patches, ∀ k < p.bytes.length, p.position + k < code.size →
      (patched code patches)[p.position + k]? = p.bytes[k]? := by
  induction patches with
  | nil =>
      intro code _ p hp
      cases hp
  | cons q patches ih =>
      intro code hpairs p hp k hk hsize
      rw [List.pairwise_cons] at hpairs
      show (patched (overwrite code q.position q.bytes) patches)[p.position + k]? = p.bytes[k]?
      rcases List.mem_cons.mp hp with rfl | hp
      · rw [patched_outside, overwrite_inside _ _ _ _ hk hsize]
        intro p' hp'
        have := hpairs.1 p' hp'
        omega
      · exact ih _ hpairs.2 p hp k hk (by rwa [size_overwrite])

/-! ## §3 The patches of an insertion -/

variable {r : Relocation} {code : Array UInt8}

/-- What is known of the patch for one operand. -/
theorem patch_ok {i : Instruction} {o : JumpOperand} {p : Patch}
    (h : r.patch code i o = .ok p) :
    ∃ relative, o.relative code = .ok relative ∧
      p.position = r.start i.offset + (o.position - i.offset) ∧
      p.bytes = o.width.store (r.target (i.offset + relative) - r.start i.offset) ∧
      (o.width = .short →
        o.width.Holds (r.target (i.offset + relative) - r.start i.offset)) := by
  obtain ⟨relative, hrelative, h⟩ := except_bind_eq_ok.mp h
  rw [mapError_eq_ok] at hrelative
  obtain ⟨position, width⟩ := o
  cases width with
  | short =>
      dsimp only at h
      split at h
      · next hfits =>
        cases except_pure_eq_ok.mp h
        exact ⟨relative, hrelative, rfl, rfl, fun _ => hfits⟩
      · exact (except_throw_eq_ok.mp h).elim
  | wide =>
      cases except_pure_eq_ok.mp h
      exact ⟨relative, hrelative, rfl, rfl, nofun⟩

theorem length_bytes_of_patch {i : Instruction} {o : JumpOperand} {p : Patch}
    (h : r.patch code i o = .ok p) : p.bytes.length = o.width.bytes := by
  obtain ⟨relative, -, -, hbytes, -⟩ := patch_ok h
  rw [hbytes, JumpWidth.length_store]

theorem patchesOf_ok {i : Instruction} {ps : List Patch} (h : r.patchesOf code i = .ok ps) :
    ∃ operands, i.Jumps code operands ∧
      List.Forall₂ (fun o p => r.patch code i o = .ok p) operands ps := by
  obtain ⟨operands, hoperands, h⟩ := except_bind_eq_ok.mp h
  rw [mapError_eq_ok] at hoperands
  exact ⟨operands, Instruction.jumpOperands_eq_ok.mp hoperands, except_mapM_eq_ok.mp h⟩

/-- The patches of an instruction lie in its new place, behind the opcode. -/
theorem bounds_of_patchesOf {i : Instruction} {ps : List Patch}
    (hdecode : Instruction.decode code i.offset = .ok i) (h : r.patchesOf code i = .ok ps) :
    ∀ p ∈ ps, r.start i.offset < p.position ∧
      p.position + p.bytes.length ≤ r.start i.offset + i.length := by
  obtain ⟨operands, hjumps, hpatches⟩ := patchesOf_ok h
  intro p hp
  obtain ⟨o, ho, hpatch⟩ := exists_left_of_forall₂ hpatches hp
  obtain ⟨hbehind, hwithin⟩ := Instruction.length_of_jumps hdecode hjumps o ho
  obtain ⟨relative, -, hposition, -, -⟩ := patch_ok hpatch
  rw [length_bytes_of_patch hpatch, hposition]
  unfold Instruction.next at hwithin
  omega

theorem pairwise_of_patchesOf {i : Instruction} {ps : List Patch}
    (hdecode : Instruction.decode code i.offset = .ok i) (h : r.patchesOf code i = .ok ps) :
    ps.Pairwise fun p q => p.position + p.bytes.length ≤ q.position := by
  obtain ⟨operands, hjumps, hpatches⟩ := patchesOf_ok h
  refine pairwise_of_forall₂ hpatches (Instruction.pairwise_of_jumps hjumps) ?_
  intro o ho o' ho' p p' hbefore hp hp'
  obtain ⟨hbehind, -⟩ := Instruction.length_of_jumps hdecode hjumps o ho
  obtain ⟨-, -, hposition, -, -⟩ := patch_ok hp
  obtain ⟨-, -, hposition', -, -⟩ := patch_ok hp'
  rw [length_bytes_of_patch hp, hposition, hposition']
  omega

/-- What lies behind stays behind. -/
theorem start_next_le {i j : Instruction} (h : i.next ≤ j.offset) :
    r.start i.offset + i.length ≤ r.start j.offset := by
  unfold Instruction.next at h
  unfold start
  split <;> split <;> omega

theorem patches_ok {is : List Instruction} {ps : List Patch} (h : r.patches code is = .ok ps) :
    ∃ pss, List.Forall₂ (fun i qs => r.patchesOf code i = .ok qs) is pss ∧ ps = pss.flatten := by
  obtain ⟨pss, hpss, h⟩ := except_bind_eq_ok.mp h
  exact ⟨pss, except_mapM_eq_ok.mp hpss, (except_pure_eq_ok.mp h).symm⟩

/-- All patches lie one behind the other. -/
theorem pairwise_of_patches {offset : Nat} {is : List Instruction} {ps : List Patch}
    (hdecodes : Decodes code offset is) (h : r.patches code is = .ok ps) :
    ps.Pairwise fun p q => p.position + p.bytes.length ≤ q.position := by
  obtain ⟨pss, hpss, rfl⟩ := patches_ok h
  rw [List.pairwise_flatten]
  constructor
  · intro qs hqs
    obtain ⟨i, hi, hpatches⟩ := exists_left_of_forall₂ hpss hqs
    exact pairwise_of_patchesOf (hdecodes.decode_of_mem hi).1 hpatches
  · refine pairwise_of_forall₂ hpss hdecodes.pairwise ?_
    intro i hi j hj qs qs' hbefore hqs hqs' p hp q hq
    have hp' := bounds_of_patchesOf (hdecodes.decode_of_mem hi).1 hqs p hp
    have hq' := bounds_of_patchesOf (hdecodes.decode_of_mem hj).1 hqs' q hq
    have := start_next_le (r := r) hbefore
    omega

end Relocation

/-! ## §4 The new code -/

namespace Insertion

/-- What lies before the insertion point stays, and the rest moves. -/
theorem start_cases (ins : Insertion) (k : Nat) :
    k < ins.position ∧ ins.relocation.start k = k ∨
      ins.position ≤ k ∧ ins.relocation.start k = k + ins.block.size := by
  unfold Relocation.start relocation
  by_cases h : k < ins.position
  · exact .inl ⟨h, if_pos h⟩
  · exact .inr ⟨Nat.not_lt.mp h, if_neg h⟩

theorem start_position (ins : Insertion) :
    ins.relocation.start ins.position = ins.position + ins.block.size := by
  have hstart := ins.start_cases ins.position
  omega

/-- What a splice that succeeds has found and done. -/
structure Spliced (ins : Insertion) (code new : Array UInt8) where
  complete : (decodeAll code).fault = none
  boundary : Decodes.Boundary code (decodeAll code).instructions ins.position
  aligned : ∀ i ∈ (decodeAll code).instructions, i.opcode.isSwitch = true →
    ins.position ≤ i.offset → ins.block.size % 4 = 0
  small : code.size + ins.block.size ≤ Body.maxCode
  patches : List Relocation.Patch
  patching : ins.relocation.patches code (decodeAll code).instructions = .ok patches
  result : new = Relocation.patched (code.extract 0 ins.position ++ ins.block ++
    code.extract ins.position code.size) patches

theorem instructions_ok {ins : Insertion} {code : Array UInt8} {is : List Instruction}
    (h : ins.instructions code = .ok is) :
    is = (decodeAll code).instructions ∧ (decodeAll code).fault = none ∧
      ∀ i ∈ is, i.opcode.isSwitch = true → ins.position ≤ i.offset → ins.block.size % 4 = 0 := by
  simp only [instructions] at h
  split at h
  · cases h
  · next hfind =>
    rw [mapError_eq_ok, Decoding.complete] at h
    split at h
    · next hfault =>
      cases h
      refine ⟨rfl, hfault, ?_⟩
      intro i hi hswitch hbehind
      have := List.find?_eq_none.mp hfind i hi
      simpa [hswitch, hbehind] using this
    · cases h

theorem splice_ok {ins : Insertion} {code new : Array UInt8} (h : ins.splice code = .ok new) :
    Nonempty (Spliced ins code new) := by
  obtain ⟨is, his, h⟩ := except_bind_eq_ok.mp h
  obtain ⟨rfl, complete, aligned⟩ := instructions_ok his
  dsimp only at h
  split at h
  · cases h
  · next hboundary =>
    split at h
    · cases h
    · next hsmall =>
      obtain ⟨patches, patching, h⟩ := except_bind_eq_ok.mp h
      refine ⟨⟨complete, ?_, aligned, Nat.not_lt.mp hsmall, patches, patching,
        (except_pure_eq_ok.mp h).symm⟩⟩
      rw [Decodes.Boundary, Classical.or_iff_not_imp_left]
      simpa using hboundary

namespace Spliced

variable {ins : Insertion} {code new : Array UInt8} (t : Spliced ins code new)
include t

theorem decodes : Decodes code 0 (decodeAll code).instructions := decodes_decodeAll t.complete

theorem position_le : ins.position ≤ code.size := by
  rcases t.boundary with h | ⟨j, hj, h⟩
  · exact Nat.le_of_eq h
  · obtain ⟨-, hpos, hfits⟩ := Instruction.decode_bounds (t.decodes.decode_of_mem hj).1
    omega

theorem size_eq : new.size = code.size + ins.block.size := by
  have := t.position_le
  rw [t.result, Relocation.size_patched]
  simp only [Array.size_append, Array.size_extract]
  omega

/-- Every patch is that of an operand, which lies within its instruction. -/
theorem exists_operand {p : Relocation.Patch} (hp : p ∈ t.patches) :
    ∃ i ∈ (decodeAll code).instructions, ∃ operands, i.Jumps code operands ∧
      ∃ o ∈ operands, i.offset < o.position ∧ o.position + o.width.bytes ≤ i.next ∧
        p.position = ins.relocation.start i.offset + (o.position - i.offset) ∧
        p.bytes.length = o.width.bytes := by
  obtain ⟨pss, hpss, hflat⟩ := Relocation.patches_ok t.patching
  rw [hflat] at hp
  obtain ⟨ps, hps, hmem⟩ := List.mem_flatten.mp hp
  obtain ⟨i, hi, hpatches⟩ := exists_left_of_forall₂ hpss hps
  obtain ⟨operands, hjumps, hoperands⟩ := Relocation.patchesOf_ok hpatches
  obtain ⟨o, ho, hpatch⟩ := exists_left_of_forall₂ hoperands hmem
  obtain ⟨hdecode, -⟩ := t.decodes.decode_of_mem hi
  obtain ⟨hbehind, hwithin⟩ := Instruction.length_of_jumps hdecode hjumps o ho
  obtain ⟨relative, -, hposition, -, -⟩ := Relocation.patch_ok hpatch
  exact ⟨i, hi, operands, hjumps, o, ho, hbehind, hwithin, hposition,
    Relocation.length_bytes_of_patch hpatch⟩

/-- Every operand has its patch. -/
theorem exists_patch {i : Instruction} (hi : i ∈ (decodeAll code).instructions)
    {operands : List JumpOperand} (hjumps : i.Jumps code operands) {o : JumpOperand}
    (ho : o ∈ operands) : ∃ p ∈ t.patches, ins.relocation.patch code i o = .ok p := by
  obtain ⟨pss, hpss, hflat⟩ := Relocation.patches_ok t.patching
  obtain ⟨ps, hps, hpatches⟩ := exists_right_of_forall₂ hpss hi
  obtain ⟨operands', hjumps', hoperands⟩ := Relocation.patchesOf_ok hpatches
  have hsame : operands' = operands := by
    have h := (Instruction.jumpOperands_eq_ok.mpr hjumps').symm.trans
      (Instruction.jumpOperands_eq_ok.mpr hjumps)
    simpa using h
  subst hsame
  obtain ⟨p, hp, hpatch⟩ := exists_right_of_forall₂ hoperands ho
  refine ⟨p, ?_, hpatch⟩
  rw [hflat]
  exact List.mem_flatten.mpr ⟨ps, hps, hp⟩

theorem size_front : (code.extract 0 ins.position).size = ins.position := by
  have hle := t.position_le
  rw [Array.size_extract]
  omega

/-- The code behind the gap before anything is patched. -/
theorem spread_start {k : Nat} (hk : k < code.size) :
    (code.extract 0 ins.position ++ ins.block ++ code.extract ins.position code.size)[
      ins.relocation.start k]? = code[k]? := by
  have hle := t.position_le
  have hfront := t.size_front
  rcases ins.start_cases k with ⟨hbefore, hstart⟩ | ⟨hbehind, hstart⟩
  · rw [hstart, Array.append_assoc, Array.getElem?_append_left (by omega),
      Array.getElem?_extract, Nat.zero_add, if_pos (by omega)]
  · rw [hstart, Array.getElem?_append_right (by rw [Array.size_append]; omega),
      Array.size_append, hfront, Array.getElem?_extract, if_pos (by omega)]
    congr 1
    omega

/-- The gap holds the block. -/
theorem block_eq {k : Nat} (hk : k < ins.block.size) :
    new[ins.position + k]? = ins.block[k]? := by
  have hfront := t.size_front
  rw [t.result, Relocation.patched_outside]
  · rw [Array.getElem?_append_left (by rw [Array.size_append]; omega),
      Array.getElem?_append_right (by omega), hfront, Nat.add_sub_cancel_left]
  · intro p hp
    obtain ⟨i, hi, operands, -, o, -, hbehind, hwithin, hposition, hlength⟩ :=
      t.exists_operand hp
    rw [hlength, hposition]
    have hapart := t.decodes.before_or_behind t.boundary hi
    have hstart := ins.start_cases i.offset
    omega

/-- **Bytes that belong to no jump move unchanged.** -/
theorem byte_eq {k : Nat} (hk : k < code.size)
    (hfree : ∀ i ∈ (decodeAll code).instructions, ¬ i.StoresJumpAt code k) :
    new[ins.relocation.start k]? = code[k]? := by
  rw [t.result, Relocation.patched_outside, t.spread_start hk]
  intro p hp
  obtain ⟨i, hi, operands, hjumps, o, ho, hbehind, hwithin, hposition, hlength⟩ :=
    t.exists_operand hp
  have hmiss : ¬ (o.position ≤ k ∧ k < o.position + o.width.bytes) := by
    rintro ⟨hle, hlt⟩
    exact hfree i hi ⟨operands, hjumps, o, ho, hle, hlt⟩
  rw [hlength, hposition]
  have hapart := t.decodes.before_or_behind t.boundary hi
  have hstart := ins.start_cases i.offset
  have hmoved := ins.start_cases k
  omega

/-- The bytes of an instruction move together. -/
theorem start_add {i : Instruction} (hi : i ∈ (decodeAll code).instructions) {k : Nat}
    (hk : k < i.length) :
    ins.relocation.start (i.offset + k) = ins.relocation.start i.offset + k := by
  have hapart := t.decodes.before_or_behind t.boundary hi
  unfold Instruction.next at hapart
  have hstart := ins.start_cases i.offset
  have hmoved := ins.start_cases (i.offset + k)
  omega

/-- Only the instruction itself stores jumps in its bytes. -/
theorem eq_of_storesJumpAt {i j : Instruction} (hi : i ∈ (decodeAll code).instructions)
    (hj : j ∈ (decodeAll code).instructions) {k : Nat} (hk : k < i.length)
    (h : j.StoresJumpAt code (i.offset + k)) : j = i := by
  obtain ⟨operands, hjumps, o, ho, hle, hlt⟩ := h
  obtain ⟨hdecode, -⟩ := t.decodes.decode_of_mem hj
  obtain ⟨hbehind, hwithin⟩ := Instruction.length_of_jumps hdecode hjumps o ho
  have hij := t.decodes.before_or_behind_start hi hj
  have hji := t.decodes.before_or_behind_start hj hi
  unfold Instruction.next at hij hji hwithin
  have hoffset : j.offset = i.offset := by omega
  have hsame := (t.decodes.decode_of_mem hi).1
  rw [← hoffset, hdecode] at hsame
  exact Except.ok.inj hsame

/-- **Every instruction is kept at its new place.** -/
theorem keptAt {i : Instruction} (hi : i ∈ (decodeAll code).instructions) :
    i.KeptAt code new (ins.relocation.start i.offset) := by
  obtain ⟨hdecode, -⟩ := t.decodes.decode_of_mem hi
  obtain ⟨-, -, hfits⟩ := Instruction.decode_bounds hdecode
  refine ⟨?_, ?_, ?_⟩
  · intro k hk hfree
    rw [← t.start_add hi hk]
    refine t.byte_eq (by omega) fun j hj hjump => ?_
    exact hfree (t.eq_of_storesJumpAt hi hj hk hjump ▸ hjump)
  · intro hswitch
    rcases ins.start_cases i.offset with ⟨-, hstart⟩ | ⟨hbehind, hstart⟩
    · rw [hstart]
    · have := t.aligned i hi hswitch hbehind
      omega
  · have hsize := t.size_eq
    have hstart := ins.start_cases i.offset
    omega

/-- The new bytes of a jump operand. -/
theorem operand_eq {i : Instruction} (hi : i ∈ (decodeAll code).instructions)
    {operands : List JumpOperand} (hjumps : i.Jumps code operands) {o : JumpOperand}
    (ho : o ∈ operands) {relative : Int} (hrelative : o.relative code = .ok relative) {k : Nat}
    (hk : k < o.width.bytes) :
    new[ins.relocation.start i.offset + (o.position - i.offset) + k]? =
      (o.width.store (ins.relocation.target (i.offset + relative) -
        ins.relocation.start i.offset))[k]? := by
  obtain ⟨p, hp, hpatch⟩ := t.exists_patch hi hjumps ho
  obtain ⟨relative', hrelative', hposition, hbytes, -⟩ := Relocation.patch_ok hpatch
  cases hrelative.symm.trans hrelative'
  obtain ⟨hdecode, -⟩ := t.decodes.decode_of_mem hi
  obtain ⟨hbehind, hwithin⟩ := Instruction.length_of_jumps hdecode hjumps o ho
  have hfits := (t.keptAt hi).fits
  unfold Instruction.next at hwithin
  rw [← hposition, ← hbytes]
  rw [t.result] at hfits ⊢
  rw [Relocation.size_patched] at hfits
  refine Relocation.patched_inside _ _
    (Relocation.pairwise_of_patches t.decodes t.patching) p hp k ?_ ?_
  · rwa [Relocation.length_bytes_of_patch hpatch]
  · rw [hposition]
    omega

/-- A jump operand has its new value. -/
theorem relative_eq {i : Instruction} (hi : i ∈ (decodeAll code).instructions)
    {operands : List JumpOperand} (hjumps : i.Jumps code operands) {o : JumpOperand}
    (ho : o ∈ operands) {relative : Int} (hrelative : o.relative code = .ok relative)
    (hholds : o.width.Holds (ins.relocation.target (i.offset + relative) -
      ins.relocation.start i.offset)) :
    JumpOperand.relative new
        { o with position := ins.relocation.start i.offset + (o.position - i.offset) } =
      .ok (ins.relocation.target (i.offset + relative) - ins.relocation.start i.offset) :=
  JumpOperand.relative_of_store hholds fun _ hk => t.operand_eq hi hjumps ho hrelative hk

end Spliced

end Insertion

/-! ## §5 Jump targets -/

theorem Instruction.targetOf_eq_ok {code : Array UInt8} {i : Instruction} {o : JumpOperand}
    {t : Nat} : i.targetOf code o = .ok t ↔ ∃ relative, o.relative code = .ok relative ∧
      (i.offset + relative : Int) = t ∧ t < code.size := by
  constructor
  · intro h
    obtain ⟨relative, hrelative, h⟩ := except_bind_eq_ok.mp h
    dsimp only at h
    split at h
    · next hinside =>
      have ht := except_pure_eq_ok.mp h
      exact ⟨relative, hrelative, by omega, by omega⟩
    · exact (except_throw_eq_ok.mp h).elim
  · rintro ⟨relative, hrelative, htarget, hinside⟩
    refine except_bind_eq_ok.mpr ⟨relative, hrelative, ?_⟩
    dsimp only
    rw [if_pos (by omega), except_pure_eq_ok]
    omega

/-- The instruction at its new place. -/
def Relocation.instruction (r : Relocation) (i : Instruction) : Instruction :=
  { i with offset := r.start i.offset }

theorem Relocation.start_le (r : Relocation) (offset : Nat) :
    r.start offset ≤ offset + r.length := by
  unfold start
  split <;> omega

/-- An offset of sixteen bits that has room to move is not cut off. -/
theorem Relocation.toNat_start16 (r : Relocation) {offset : UInt16}
    (h : offset.toNat + r.length < 65536) : (r.start16 offset).toNat = r.start offset.toNat :=
  UInt16.toNat_ofNat_of_lt' (Nat.lt_of_le_of_lt (r.start_le _) h)

theorem Relocation.target_ofNat (r : Relocation) (t : Nat) : r.target t = r.start t := by
  unfold target start
  split <;> split <;> omega

namespace Insertion.Spliced

variable {ins : Insertion} {code new : Array UInt8} (t : Spliced ins code new)
include t

/-- The instruction is decoded at its new place. -/
theorem decode_moved {i : Instruction} (hi : i ∈ (decodeAll code).instructions) :
    Instruction.decode new (ins.relocation.start i.offset) =
      .ok (ins.relocation.instruction i) :=
  (t.keptAt hi).decode_eq (t.decodes.decode_of_mem hi).1

/-- The new value of a jump fits.  For a short one this was checked. -/
theorem holds {i : Instruction} (hi : i ∈ (decodeAll code).instructions)
    {operands : List JumpOperand} (hjumps : i.Jumps code operands) {o : JumpOperand}
    (ho : o ∈ operands) {target : Nat} (htarget : i.targetOf code o = .ok target) :
    o.width.Holds (ins.relocation.start target - ins.relocation.start i.offset) := by
  obtain ⟨relative, hrelative, hsum, hinside⟩ := Instruction.targetOf_eq_ok.mp htarget
  cases hwidth : o.width with
  | short =>
      obtain ⟨p, -, hpatch⟩ := t.exists_patch hi hjumps ho
      obtain ⟨relative', hrelative', -, -, hchecked⟩ := Relocation.patch_ok hpatch
      cases hrelative.symm.trans hrelative'
      rw [hsum, Relocation.target_ofNat] at hchecked
      exact hwidth ▸ hchecked hwidth
  | wide =>
      obtain ⟨-, hpos, hfits⟩ := Instruction.decode_bounds (t.decodes.decode_of_mem hi).1
      have hsmall := t.small
      have hstart := ins.start_cases i.offset
      have hgoal := ins.start_cases target
      unfold Body.maxCode at hsmall
      unfold JumpWidth.Holds
      omega

/-- **Jumps lead to where their old targets went.** -/
theorem jumpTargets_eq {i : Instruction} (hi : i ∈ (decodeAll code).instructions)
    {targets : List Nat} (h : i.jumpTargets code = .ok targets) :
    (ins.relocation.instruction i).jumpTargets new =
      .ok (targets.map ins.relocation.start) := by
  obtain ⟨operands, hoperands, h⟩ := except_bind_eq_ok.mp h
  have hjumps := Instruction.jumpOperands_eq_ok.mp hoperands
  obtain ⟨hdecode, -⟩ := t.decodes.decode_of_mem hi
  have hmoved := (t.keptAt hi).jumps hdecode hjumps
  refine except_bind_eq_ok.mpr ⟨_, Instruction.jumpOperands_eq_ok.mpr hmoved, ?_⟩
  rw [except_mapM_eq_ok, List.forall₂_map_left_iff, List.forall₂_map_right_iff]
  have htargets := except_mapM_eq_ok.mp h
  rw [List.forall₂_iff_zip] at htargets ⊢
  refine ⟨htargets.1, fun {o target} hmem => ?_⟩
  have ho : o ∈ operands := (List.of_mem_zip hmem).1
  have hholds := t.holds hi hjumps ho (htargets.2 hmem)
  obtain ⟨relative, hrelative, hsum, hinside⟩ :=
    Instruction.targetOf_eq_ok.mp (htargets.2 hmem)
  rw [← Relocation.target_ofNat, ← hsum] at hholds
  refine Instruction.targetOf_eq_ok.mpr ⟨_, t.relative_eq hi hjumps ho hrelative hholds, ?_, ?_⟩
  · rw [hsum, Relocation.target_ofNat]
    show (ins.relocation.start i.offset : Int) + _ = _
    omega
  · have hsize := t.size_eq
    have hgoal := ins.start_cases target
    omega

end Insertion.Spliced

/-! ## §6 The whole insertion -/

namespace Insertion

/-- **Insertion preserves control flow.**  Let every jump lead into the code; that the code
decodes to its end need not be asked for, since no insertion succeeds otherwise.  If the insertion
succeeds, the block stands at its position, every byte that belongs to no jump operand has moved
unchanged, and every instruction is found at its new place, with the same length, the same bytes
besides its jumps, and with its targets moved one by one; so nothing outside the block leads into
it.  A short branch that could not reach its target any more makes the insertion fail. -/
theorem insertion_preserves_flow (ins : Insertion) (entry : List VerificationType) (body : Body)
    (pool : Pool) (closed : ∀ i ∈ (decodeAll body.code).instructions,
      ∃ targets, i.jumpTargets body.code = .ok targets) :
    (∀ edit, ins.run entry ⟨body, pool⟩ = .ok () edit →
      edit.body.code.size = body.code.size + ins.block.size ∧
      (∀ k < ins.block.size, edit.body.code[ins.position + k]? = ins.block[k]?) ∧
      (∀ k < body.code.size,
        (∀ i ∈ (decodeAll body.code).instructions, ¬ i.StoresJumpAt body.code k) →
        edit.body.code[ins.relocation.start k]? = body.code[k]?) ∧
      ∀ i ∈ (decodeAll body.code).instructions,
        Instruction.decode edit.body.code (ins.relocation.start i.offset) =
          .ok (ins.relocation.instruction i) ∧
        (∀ k < i.length, ¬ i.StoresJumpAt body.code (i.offset + k) →
          edit.body.code[ins.relocation.start i.offset + k]? = body.code[i.offset + k]?) ∧
        ∃ targets, i.jumpTargets body.code = .ok targets ∧
          (ins.relocation.instruction i).jumpTargets edit.body.code =
            .ok (targets.map ins.relocation.start) ∧
          ∀ t ∈ targets.map ins.relocation.start,
            t < ins.position ∨ ins.position + ins.block.size ≤ t) ∧
    (∀ i ∈ (decodeAll body.code).instructions, i.opcode.isShortBranch = true →
      ∀ t, i.jumpTargets body.code = .ok [t] →
        ¬ JumpWidth.short.Holds (ins.relocation.start t - ins.relocation.start i.offset) →
        ∃ e edit, ins.run entry ⟨body, pool⟩ = .error e edit) := by
  constructor
  · intro edit hrun
    obtain ⟨t⟩ := splice_ok (run_ok hrun).1
    refine ⟨t.size_eq, fun k hk => t.block_eq hk, fun k hk hfree => t.byte_eq hk hfree, ?_⟩
    intro i hi
    refine ⟨t.decode_moved hi, (t.keptAt hi).bytes, ?_⟩
    obtain ⟨targets, htargets⟩ := closed i hi
    refine ⟨targets, htargets, t.jumpTargets_eq hi htargets, ?_⟩
    intro target htarget
    obtain ⟨old, -, rfl⟩ := List.mem_map.mp htarget
    have hstart := ins.start_cases old
    omega
  · intro i hi hshort target htargets hfar
    cases hrun : ins.run entry ⟨body, pool⟩ with
    | error e edit => exact ⟨e, edit, rfl⟩
    | ok u edit =>
        exfalso
        obtain ⟨t⟩ := splice_ok (run_ok hrun).1
        have hjumps : i.Jumps body.code [⟨i.offset + 1, .short⟩] := .short hshort
        obtain ⟨operands, hoperands, htargets⟩ := except_bind_eq_ok.mp htargets
        cases (Instruction.jumpOperands_eq_ok.mpr hjumps).symm.trans hoperands
        have hrow := except_mapM_eq_ok.mp htargets
        obtain ⟨htarget, -⟩ := List.forall₂_cons.mp hrow
        exact hfar (t.holds hi hjumps (List.mem_singleton_self _) htarget)

/-- A table switch with one case, a jump back to the start and a return. -/
def switchBody : Body :=
  ⟨1, 2, #[0x1b, 0xaa, 0, 0, 0, 0, 0, 22, 0, 0, 0, 0, 0, 0, 0, 0, 0, 0, 0, 19, 0xa7, 0xff, 0xec,
    0xb1], [], []⟩

/-- Four operations that do nothing, before the switch. -/
def beforeSwitch : Insertion := ⟨1, #[0, 0, 0, 0], none⟩

theorem insertion_preserves_flow_switchBody :
    (∀ i ∈ (decodeAll switchBody.code).instructions,
      ∃ targets, i.jumpTargets switchBody.code = .ok targets) ∧
    ∃ edit, beforeSwitch.run [] ⟨switchBody, .empty⟩ = .ok () edit ∧
      ∀ i ∈ (decodeAll switchBody.code).instructions,
        ∃ targets, i.jumpTargets switchBody.code = .ok targets ∧
          (beforeSwitch.relocation.instruction i).jumpTargets edit.body.code =
            .ok (targets.map beforeSwitch.relocation.start) := by
  have closed : ∀ i ∈ (decodeAll switchBody.code).instructions,
      ∃ targets, i.jumpTargets switchBody.code = .ok targets := by
    intro i hi
    have hall : ((decodeAll switchBody.code).instructions.all fun i =>
        (i.jumpTargets switchBody.code).toOption.isSome) = true := by decide +kernel
    have hsome := List.all_eq_true.mp hall i hi
    cases htargets : i.jumpTargets switchBody.code with
    | ok targets => exact ⟨targets, rfl⟩
    | error e => simp [htargets, Except.toOption] at hsome
  refine ⟨closed, ?_⟩
  cases hrun : beforeSwitch.run [] ⟨switchBody, .empty⟩ with
  | ok u edit =>
      refine ⟨edit, rfl, fun i hi => ?_⟩
      obtain ⟨-, -, -, hmoved⟩ :=
        (insertion_preserves_flow beforeSwitch [] switchBody .empty closed).1 edit hrun
      obtain ⟨-, -, targets, htargets, hnew, -⟩ := hmoved i hi
      exact ⟨targets, htargets, hnew⟩
  | error e edit =>
      have hok : (match beforeSwitch.run [] ⟨switchBody, .empty⟩ with
        | .ok _ _ => true
        | .error _ _ => false) = true := by decide +kernel
      simp [hrun] at hok

end Insertion

end Reshape
