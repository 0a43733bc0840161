import Reshape.Proofs.Code.Fragments
import Reshape.Proofs.Host.Machine

/-!
# What single instructions say

Constants and local variables are told by instructions in several forms, short ones where there are
any.  Whatever form a fragment chooses, it has one more instruction at its end, and wherever the code
comes to stand this instruction says the integer or the variable that was asked for.
-/

namespace Reshape.Host

/-! ## §1 Reading one instruction -/

/-- The integer that an instruction pushes, from its opcode, from its operand or from the pool. -/
def integer? (pool : Pool) (code : Array UInt8) (i : Instruction) : Option Int32 :=
  match pushed? i.opcode with
  | some (.number (.integer n)) => some n
  | some _ => none
  | none => loaded? pool code i

/-- The local variable that an instruction loads a reference from: told by the opcode, by one byte
behind it, or by two bytes if the operation is widened. -/
def local? (code : Array UInt8) (i : Instruction) : Option UInt16 :=
  match i.opcode with
  | .aload0 => some 0
  | .aload1 => some 1
  | .aload2 => some 2
  | .aload3 => some 3
  | .aload => (Code.byteAt code (i.offset + 1)).toOption.map UInt8.toUInt16
  | .wide => do
    let inner ← (Code.byteAt code (i.offset + 1)).toOption
    if inner = Opcode.aload.byte then (Code.u16At code (i.offset + 2)).toOption else none
  | _ => none

/-- An instruction that pushes an integer does nothing else. -/
theorem act_of_integer? {pool : Pool} {storage : MemberRef} {code : Array UInt8} {i : Instruction}
    {value : Int32} (h : integer? pool code i = some value) (s : List Operand) (o : Object) :
    i.opcode ≠ .ifNonNull ∧
      act pool storage code i s o = some (.number (.integer value) :: s, o) := by
  constructor
  · intro hop
    simp [integer?, loaded?, pushed?, hop] at h
  · unfold integer? at h
    unfold act
    split at h
    · next n hpushed =>
      cases h
      rw [hpushed]
    · cases h
    · next hpushed => rw [hpushed, h]

/-! ## §2 One more instruction -/

/-- Wherever these bytes stand, they are one instruction that has the property. -/
def Single (bytes : Bytes) (P : Array UInt8 → Instruction → Prop) : Prop :=
  ∀ code offset, Code.Holds code offset bytes →
    ∃ i, Instruction.decode code offset = .ok i ∧ i.length = bytes.length ∧ P code i

/-- The second fragment is the first with one more instruction of at most `n` bytes, which has the
property. -/
def Adds (f g : Fragment) (n : Nat) (P : Array UInt8 → Instruction → Prop) : Prop :=
  ∃ bytes, g.code.toList = f.code.toList ++ bytes ∧ bytes.length ≤ n ∧ Single bytes P

/-- The short form of an integer is read with its sign. -/
theorem toInt32_ofByte {value : Int32} (small : -128 ≤ value.toInt ∧ value.toInt < 128) :
    value.toUInt32.toUInt8.toInt8.toInt32 = value := by
  have hlow : value.toUInt32.toUInt8.toInt8 = value.toInt8 :=
    Int8.toBitVec_inj.mp (by simp [BitVec.signExtend_eq_setWidth_of_le])
  rw [hlow, ← Int32.toInt_inj, Int8.toInt_toInt32, Int32.toInt_toInt8]
  exact Int.bmod_eq_of_le (by omega) (by omega)

theorem ofInt_ofWord {value : Int32} (small : -32768 ≤ value.toInt ∧ value.toInt < 32768) :
    Int32.ofInt value.toUInt32.toUInt16.toInt16.toInt = value := by
  have hlow : value.toUInt32.toUInt16.toInt16 = value.toInt16 :=
    Int16.toBitVec_inj.mp (by simp [BitVec.signExtend_eq_setWidth_of_le])
  rw [hlow, Int32.toInt_toInt16, Int.bmod_eq_of_le (by omega) (by omega), Int32.ofInt_toInt]

/-- A small index is told by its low byte. -/
theorem toUInt16_ofByte {index : UInt16} (small : index < 256) :
    index.toUInt8.toUInt16 = index := by
  have hlt : index.toNat < 256 := small
  rw [← UInt16.toNat_inj, UInt8.toNat_toUInt16, UInt16.toNat_toUInt8]
  exact Nat.mod_eq_of_lt hlt

namespace Adds

variable {f g : Fragment} {m n : Nat} {opcode : Opcode} {P Q : Array UInt8 → Instruction → Prop}
  {pool p q : Pool}

theorem mono (h : Adds f g m P) (hmn : m ≤ n) : Adds f g n P := by
  obtain ⟨bytes, hbytes, hle, hsingle⟩ := h
  exact ⟨bytes, hbytes, Nat.le_trans hle hmn, hsingle⟩

theorem imp (h : Adds f g n P) (hPQ : ∀ code i, P code i → Q code i) : Adds f g n Q := by
  obtain ⟨bytes, hbytes, hle, hsingle⟩ := h
  refine ⟨bytes, hbytes, hle, fun code offset holds => ?_⟩
  obtain ⟨i, hdecode, hlength, hi⟩ := hsingle code offset holds
  exact ⟨i, hdecode, hlength, hPQ code i hi⟩

theorem op (sized : opcode.size? = some 1) (shows : ∀ code offset, P code ⟨offset, opcode, 1⟩) :
    Adds f (f.op opcode) 1 P :=
  ⟨[opcode.byte], f.toList_op opcode, Nat.le_refl 1, fun code offset holds =>
    ⟨_, holds.decode_eq sized, rfl, shows code offset⟩⟩

theorem op8 (sized : opcode.size? = some 2) {operand : UInt8}
    (shows : ∀ code offset, Code.byteAt code (offset + 1) = .ok operand →
      P code ⟨offset, opcode, 2⟩) : Adds f (f.op8 opcode operand) 2 P :=
  ⟨[opcode.byte, operand], f.toList_op8 opcode operand, Nat.le_refl 2, fun code offset holds =>
    ⟨_, holds.decode_eq sized, rfl, shows code offset holds.byteAt_eq⟩⟩

theorem op16 (sized : opcode.size? = some 3) {operand : UInt16}
    (shows : ∀ code offset, Code.u16At code (offset + 1) = .ok operand →
      P code ⟨offset, opcode, 3⟩) : Adds f (f.op16 opcode operand) 3 P := by
  have hlength : (opcode.byte :: BigEndian.u16 operand).length = 3 := by
    rw [List.length_cons, BigEndian.length_u16]
  refine ⟨opcode.byte :: BigEndian.u16 operand, f.toList_op16 opcode operand,
    Nat.le_of_eq hlength, ?_⟩
  intro code offset holds
  have hdecode := holds.decode_eq (by rw [BigEndian.length_u16, sized])
  rw [BigEndian.length_u16] at hdecode
  exact ⟨_, hdecode, hlength.symm, shows code offset holds.u16At_eq⟩

/-- A reference that is loaded from a local variable beyond the first 256. -/
theorem wide {index : UInt16} :
    Adds f ((f.op .wide).op16 .aload index) 4 fun code i => local? code i = some index := by
  have hlength : (Opcode.wide.byte :: Opcode.aload.byte :: BigEndian.u16 index).length = 4 := by
    rw [List.length_cons, List.length_cons, BigEndian.length_u16]
  refine ⟨Opcode.wide.byte :: Opcode.aload.byte :: BigEndian.u16 index, ?_,
    Nat.le_of_eq hlength, ?_⟩
  · rw [Fragment.toList_op16, Fragment.toList_op, List.append_assoc, List.singleton_append]
  · intro code offset holds
    have hfirst := holds 0 (Nat.succ_pos _)
    have hinner : Code.byteAt code (offset + 1) = .ok Opcode.aload.byte :=
      Code.byteAt_eq_ok.mpr (holds 1 (by simp))
    have hindex : Code.u16At code (offset + 2) = .ok index :=
      Code.Holds.u16At_eq (@Code.Holds.right code offset [Opcode.wide.byte] _ holds)
    refine ⟨⟨offset, .wide, 4⟩, ?_, hlength.symm, ?_⟩
    · refine Instruction.decode_eq_ok.mpr ⟨_, hfirst, Opcode.ofByte?_byte .wide, ?_, rfl, ?_⟩
      · exact except_bind_eq_ok.mpr ⟨_, hinner, rfl⟩
      · have hle := holds.length_le
        rwa [← List.length_cons, hlength] at hle
    · simp [local?, hinner, hindex, Except.toOption]

/-- **Every local variable is loaded**, in whatever form. -/
theorem aload (index : UInt16) :
    Adds f (f.aload index) 4 fun code i => local? code i = some index := by
  unfold Fragment.aload
  iterate 4
    split
    · next h => exact mono (op rfl fun _ _ => congrArg some h.symm) (by decide)
  split
  · next h =>
    refine mono (op8 rfl fun code offset hoperand => ?_) (by decide)
    simp [local?, hoperand, Except.toOption, toUInt16_ofByte h]
  · exact wide

theorem pushed_of_constants : ∀ c ∈ Fragment.constants,
    c.1.size? = some 1 ∧ pushed? c.1 = some (.number (.integer (Int32.ofInt c.2))) := by
  decide

/-- **Every integer is pushed**, in whatever form. -/
theorem pushInt {value : Int32} (hp : p.Addressable) (hpool : Pool.Growth q pool)
    (h : f.pushInt value p = .ok g q) :
    Adds f g 3 fun code i => integer? pool code i = some value := by
  cases Fragment.pushes_of_pushInt h with
  | constant told =>
      obtain ⟨sized, hpushed⟩ := pushed_of_constants _ told
      rw [Int32.ofInt_toInt] at hpushed
      refine mono (op sized fun code offset => ?_) (by decide)
      simp only [integer?, hpushed]
  | byte small =>
      refine mono (op8 rfl fun code offset hoperand => ?_) (by decide)
      simp [integer?, pushed?, loaded?, hoperand, Except.toOption, toInt32_ofByte small]
  | word small =>
      refine op16 rfl fun code offset hoperand => ?_
      simp [integer?, pushed?, loaded?, Code.i16At, hoperand, bind, Except.bind, pure,
        Except.pure, Except.toOption, ofInt_ofWord small]
  | pooled interned small =>
      have hinteger := hpool.integer (Pool.integer_of_addInteger hp interned)
      refine mono (op8 rfl fun code offset hoperand => ?_) (by decide)
      simp [integer?, pushed?, loaded?, hoperand, toUInt16_ofByte small, hinteger,
        Except.toOption]
  | pooledFar interned =>
      have hinteger := hpool.integer (Pool.integer_of_addInteger hp interned)
      refine op16 rfl fun code offset hoperand => ?_
      simp [integer?, pushed?, loaded?, hoperand, hinteger, Except.toOption]

end Adds

end Reshape.Host
