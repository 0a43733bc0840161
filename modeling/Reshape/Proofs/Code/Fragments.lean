import Reshape.Code.Fragment
import Reshape.Proofs.Code.Path
import Reshape.Proofs.Code.Relocation

/-!
# The bytes of fragments

Every operation on a fragment adds bytes at its end, but for the patching of a branch, which writes
the distance to the target over the operand of that branch.
-/

namespace Reshape

theorem PlainRow.nops (n : Nat) :
    PlainRow (List.replicate n Opcode.nop.byte) (List.replicate n .nop) := by
  induction n with
  | zero => exact .nil
  | succ n ih => exact .cons [] rfl rfl ih

namespace Fragment

variable (opcode : Opcode) (f : Fragment)

theorem toList_op : (f.op opcode).code.toList = f.code.toList ++ [opcode.byte] :=
  Array.toList_push

theorem toList_op8 (operand : UInt8) :
    (f.op8 opcode operand).code.toList = f.code.toList ++ [opcode.byte, operand] := by
  simp [op8]

theorem toList_op16 (operand : UInt16) :
    (f.op16 opcode operand).code.toList =
      f.code.toList ++ (opcode.byte :: BigEndian.u16 operand) := by
  simp [op16]

theorem toList_fillTo (size : Nat) :
    (f.fillTo size).code.toList =
      f.code.toList ++ List.replicate (size - f.size) Opcode.nop.byte := by
  simp [fillTo, Fragment.size]

theorem size_of_append {f g : Fragment} {bytes : Bytes}
    (h : g.code.toList = f.code.toList ++ bytes) : g.size = f.size + bytes.length := by
  have hlength := congrArg List.length h
  rwa [List.length_append, Array.length_toList, Array.length_toList] at hlength

/-- What was in the fragment is where it was. -/
theorem getElem?_of_append {f g : Fragment} {bytes : Bytes}
    (h : g.code.toList = f.code.toList ++ bytes) {k : Nat} (hk : k < f.size) :
    g.code[k]? = f.code[k]? := by
  rw [← Array.getElem?_toList, h, List.getElem?_append_left hk, Array.getElem?_toList]

theorem size_branch : (f.branch opcode).size = f.size + 3 := by
  rw [branch, size_of_append (toList_op16 opcode f 0), List.length_cons, BigEndian.length_u16]

/-- The integers that opcodes of their own push. -/
def constants : List (Opcode × Int) :=
  [(.iconstM1, -1), (.iconst0, 0), (.iconst1, 1), (.iconst2, 2), (.iconst3, 3), (.iconst4, 4),
    (.iconst5, 5)]

/-- The forms in which an integer is pushed. -/
inductive Pushes (value : Int32) (f : Fragment) (p : Pool) : Fragment → Pool → Prop
  | constant {opcode : Opcode} (told : (opcode, value.toInt) ∈ constants) :
      Pushes value f p (f.op opcode) p
  | byte (small : -128 ≤ value.toInt ∧ value.toInt < 128) :
      Pushes value f p (f.op8 .bipush value.toUInt32.toUInt8) p
  | word (small : -32768 ≤ value.toInt ∧ value.toInt < 32768) :
      Pushes value f p (f.op16 .sipush value.toUInt32.toUInt16) p
  | pooled {index : UInt16} {q : Pool} (interned : Pool.addInteger value p = .ok index q)
      (small : index < 256) : Pushes value f p (f.op8 .ldc index.toUInt8) q
  | pooledFar {index : UInt16} {q : Pool} (interned : Pool.addInteger value p = .ok index q) :
      Pushes value f p (f.op16 .ldcW index) q

theorem pushes_of_pushInt {f g : Fragment} {value : Int32} {p q : Pool}
    (h : f.pushInt value p = .ok g q) : Pushes value f p g q := by
  unfold pushInt at h
  iterate 7
    obtain ⟨hconstant, h⟩ | ⟨-, h⟩ := state_ite_eq_ok.mp h
    · obtain ⟨rfl, rfl⟩ := state_pure_eq_ok.mp h
      exact .constant (by rw [hconstant]; decide)
  obtain ⟨hsmall, h⟩ | ⟨-, h⟩ := state_ite_eq_ok.mp h
  · obtain ⟨rfl, rfl⟩ := state_pure_eq_ok.mp h
    exact .byte hsmall
  obtain ⟨hsmall, h⟩ | ⟨-, h⟩ := state_ite_eq_ok.mp h
  · obtain ⟨rfl, rfl⟩ := state_pure_eq_ok.mp h
    exact .word hsmall
  obtain ⟨index, p₁, hindex, h⟩ := state_bind_eq_ok.mp h
  obtain ⟨rfl, rfl⟩ := state_pure_eq_ok.mp h
  by_cases hsmall : index < 256
  · rw [if_pos hsmall]
    exact .pooled hindex hsmall
  · rw [if_neg hsmall]
    exact .pooledFar hindex

/-- From any size on there is a multiple of the alignment before the alignment is reached again. -/
theorem alignedSize_bounds {size alignment : Nat} (h : 0 < alignment) :
    size ≤ alignedSize size alignment ∧ alignedSize size alignment < size + alignment ∧
      alignedSize size alignment % alignment = 0 := by
  have hle := Nat.div_mul_le_self (size + alignment - 1) alignment
  have hlt : size + alignment - 1 < (size + alignment - 1) / alignment * alignment + alignment :=
    Nat.lt_div_mul_add h
  unfold alignedSize
  refine ⟨?_, ?_, Nat.mul_mod_left _ _⟩
  · omega
  · omega

/-- How far a branch at a position jumps to get to a target. -/
def distance (position target : Nat) : Int := signedOffset target - signedOffset position

/-- Before the middle of the address space offsets are what they seem. -/
theorem distance_eq {position target : Nat} (hposition : position < 0x8000000000000000)
    (htarget : target < 0x8000000000000000) : distance position target = target - position := by
  rw [distance, signedOffset, signedOffset, if_pos htarget, if_pos hposition]

/-- **A branch is patched** if its target is near and it is there, and only its operand changes. -/
theorem patch_eq_ok {f g : Fragment} {position target : Nat} :
    f.patch position target = .ok g ↔
      JumpWidth.short.Holds (distance position target) ∧ position + 3 ≤ f.code.size ∧
        g.code = Relocation.overwrite f.code (position + 1)
          (JumpWidth.short.store (distance position target)) := by
  unfold patch distance
  dsimp only
  constructor
  · intro h
    split at h
    · next hnear =>
      split at h
      · next hthere =>
        cases h
        exact ⟨hnear, hthere, rfl⟩
      · cases h
    · cases h
  · rintro ⟨hnear, hthere, hcode⟩
    have hnear' : -32768 ≤ signedOffset target - signedOffset position ∧
      signedOffset target - signedOffset position < 32768 := hnear
    rw [if_pos hnear', if_pos hthere]
    exact congrArg Except.ok (congrArg Fragment.mk hcode.symm)

section Patch

variable {f g : Fragment} {position target : Nat}

theorem size_of_patch (h : f.patch position target = .ok g) : g.size = f.size := by
  obtain ⟨-, -, hcode⟩ := patch_eq_ok.mp h
  rw [size, hcode, Relocation.size_overwrite, size]

theorem patch_outside (h : f.patch position target = .ok g) {k : Nat}
    (hk : k ≤ position ∨ position + 3 ≤ k) : g.code[k]? = f.code[k]? := by
  obtain ⟨-, -, hcode⟩ := patch_eq_ok.mp h
  rw [hcode, Relocation.overwrite_outside]
  rw [JumpWidth.length_store, JumpWidth.bytes]
  omega

theorem patch_inside (h : f.patch position target = .ok g) {k : Nat} (hk : k < 2) :
    g.code[position + 1 + k]? = (JumpWidth.short.store (distance position target))[k]? := by
  obtain ⟨-, hthere, hcode⟩ := patch_eq_ok.mp h
  rw [hcode, Relocation.overwrite_inside]
  · rwa [JumpWidth.length_store]
  · omega

end Patch

end Fragment

end Reshape
