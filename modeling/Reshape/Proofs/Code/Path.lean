import Reshape.Proofs.Code.Decoding

/-!
# Paths through code

A path follows control from an offset until a normal return: from each instruction it goes on to
the next one or along a jump.  In a stretch of plain operations there is no choice, so a path that
enters such a stretch runs through all of it.
-/

namespace Reshape

/-! ## §1 Paths -/

def Opcode.isReturn : Opcode → Bool
  | .ireturn | .lreturn | .freturn | .dreturn | .areturn | .returnVoid => true
  | _ => false

theorem Opcode.endsFlow_of_isReturn {op : Opcode} (h : op.isReturn = true) :
    op.endsFlow = true := by
  cases op <;> first | rfl | exact nomatch h

/-- Where control can go from an instruction. -/
inductive Instruction.Leads (code : Array UInt8) (i : Instruction) : Nat → Prop
  | falls (passes : i.opcode.endsFlow = false) : Leads code i i.next
  | jumps {targets : List Nat} {target : Nat} (known : i.jumpTargets code = .ok targets)
      (mem : target ∈ targets) : Leads code i target

/-- The instructions that are executed from an offset on until a normal return. -/
inductive Code.Path (code : Array UInt8) : Nat → List Instruction → Prop
  | returns {offset : Nat} {i : Instruction} (decoded : Instruction.decode code offset = .ok i)
      (isReturn : i.opcode.isReturn = true) : Code.Path code offset [i]
  | step {offset next : Nat} {i : Instruction} {rest : List Instruction}
      (decoded : Instruction.decode code offset = .ok i) (leads : i.Leads code next)
      (behind : Code.Path code next rest) : Code.Path code offset (i :: rest)

namespace Code.Path

variable {code : Array UInt8} {offset : Nat} {path : List Instruction}

/-- A path starts with the instruction at its offset. -/
theorem exists_cons (h : Code.Path code offset path) :
    ∃ i rest, path = i :: rest ∧ Instruction.decode code offset = .ok i ∧ i.offset = offset := by
  cases h with
  | returns decoded _ => exact ⟨_, _, rfl, decoded, (Instruction.decode_bounds decoded).1⟩
  | step decoded _ _ => exact ⟨_, _, rfl, decoded, (Instruction.decode_bounds decoded).1⟩

/-- What follows an instruction on a path is a path from where the instruction leads. -/
theorem behind_of_mem (h : Code.Path code offset path) {i : Instruction} (hi : i ∈ path)
    (hpasses : i.opcode.isReturn = false) :
    ∃ before next rest, path = before ++ i :: rest ∧ i.Leads code next ∧
      Code.Path code next rest := by
  induction h with
  | @returns offset j decoded isReturn =>
      rw [List.mem_singleton] at hi
      subst hi
      rw [hpasses] at isReturn
      cases isReturn
  | @step offset next j rest decoded leads behind ih =>
      rcases List.mem_cons.mp hi with rfl | hi
      · exact ⟨[], next, rest, rfl, leads, behind⟩
      · obtain ⟨before, next', rest', hrest, hleads, hpath⟩ := ih hi
        exact ⟨j :: before, next', rest', by rw [hrest, List.cons_append], hleads, hpath⟩

end Code.Path

/-! ## §2 Operations at a place -/

theorem Opcode.ofByte?_byte (op : Opcode) : Opcode.ofByte? op.byte = some op := by
  cases op <;> decide +kernel

/-- From the offset on the code consists of the given bytes. -/
def Code.Holds (code : Array UInt8) (offset : Nat) (bytes : Bytes) : Prop :=
  ∀ k < bytes.length, code[offset + k]? = bytes[k]?

namespace Code.Holds

variable {code : Array UInt8} {offset : Nat} {bs cs : Bytes}

/-- Code consists of its own bytes. -/
theorem self (code : Array UInt8) : Code.Holds code 0 code.toList := by
  intro k _
  rw [Nat.zero_add, Array.getElem?_toList]

theorem left (h : Code.Holds code offset (bs ++ cs)) : Code.Holds code offset bs := by
  intro k hk
  rw [h k (by rw [List.length_append]; omega), List.getElem?_append_left hk]

theorem right (h : Code.Holds code offset (bs ++ cs)) :
    Code.Holds code (offset + bs.length) cs := by
  intro k hk
  rw [Nat.add_assoc, h (bs.length + k) (by rw [List.length_append]; omega),
    List.getElem?_append_right (Nat.le_add_right _ _), Nat.add_sub_cancel_left]

/-- The bytes end within the code. -/
theorem length_le {b : UInt8} (h : Code.Holds code offset (b :: bs)) :
    offset + (bs.length + 1) ≤ code.size := by
  have hlast := h bs.length (by simp)
  have hsome : (b :: bs)[bs.length]? ≠ none := by simp
  rw [← hlast] at hsome
  have hlt := Array.getElem?_eq_none_iff.not.mp hsome
  omega

/-- An operation of fixed size is decoded where its bytes are. -/
theorem decode_eq {op : Opcode} (h : Code.Holds code offset (op.byte :: bs))
    (sized : op.size? = some (bs.length + 1)) :
    Instruction.decode code offset = .ok ⟨offset, op, bs.length + 1⟩ := by
  refine Instruction.decode_eq_ok.mpr ⟨op.byte, ?_, Opcode.ofByte?_byte op, ?_, rfl, h.length_le⟩
  · have hfirst := h 0 (by simp)
    rwa [Nat.add_zero] at hfirst
  · simp only [Instruction.announcedLength, sized]
    rfl

/-- The operand of one byte. -/
theorem byteAt_eq {b operand : UInt8} (h : Code.Holds code offset [b, operand]) :
    Code.byteAt code (offset + 1) = .ok operand :=
  Code.byteAt_eq_ok.mpr (h 1 (by simp))

/-- The operand of two bytes. -/
theorem u16At_eq {b : UInt8} {operand : UInt16}
    (h : Code.Holds code offset (b :: BigEndian.u16 operand)) :
    Code.u16At code (offset + 1) = .ok operand := by
  have hback := BigEndian.value_u16 operand
  rw [BigEndian.u16, BigEndian.digits, BigEndian.digits, BigEndian.digits, List.nil_append,
    List.singleton_append] at h hback
  have hhigh := Code.byteAt_eq_ok.mpr (h 1 (by simp))
  have hlow := Code.byteAt_eq_ok.mpr (h 2 (by simp))
  refine except_bind_eq_ok.mpr ⟨_, hhigh, except_bind_eq_ok.mpr ⟨_, hlow, ?_⟩⟩
  rw [hback, UInt16.ofNat_toNat]
  rfl

end Code.Holds

/-! ## §3 Plain rows -/

/-- An operation of fixed size that can only be followed by the next one, and that neither creates
an object nor calls a constructor. -/
def Opcode.isPlain (op : Opcode) : Bool :=
  op.size?.isSome && !op.isShortBranch && !op.isWideBranch && !op.endsFlow &&
    op != .newObject && op != .invokeSpecial

/-- The bytes of plain operations one behind the other, each with its operands. -/
inductive PlainRow : Bytes → List Opcode → Prop
  | nil : PlainRow [] []
  | cons {op : Opcode} {bytes : Bytes} {ops : List Opcode} (operands : Bytes)
      (plain : op.isPlain = true) (sized : op.size? = some (operands.length + 1))
      (behind : PlainRow bytes ops) :
      PlainRow ((op.byte :: operands) ++ bytes) (op :: ops)

/-- The instructions of a row of operations of fixed size. -/
def Instruction.row (offset : Nat) : List Opcode → List Instruction
  | [] => []
  | op :: ops => ⟨offset, op, op.size?.getD 0⟩ :: row (offset + op.size?.getD 0) ops

theorem Instruction.row_add (n : Nat) (ops : List Opcode) : ∀ offset : Nat,
    (Instruction.row offset ops).map (fun i => { i with offset := n + i.offset }) =
      Instruction.row (n + offset) ops := by
  induction ops with
  | nil => exact fun _ => rfl
  | cons op ops ih =>
      intro offset
      rw [row, List.map_cons, ih, row, Nat.add_assoc]

/-- Without a jump control can only go on to the next instruction. -/
theorem Instruction.eq_next_of_leads {code : Array UInt8} {i : Instruction}
    (hsized : i.opcode.size?.isSome = true) (hshort : i.opcode.isShortBranch = false)
    (hwide : i.opcode.isWideBranch = false) {next : Nat} (h : i.Leads code next) :
    next = i.next := by
  cases h with
  | falls => rfl
  | jumps known mem =>
      obtain ⟨operands, hoperands, htargets⟩ := except_bind_eq_ok.mp known
      have hnone : i.Jumps code [] := by
        refine .none hshort hwide ?_ ?_
        · intro htable
          simp [htable, Opcode.size?] at hsized
        · intro hlookup
          simp [hlookup, Opcode.size?] at hsized
      cases (Instruction.jumpOperands_eq_ok.mpr hnone).symm.trans hoperands
      cases except_mapM_eq_ok.mp htargets
      cases mem

/-- A plain operation leads to the next one and nowhere else. -/
theorem Instruction.leads_of_isPlain {code : Array UInt8} {i : Instruction}
    (h : i.opcode.isPlain = true) {next : Nat} : i.Leads code next ↔ next = i.next := by
  simp only [Opcode.isPlain, Bool.and_eq_true, Bool.not_eq_true'] at h
  obtain ⟨⟨⟨⟨⟨hsized, hshort⟩, hwide⟩, hpasses⟩, -⟩, -⟩ := h
  constructor
  · exact Instruction.eq_next_of_leads hsized hshort hwide
  · rintro rfl
    exact .falls hpasses

namespace PlainRow

variable {bytes bytes' : Bytes} {ops ops' : List Opcode}

/-- Where a row ends that starts with the given operation. -/
theorem end_cons (offset : Nat) (b : UInt8) (operands bytes : Bytes) :
    offset + ((b :: operands) ++ bytes).length =
      offset + (operands.length + 1) + bytes.length := by
  rw [List.length_append, List.length_cons]
  omega

theorem append (h : PlainRow bytes ops) (h' : PlainRow bytes' ops') :
    PlainRow (bytes ++ bytes') (ops ++ ops') := by
  induction h with
  | nil => exact h'
  | cons operands plain sized _ ih =>
      rw [List.append_assoc, List.cons_append]
      exact .cons operands plain sized ih

theorem isPlain (h : PlainRow bytes ops) : ∀ op ∈ ops, op.isPlain = true := by
  induction h with
  | nil => exact nofun
  | cons _ plain _ _ ih => exact List.forall_mem_cons.mpr ⟨plain, ih⟩

theorem opcode_mem {offset : Nat} : ∀ i ∈ Instruction.row offset ops, i.opcode ∈ ops := by
  induction ops generalizing offset with
  | nil => exact nofun
  | cons op ops ih =>
      intro i hi
      rcases List.mem_cons.mp hi with rfl | hi
      · exact List.mem_cons_self
      · exact List.mem_cons_of_mem op (ih i hi)

/-- The instructions of a row lie where its bytes are. -/
theorem offset_of_mem (h : PlainRow bytes ops) : ∀ {offset : Nat},
    ∀ i ∈ Instruction.row offset ops, offset ≤ i.offset ∧ i.offset < offset + bytes.length := by
  induction h with
  | nil => exact nofun
  | @cons op bytes ops operands plain sized _ ih =>
      intro offset i hi
      simp only [Instruction.row, sized, Option.getD_some] at hi
      rw [List.length_append, List.length_cons]
      rcases List.mem_cons.mp hi with rfl | hi
      · constructor
        · exact Nat.le_refl offset
        · show offset < offset + (operands.length + 1 + bytes.length)
          omega
      · have hbounds := ih i hi
        omega

variable {code : Array UInt8} {offset : Nat}

/-- The row is decoded where its bytes are. -/
theorem decodes (h : PlainRow bytes ops) : ∀ {offset : Nat} {rest : List Instruction},
    Code.Holds code offset bytes → Decodes code (offset + bytes.length) rest →
      Decodes code offset (Instruction.row offset ops ++ rest) := by
  induction h with
  | nil => exact fun _ hrest => hrest
  | @cons op bytes ops operands plain sized _ ih =>
      intro offset rest hholds hrest
      rw [end_cons] at hrest
      simp only [Instruction.row, sized, Option.getD_some, List.cons_append]
      exact .cons (hholds.left.decode_eq sized) (ih hholds.right hrest)

/-- **A path that enters a plain row runs through all of it.** -/
theorem run_through (h : PlainRow bytes ops) : ∀ {offset : Nat} {path : List Instruction},
    Code.Holds code offset bytes → Code.Path code offset path →
      ∃ after, path = Instruction.row offset ops ++ after ∧
        Code.Path code (offset + bytes.length) after := by
  induction h with
  | nil => exact fun _ hpath => ⟨_, rfl, hpath⟩
  | @cons op bytes ops operands plain sized _ ih =>
      intro offset path hholds hpath
      have hdecode := hholds.left.decode_eq sized
      simp only [Instruction.row, sized, Option.getD_some]
      rw [end_cons]
      cases hpath with
      | returns decoded isReturn =>
          cases hdecode.symm.trans decoded
          have hends := Opcode.endsFlow_of_isReturn isReturn
          simp only [Opcode.isPlain, Bool.and_eq_true, Bool.not_eq_true'] at plain
          rw [plain.1.1.2] at hends
          cases hends
      | step decoded leads behind =>
          cases hdecode.symm.trans decoded
          cases (Instruction.leads_of_isPlain plain).mp leads
          obtain ⟨after, rfl, hafter⟩ := ih hholds.right behind
          exact ⟨after, rfl, hafter⟩

/-- A path from the end of a plain row extends to one from its start. -/
theorem path (h : PlainRow bytes ops) : ∀ {offset : Nat} {after : List Instruction},
    Code.Holds code offset bytes → Code.Path code (offset + bytes.length) after →
      Code.Path code offset (Instruction.row offset ops ++ after) := by
  induction h with
  | nil => exact fun _ hafter => hafter
  | @cons op bytes ops operands plain sized _ ih =>
      intro offset after hholds hafter
      rw [end_cons] at hafter
      simp only [Instruction.row, sized, Option.getD_some, List.cons_append]
      exact .step (hholds.left.decode_eq sized)
        ((Instruction.leads_of_isPlain plain).mpr rfl) (ih hholds.right hafter)

end PlainRow

/-! ## §4 Decoding a known row -/

/-- Code that is a row of instructions decodes to it. -/
theorem decodeFrom_of_decodes {code : Array UInt8} {is : List Instruction} :
    ∀ {offset : Nat} {done : List Instruction}, Decodes code offset is →
      decodeFrom code offset done = ⟨done.reverse ++ is, none⟩ := by
  induction is with
  | nil =>
      intro offset done h
      cases h with
      | nil hend =>
          unfold decodeFrom
          rw [if_neg (Nat.not_lt.mpr hend), List.append_nil]
  | cons i is ih =>
      intro offset done h
      cases h with
      | cons first behind =>
          obtain ⟨-, hpos, hfits⟩ := Instruction.decode_bounds first
          unfold decodeFrom
          rw [if_pos (by omega)]
          split
          · next j hj =>
            cases first.symm.trans hj
            rw [ih behind]
            simp
          · next e he => cases first.symm.trans he

theorem decodeAll_of_decodes {code : Array UInt8} {is : List Instruction}
    (h : Decodes code 0 is) : decodeAll code = ⟨is, none⟩ :=
  decodeFrom_of_decodes h

end Reshape
