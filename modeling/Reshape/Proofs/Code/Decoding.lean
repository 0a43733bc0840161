import Reshape.Code.Instruction
import Reshape.Proofs.Results

/-!
# Decoded code

Code that decodes completely is a row of instructions without gaps, each of which starts where
the one before it ends.  An instruction keeps its jump operands in its own bytes, one behind the
other, and decoding it never looks at them: what an instruction is depends on its other bytes and,
for a switch, on how it is aligned.
-/

namespace Reshape

/-! ## §1 Kinds of instructions -/

namespace Opcode

theorem size?_of_isShortBranch {op : Opcode} (h : op.isShortBranch = true) :
    op.size? = some 3 := by
  cases op <;> first | rfl | exact nomatch h

theorem size?_of_isWideBranch {op : Opcode} (h : op.isWideBranch = true) :
    op.size? = some 5 := by
  cases op <;> first | rfl | exact nomatch h

/-- Instructions of variable size are switches and widened instructions. -/
theorem cases_of_size?_eq_none {op : Opcode} (h : op.size? = none) :
    op = .tableSwitch ∨ op = .lookupSwitch ∨ op = .wide := by
  cases op <;> first | exact .inl rfl | exact .inr (.inl rfl) | exact .inr (.inr rfl) | exact nomatch h

end Opcode

/-! ## §2 Words at the same place -/

namespace Code

/-- From `p` on in one code and from `p'` on in another the next `n` bytes are the same. -/
def Agree (old new : Array UInt8) (p p' n : Nat) : Prop := ∀ k < n, new[p' + k]? = old[p + k]?

variable {old new : Array UInt8} {p p' n : Nat}

theorem byteAt_eq_ok {code : Array UInt8} {b : UInt8} :
    byteAt code p = .ok b ↔ code[p]? = some b := by
  unfold byteAt
  cases code[p]? with
  | none => simp
  | some c => simp

theorem Agree.byteAt {b : UInt8} (h : Agree old new p p' n) (k : Nat) (hk : k < n)
    (hb : byteAt old (p + k) = .ok b) : byteAt new (p' + k) = .ok b := by
  rw [byteAt_eq_ok] at hb ⊢
  rw [h k hk, hb]

theorem Agree.symm (h : Agree old new p p' n) : Agree new old p' p n :=
  fun k hk => (h k hk).symm

theorem Agree.part {m : Nat} (h : Agree old new p p' n) (skip : Nat) (hm : skip + m ≤ n) :
    Agree old new (p + skip) (p' + skip) m := by
  intro k hk
  have := h (skip + k) (by omega)
  rwa [← Nat.add_assoc, ← Nat.add_assoc] at this

theorem Agree.u16At {v : UInt16} (h : Agree old new p p' 2) (hv : u16At old p = .ok v) :
    u16At new p' = .ok v := by
  obtain ⟨a, ha, hv⟩ := except_bind_eq_ok.mp hv
  obtain ⟨b, hb, hv⟩ := except_bind_eq_ok.mp hv
  refine except_bind_eq_ok.mpr ⟨a, h.byteAt 0 (by decide) ha, ?_⟩
  exact except_bind_eq_ok.mpr ⟨b, h.byteAt 1 (by decide) hb, hv⟩

theorem Agree.i32At {v : Int} (h : Agree old new p p' 4) (hv : i32At old p = .ok v) :
    i32At new p' = .ok v := by
  obtain ⟨a, ha, hv⟩ := except_bind_eq_ok.mp hv
  obtain ⟨b, hb, hv⟩ := except_bind_eq_ok.mp hv
  obtain ⟨c, hc, hv⟩ := except_bind_eq_ok.mp hv
  obtain ⟨d, hd, hv⟩ := except_bind_eq_ok.mp hv
  refine except_bind_eq_ok.mpr ⟨a, h.byteAt 0 (by decide) ha, ?_⟩
  refine except_bind_eq_ok.mpr ⟨b, h.byteAt 1 (by decide) hb, ?_⟩
  refine except_bind_eq_ok.mpr ⟨c, h.byteAt 2 (by decide) hc, ?_⟩
  exact except_bind_eq_ok.mpr ⟨d, h.byteAt 3 (by decide) hd, hv⟩

end Code

/-! ## §3 One instruction -/

namespace Instruction

theorem decode_eq_ok {code : Array UInt8} {offset : Nat} {i : Instruction} :
    decode code offset = .ok i ↔
      ∃ byte, code[offset]? = some byte ∧ Opcode.ofByte? byte = some i.opcode ∧
        announcedLength code offset i.opcode = .ok i.length ∧ i.offset = offset ∧
        offset + i.length ≤ code.size := by
  constructor
  · intro h
    obtain ⟨byte, hbyte, h⟩ := except_bind_eq_ok.mp h
    cases hop : Opcode.ofByte? byte with
    | none =>
        rw [hop] at h
        exact (except_throw_eq_ok.mp h).elim
    | some opcode =>
        rw [hop] at h
        obtain ⟨length, hlength, h⟩ := except_bind_eq_ok.mp h
        split at h
        · next hfits =>
          cases except_pure_eq_ok.mp h
          exact ⟨byte, Code.byteAt_eq_ok.mp hbyte, hop, hlength, rfl, hfits⟩
        · exact (except_throw_eq_ok.mp h).elim
  · rintro ⟨byte, hbyte, hop, hlength, rfl, hfits⟩
    refine except_bind_eq_ok.mpr ⟨byte, Code.byteAt_eq_ok.mpr hbyte, ?_⟩
    simp only [hop]
    refine except_bind_eq_ok.mpr ⟨i.length, hlength, ?_⟩
    rw [if_pos hfits]
    rfl

/-- Where an instruction keeps its jumps. -/
inductive Jumps (code : Array UInt8) (i : Instruction) : List JumpOperand → Prop
  | none (short : i.opcode.isShortBranch = false) (wide : i.opcode.isWideBranch = false)
      (table : i.opcode ≠ .tableSwitch) (lookup : i.opcode ≠ .lookupSwitch) : Jumps code i []
  | short (short : i.opcode.isShortBranch = true) : Jumps code i [⟨i.offset + 1, .short⟩]
  | wide (wide : i.opcode.isWideBranch = true) : Jumps code i [⟨i.offset + 1, .wide⟩]
  | table {n : Nat} (table : i.opcode = .tableSwitch) (entries : tableEntries code i.offset = .ok n) :
      Jumps code i (⟨switchOperands i.offset, .wide⟩ ::
        (List.range n).map fun k => ⟨switchOperands i.offset + 12 + k * 4, .wide⟩)
  | lookup {n : Nat} (lookup : i.opcode = .lookupSwitch) (pairs : lookupPairs code i.offset = .ok n) :
      Jumps code i (⟨switchOperands i.offset, .wide⟩ ::
        (List.range n).map fun k => ⟨switchOperands i.offset + 8 + k * 8 + 4, .wide⟩)

theorem jumpOperands_eq_ok {code : Array UInt8} {i : Instruction} {operands : List JumpOperand} :
    i.jumpOperands code = .ok operands ↔ Jumps code i operands := by
  constructor
  · intro h
    unfold jumpOperands at h
    by_cases hshort : i.opcode.isShortBranch = true
    · rw [if_pos hshort] at h
      cases except_pure_eq_ok.mp h
      exact .short hshort
    · rw [if_neg hshort] at h
      by_cases hwide : i.opcode.isWideBranch = true
      · rw [if_pos hwide] at h
        cases except_pure_eq_ok.mp h
        exact .wide hwide
      · rw [if_neg hwide] at h
        dsimp only at h
        split at h
        · next htable =>
          obtain ⟨n, hn, h⟩ := except_bind_eq_ok.mp h
          cases except_pure_eq_ok.mp h
          exact .table htable hn
        · next hlookup =>
          obtain ⟨n, hn, h⟩ := except_bind_eq_ok.mp h
          cases except_pure_eq_ok.mp h
          exact .lookup hlookup hn
        · next htable hlookup =>
          cases except_pure_eq_ok.mp h
          exact .none (by simpa using hshort) (by simpa using hwide) htable hlookup
  · intro h
    unfold jumpOperands
    cases h with
    | none hshort hwide htable hlookup =>
        rw [if_neg (by simp [hshort]), if_neg (by simp [hwide])]
        dsimp only
        split
        · exact absurd (by assumption) htable
        · exact absurd (by assumption) hlookup
        · rfl
    | short hshort => rw [if_pos hshort]; rfl
    | wide hwide =>
        have hshort : ¬ i.opcode.isShortBranch = true := by
          intro h
          have := (Opcode.size?_of_isShortBranch h).symm.trans (Opcode.size?_of_isWideBranch hwide)
          cases this
        rw [if_neg hshort, if_pos hwide]
        rfl
    | table htable hn =>
        simp only [htable, Opcode.isShortBranch, Opcode.isWideBranch, Bool.false_eq_true, if_false]
        exact except_bind_eq_ok.mpr ⟨_, hn, rfl⟩
    | lookup hlookup hn =>
        simp only [hlookup, Opcode.isShortBranch, Opcode.isWideBranch, Bool.false_eq_true, if_false]
        exact except_bind_eq_ok.mpr ⟨_, hn, rfl⟩

theorem Jumps.of_tableSwitch {code : Array UInt8} {i : Instruction}
    {operands : List JumpOperand} (h : Jumps code i operands) (htable : i.opcode = .tableSwitch) :
    ∃ n, operands = ⟨switchOperands i.offset, .wide⟩ ::
      (List.range n).map fun k => ⟨switchOperands i.offset + 12 + k * 4, .wide⟩ := by
  cases h with
  | none _ _ hno _ => exact absurd htable hno
  | short hshort => simp [htable, Opcode.isShortBranch] at hshort
  | wide hwide => simp [htable, Opcode.isWideBranch] at hwide
  | @table n _ _ => exact ⟨n, rfl⟩
  | lookup hlookup => simp [htable] at hlookup

theorem Jumps.of_lookupSwitch {code : Array UInt8} {i : Instruction}
    {operands : List JumpOperand} (h : Jumps code i operands)
    (hlookup : i.opcode = .lookupSwitch) :
    ∃ n, operands = ⟨switchOperands i.offset, .wide⟩ ::
      (List.range n).map fun k => ⟨switchOperands i.offset + 8 + k * 8 + 4, .wide⟩ := by
  cases h with
  | none _ _ _ hno => exact absurd hlookup hno
  | short hshort => simp [hlookup, Opcode.isShortBranch] at hshort
  | wide hwide => simp [hlookup, Opcode.isWideBranch] at hwide
  | table htable => simp [hlookup] at htable
  | @lookup n _ _ => exact ⟨n, rfl⟩

/-- Only branches and switches have jumps. -/
theorem Jumps.eq_nil {code : Array UInt8} {i : Instruction} {operands : List JumpOperand}
    (h : Jumps code i operands) (hshort : i.opcode.isShortBranch = false)
    (hwide : i.opcode.isWideBranch = false) (hswitch : i.opcode.isSwitch = false) :
    operands = [] := by
  cases h with
  | none => rfl
  | short short => rw [hshort] at short; cases short
  | wide wide => rw [hwide] at wide; cases wide
  | table table => rw [table] at hswitch; cases hswitch
  | lookup lookup => rw [lookup] at hswitch; cases hswitch

section Targets

variable {first n : Nat} {position : Nat → Nat}

/-- The targets of a switch, its default first, lie within bounds that hold for each of them. -/
theorem bounds_of_targets {low high : Nat} (hfirst : low < first ∧ first + 4 ≤ high)
    (hrest : ∀ k < n, low < position k ∧ position k + 4 ≤ high) :
    ∀ o ∈ (⟨first, .wide⟩ : JumpOperand) :: (List.range n).map fun k => ⟨position k, .wide⟩,
      low < o.position ∧ o.position + o.width.bytes ≤ high := by
  intro o ho
  rcases List.mem_cons.mp ho with rfl | ho
  · exact hfirst
  · obtain ⟨k, hk, rfl⟩ := List.mem_map.mp ho
    exact hrest k (List.mem_range.mp hk)

theorem pairwise_targets (hfirst : ∀ k, first + 4 ≤ position k)
    (hrest : ∀ a b, a < b → position a + 4 ≤ position b) :
    ((⟨first, .wide⟩ : JumpOperand) :: (List.range n).map fun k => ⟨position k, .wide⟩).Pairwise
      fun a b => a.position + a.width.bytes ≤ b.position := by
  constructor
  · intro o ho
    obtain ⟨k, -, rfl⟩ := List.mem_map.mp ho
    exact hfirst k
  · rw [List.pairwise_map]
    exact List.pairwise_lt_range.imp fun hab => hrest _ _ hab

/-- No target reaches into a gap between the default and all the others. -/
theorem apart_of_targets {gap : Nat} (hrest : ∀ k, first + 4 + gap ≤ position k) :
    ∀ o ∈ (⟨first, .wide⟩ : JumpOperand) :: (List.range n).map fun k => ⟨position k, .wide⟩,
      o.position + o.width.bytes ≤ first + 4 ∨ first + 4 + gap ≤ o.position := by
  intro o ho
  rcases List.mem_cons.mp ho with rfl | ho
  · exact .inl (Nat.le_refl _)
  · obtain ⟨k, -, rfl⟩ := List.mem_map.mp ho
    exact .inr (hrest k)

end Targets

section Switches

variable {code : Array UInt8} {i : Instruction} {n : Nat}
  (hdecode : decode code i.offset = .ok i)
include hdecode

/-- A table switch ends behind its last target. -/
theorem next_of_tableSwitch (htable : i.opcode = .tableSwitch)
    (hn : tableEntries code i.offset = .ok n) :
    i.next = switchOperands i.offset + 12 + n * 4 := by
  obtain ⟨byte, -, -, hlength, -, -⟩ := decode_eq_ok.mp hdecode
  simp only [announcedLength, htable, Opcode.size?] at hlength
  obtain ⟨m, hm, hlength⟩ := except_bind_eq_ok.mp hlength
  cases hn.symm.trans hm
  replace hlength := except_pure_eq_ok.mp hlength
  unfold switchOperands at hlength ⊢
  unfold Instruction.next
  omega

/-- A look-up switch ends behind its last pair. -/
theorem next_of_lookupSwitch (hlookup : i.opcode = .lookupSwitch)
    (hn : lookupPairs code i.offset = .ok n) :
    i.next = switchOperands i.offset + 8 + n * 8 := by
  obtain ⟨byte, -, -, hlength, -, -⟩ := decode_eq_ok.mp hdecode
  simp only [announcedLength, hlookup, Opcode.size?] at hlength
  obtain ⟨m, hm, hlength⟩ := except_bind_eq_ok.mp hlength
  cases hn.symm.trans hm
  replace hlength := except_pure_eq_ok.mp hlength
  unfold switchOperands at hlength ⊢
  unfold Instruction.next
  omega

end Switches

/-- An instruction has its jumps behind its opcode, and all of them in its own bytes. -/
theorem length_of_jumps {code : Array UInt8} {i : Instruction} {operands : List JumpOperand}
    (hdecode : decode code i.offset = .ok i) (h : Jumps code i operands) :
    ∀ o ∈ operands, i.offset < o.position ∧ o.position + o.width.bytes ≤ i.next := by
  obtain ⟨byte, hbyte, hop, hlength, -, hfits⟩ := decode_eq_ok.mp hdecode
  intro o ho
  cases h with
  | none => cases ho
  | short hshort =>
      rw [List.mem_singleton] at ho
      subst ho
      simp only [announcedLength, Opcode.size?_of_isShortBranch hshort] at hlength
      have hlength := except_pure_eq_ok.mp hlength
      simp only [JumpWidth.bytes, Instruction.next]
      omega
  | wide hwide =>
      rw [List.mem_singleton] at ho
      subst ho
      simp only [announcedLength, Opcode.size?_of_isWideBranch hwide] at hlength
      have hlength := except_pure_eq_ok.mp hlength
      simp only [JumpWidth.bytes, Instruction.next]
      omega
  | table htable hn =>
      have hnext := next_of_tableSwitch hdecode htable hn
      unfold switchOperands at hnext ho
      refine bounds_of_targets ?_ (fun k hk => ?_) o ho
      · omega
      · omega
  | lookup hlookup hn =>
      have hnext := next_of_lookupSwitch hdecode hlookup hn
      unfold switchOperands at hnext ho
      refine bounds_of_targets ?_ (fun k hk => ?_) o ho
      · omega
      · omega

/-- The operands lie one behind the other. -/
theorem pairwise_of_jumps {code : Array UInt8} {i : Instruction} {operands : List JumpOperand}
    (h : Jumps code i operands) :
    operands.Pairwise fun a b => a.position + a.width.bytes ≤ b.position := by
  cases h with
  | none => exact .nil
  | short => exact List.pairwise_singleton _ _
  | wide => exact List.pairwise_singleton _ _
  | table =>
      refine pairwise_targets (fun k => ?_) (fun a b hab => ?_)
      · omega
      · omega
  | lookup =>
      refine pairwise_targets (fun k => ?_) (fun a b hab => ?_)
      · omega
      · omega

end Instruction

/-! ## §4 The same instruction at another place -/

/-- The byte at `k` belongs to a jump operand. -/
def Instruction.StoresJumpAt (code : Array UInt8) (i : Instruction) (k : Nat) : Prop :=
  ∃ operands, Jumps code i operands ∧ ∃ o ∈ operands,
    o.position ≤ k ∧ k < o.position + o.width.bytes

/-- At `offset` in the new code lie the bytes of the instruction, jump operands excepted, and a
switch is aligned there as before. -/
structure Instruction.KeptAt (old new : Array UInt8) (i : Instruction) (offset : Nat) : Prop where
  bytes : ∀ k < i.length, ¬ i.StoresJumpAt old (i.offset + k) →
    new[offset + k]? = old[i.offset + k]?
  aligned : i.opcode.isSwitch = true → offset % 4 = i.offset % 4
  fits : offset + i.length ≤ new.size

namespace Instruction.KeptAt

variable {old new : Array UInt8} {i : Instruction} {offset : Nat}

/-- A stretch of the instruction without jumps is the same. -/
theorem agree (h : i.KeptAt old new offset) {skip n : Nat} (hn : skip + n ≤ i.length)
    (hfree : ∀ k < n, ¬ i.StoresJumpAt old (i.offset + (skip + k))) :
    Code.Agree old new (i.offset + skip) (offset + skip) n := by
  intro k hk
  have := h.bytes (skip + k) (by omega) (hfree k hk)
  rwa [← Nat.add_assoc, ← Nat.add_assoc] at this

/-- The operands of a switch start at the same distance. -/
theorem switchOperands_eq (h : i.KeptAt old new offset) (hswitch : i.opcode.isSwitch = true) :
    ∃ skip, switchOperands i.offset = i.offset + skip ∧ switchOperands offset = offset + skip := by
  have haligned := h.aligned hswitch
  refine ⟨1 + switchPadding i.offset, ?_, ?_⟩
  · unfold switchOperands
    omega
  · unfold switchOperands switchPadding
    omega

theorem switchOperands_add (h : i.KeptAt old new offset) (hswitch : i.opcode.isSwitch = true)
    (k : Nat) :
    offset + (switchOperands i.offset + k - i.offset) = switchOperands offset + k := by
  obtain ⟨skip, hold, hnew⟩ := h.switchOperands_eq hswitch
  omega

/-- Behind its default a switch keeps what stands in front of its other targets. -/
theorem agree_behind_default (h : i.KeptAt old new offset) (hswitch : i.opcode.isSwitch = true)
    {n : Nat} (hn : switchOperands i.offset + 4 + n ≤ i.next)
    (hapart : ∀ operands, Jumps old i operands → ∀ o ∈ operands,
      o.position + o.width.bytes ≤ switchOperands i.offset + 4 ∨
        switchOperands i.offset + 4 + n ≤ o.position) :
    Code.Agree old new (switchOperands i.offset + 4) (switchOperands offset + 4) n := by
  obtain ⟨skip, hold, hnew⟩ := h.switchOperands_eq hswitch
  unfold Instruction.next at hn
  rw [hold, hnew, Nat.add_assoc, Nat.add_assoc]
  refine h.agree (by omega) ?_
  rintro k hk ⟨operands, hjumps, o, ho, hle, hlt⟩
  have := hapart operands hjumps o ho
  omega

/-- Between its default and its other targets a table switch keeps its bounds. -/
theorem tableEntries_eq (h : i.KeptAt old new offset) (htable : i.opcode = .tableSwitch)
    (hdecode : decode old i.offset = .ok i) {n : Nat} (hn : tableEntries old i.offset = .ok n) :
    tableEntries new offset = .ok n := by
  have hnext := next_of_tableSwitch hdecode htable hn
  have hbounds : Code.Agree old new (switchOperands i.offset + 4) (switchOperands offset + 4) 8 := by
    refine h.agree_behind_default (by rw [htable]; rfl) (by omega) fun operands hjumps => ?_
    obtain ⟨m, rfl⟩ := hjumps.of_tableSwitch htable
    exact apart_of_targets fun k => by omega
  obtain ⟨low, hlow, hn⟩ := except_bind_eq_ok.mp hn
  obtain ⟨high, hhigh, hn⟩ := except_bind_eq_ok.mp hn
  refine except_bind_eq_ok.mpr ⟨low, (hbounds.part 0 (by decide)).i32At hlow, ?_⟩
  exact except_bind_eq_ok.mpr ⟨high, (hbounds.part 4 (by decide)).i32At hhigh, hn⟩

/-- Behind its default a look-up switch keeps the number of its pairs. -/
theorem lookupPairs_eq (h : i.KeptAt old new offset) (hlookup : i.opcode = .lookupSwitch)
    (hdecode : decode old i.offset = .ok i) {n : Nat} (hn : lookupPairs old i.offset = .ok n) :
    lookupPairs new offset = .ok n := by
  have hnext := next_of_lookupSwitch hdecode hlookup hn
  have hnumber : Code.Agree old new (switchOperands i.offset + 4) (switchOperands offset + 4) 4 := by
    refine h.agree_behind_default (by rw [hlookup]; rfl) (by omega) fun operands hjumps => ?_
    obtain ⟨m, rfl⟩ := hjumps.of_lookupSwitch hlookup
    exact apart_of_targets fun k => by omega
  obtain ⟨count, hcount, hn⟩ := except_bind_eq_ok.mp hn
  exact except_bind_eq_ok.mpr ⟨count, hnumber.i32At hcount, hn⟩

/-- The first byte stores no jump. -/
theorem opcodeByte_eq (h : i.KeptAt old new offset) (hdecode : decode old i.offset = .ok i) :
    new[offset]? = old[i.offset]? := by
  obtain ⟨-, hpos, -⟩ := decode_bounds hdecode
  refine h.bytes 0 hpos ?_
  rintro ⟨operands, hjumps, o, ho, hle, -⟩
  obtain ⟨hbehind, -⟩ := length_of_jumps hdecode hjumps o ho
  omega

theorem announcedLength_eq (h : i.KeptAt old new offset)
    (hdecode : decode old i.offset = .ok i) :
    announcedLength new offset i.opcode = .ok i.length := by
  obtain ⟨byte, -, -, hlength, -, -⟩ := decode_eq_ok.mp hdecode
  unfold announcedLength at hlength ⊢
  cases hsize : i.opcode.size? with
  | some size => simpa only [hsize] using hlength
  | none =>
      simp only [hsize] at hlength ⊢
      rcases Opcode.cases_of_size?_eq_none hsize with hop | hop | hop
      · simp only [hop] at hlength ⊢
        obtain ⟨n, hn, hlength⟩ := except_bind_eq_ok.mp hlength
        refine except_bind_eq_ok.mpr ⟨n, h.tableEntries_eq hop hdecode hn, ?_⟩
        obtain ⟨skip, hold, hnew⟩ := h.switchOperands_eq (by rw [hop]; rfl)
        replace hlength := except_pure_eq_ok.mp hlength
        rw [except_pure_eq_ok]
        omega
      · simp only [hop] at hlength ⊢
        obtain ⟨n, hn, hlength⟩ := except_bind_eq_ok.mp hlength
        refine except_bind_eq_ok.mpr ⟨n, h.lookupPairs_eq hop hdecode hn, ?_⟩
        obtain ⟨skip, hold, hnew⟩ := h.switchOperands_eq (by rw [hop]; rfl)
        replace hlength := except_pure_eq_ok.mp hlength
        rw [except_pure_eq_ok]
        omega
      · simp only [hop] at hlength ⊢
        obtain ⟨inner, hinner, hlength⟩ := except_bind_eq_ok.mp hlength
        refine except_bind_eq_ok.mpr ⟨inner, ?_, hlength⟩
        rw [Code.byteAt_eq_ok] at hinner ⊢
        rw [h.bytes 1, hinner]
        · have := except_pure_eq_ok.mp hlength
          split at this <;> omega
        · rintro ⟨operands, hjumps, o, ho, -⟩
          rw [hjumps.eq_nil (by rw [hop]; rfl) (by rw [hop]; rfl) (by rw [hop]; rfl)] at ho
          cases ho

/-- **The instruction is found at its new place.** -/
theorem decode_eq (h : i.KeptAt old new offset) (hdecode : decode old i.offset = .ok i) :
    decode new offset = .ok { i with offset } := by
  obtain ⟨byte, hbyte, hop, -, -, -⟩ := decode_eq_ok.mp hdecode
  exact decode_eq_ok.mpr ⟨byte, (h.opcodeByte_eq hdecode).trans hbyte, hop,
    h.announcedLength_eq hdecode, rfl, h.fits⟩

/-- Its jump operands have moved along. -/
theorem jumps (h : i.KeptAt old new offset) (hdecode : decode old i.offset = .ok i)
    {operands : List JumpOperand} (hjumps : Jumps old i operands) :
    Jumps new { i with offset }
      (operands.map fun o => { o with position := offset + (o.position - i.offset) }) := by
  cases hjumps with
  | none hshort hwide htable hlookup => exact .none hshort hwide htable hlookup
  | short hshort =>
      rw [List.map_singleton, Nat.add_sub_cancel_left]
      exact .short hshort
  | wide hwide =>
      rw [List.map_singleton, Nat.add_sub_cancel_left]
      exact .wide hwide
  | @table n htable hn =>
      have hmoved := h.switchOperands_add (by rw [htable]; rfl)
      have hfirst : offset + (switchOperands i.offset - i.offset) = switchOperands offset :=
        hmoved 0
      have hjumps := Jumps.table (i := { i with offset }) htable
        (h.tableEntries_eq htable hdecode hn)
      simpa [Function.comp_def, Nat.add_assoc, hmoved, hfirst] using hjumps
  | @lookup n hlookup hn =>
      have hmoved := h.switchOperands_add (by rw [hlookup]; rfl)
      have hfirst : offset + (switchOperands i.offset - i.offset) = switchOperands offset :=
        hmoved 0
      have hjumps := Jumps.lookup (i := { i with offset }) hlookup
        (h.lookupPairs_eq hlookup hdecode hn)
      simpa [Function.comp_def, Nat.add_assoc, hmoved, hfirst] using hjumps

end Instruction.KeptAt

/-! ## §5 Rows of instructions -/

/-- From `offset` on the code is the given row of instructions, up to its end. -/
inductive Decodes (code : Array UInt8) : Nat → List Instruction → Prop
  | nil {offset : Nat} (done : code.size ≤ offset) : Decodes code offset []
  | cons {offset : Nat} {i : Instruction} {rest : List Instruction}
      (first : Instruction.decode code offset = .ok i) (behind : Decodes code i.next rest) :
      Decodes code offset (i :: rest)

theorem decodes_decodeFrom {code : Array UInt8} (offset : Nat) (done : List Instruction) :
    (decodeFrom code offset done).fault = none →
      ∃ rest, (decodeFrom code offset done).instructions = done.reverse ++ rest ∧
        Decodes code offset rest := by
  fun_induction decodeFrom code offset done with
  | case1 offset done hlt i hi _ ih =>
      intro hfault
      obtain ⟨rest, hrest, hdecodes⟩ := ih hfault
      exact ⟨i :: rest, by simpa using hrest, .cons hi hdecodes⟩
  | case2 => intro hfault; cases hfault
  | case3 offset done hge => exact fun _ => ⟨[], by simp, .nil (Nat.not_lt.mp hge)⟩

/-- Complete decoding lists the instructions of the whole code. -/
theorem decodes_decodeAll {code : Array UInt8} (h : (decodeAll code).fault = none) :
    Decodes code 0 (decodeAll code).instructions := by
  obtain ⟨rest, hrest, hdecodes⟩ := decodes_decodeFrom 0 [] h
  rwa [decodeAll, hrest, List.reverse_nil, List.nil_append]

namespace Decodes

variable {code : Array UInt8} {offset : Nat} {is : List Instruction}

theorem decode_of_mem (h : Decodes code offset is) {i : Instruction} (hi : i ∈ is) :
    Instruction.decode code i.offset = .ok i ∧ offset ≤ i.offset := by
  induction h with
  | nil => cases hi
  | @cons offset j rest first _ ih =>
      obtain ⟨hoffset, -, -⟩ := Instruction.decode_bounds first
      rcases List.mem_cons.mp hi with rfl | hi
      · exact ⟨hoffset ▸ first, Nat.le_of_eq hoffset.symm⟩
      · obtain ⟨hdecode, hle⟩ := ih hi
        unfold Instruction.next at hle
        exact ⟨hdecode, by omega⟩

/-- Each instruction ends before the next ones start. -/
theorem pairwise (h : Decodes code offset is) :
    is.Pairwise fun a b => a.next ≤ b.offset := by
  induction h with
  | nil => exact .nil
  | cons _ behind ih =>
      exact List.pairwise_cons.mpr ⟨fun j hj => (behind.decode_of_mem hj).2, ih⟩

/-- Any other instruction lies wholly before or wholly behind the start of an instruction. -/
theorem before_or_behind_start (h : Decodes code offset is) {i j : Instruction} (hi : i ∈ is)
    (hj : j ∈ is) : i.next ≤ j.offset ∨ j.offset ≤ i.offset := by
  induction h with
  | nil => cases hi
  | @cons offset first' rest _ behind ih =>
      rcases List.mem_cons.mp hi with rfl | hrest
      · rcases List.mem_cons.mp hj with rfl | hj
        · exact .inr (Nat.le_refl _)
        · exact .inl (behind.decode_of_mem hj).2
      · rcases List.mem_cons.mp hj with rfl | hj
        · have hnext := (behind.decode_of_mem hrest).2
          unfold Instruction.next at hnext
          exact .inr (by omega)
        · exact ih hrest hj

/-- A place where code may be inserted: the start of an instruction, or the end of the code. -/
def Boundary (code : Array UInt8) (is : List Instruction) (position : Nat) : Prop :=
  position = code.size ∨ ∃ j ∈ is, j.offset = position

/-- An instruction ends at such a place. -/
theorem boundary_next (h : Decodes code offset is) {i : Instruction} (hi : i ∈ is) :
    Boundary code is i.next := by
  induction h with
  | nil => cases hi
  | @cons offset first' rest first behind ih =>
      rcases List.mem_cons.mp hi with rfl | hi
      · cases behind with
        | nil hend =>
            obtain ⟨hoffset, -, hfits⟩ := Instruction.decode_bounds first
            unfold Instruction.next at hend ⊢
            exact .inl (by omega)
        | @cons _ j rest second _ =>
            refine .inr ⟨j, ?_, (Instruction.decode_bounds second).1⟩
            exact List.mem_cons_of_mem _ List.mem_cons_self
      · rcases ih hi with hend | ⟨j, hj, hoffset⟩
        · exact .inl hend
        · exact .inr ⟨j, List.mem_cons_of_mem _ hj, hoffset⟩

/-- What is decoded at such a place is an instruction of the row. -/
theorem mem_of_boundary (h : Decodes code offset is) {position : Nat}
    (hposition : Boundary code is position) {i : Instruction}
    (hi : Instruction.decode code position = .ok i) : i ∈ is := by
  rcases hposition with rfl | ⟨j, hj, rfl⟩
  · obtain ⟨-, hpos, hfits⟩ := Instruction.decode_bounds hi
    omega
  · cases (h.decode_of_mem hj).1.symm.trans hi
    exact hj

/-- Different instructions end at different places. -/
theorem eq_of_next_eq (h : Decodes code offset is) {i j : Instruction} (hi : i ∈ is)
    (hj : j ∈ is) (hnext : i.next = j.next) : i = j := by
  have hij := h.before_or_behind_start hi hj
  have hji := h.before_or_behind_start hj hi
  obtain ⟨-, hposi, -⟩ := Instruction.decode_bounds (h.decode_of_mem hi).1
  obtain ⟨-, hposj, -⟩ := Instruction.decode_bounds (h.decode_of_mem hj).1
  unfold Instruction.next at hij hji hnext
  have hoffset : i.offset = j.offset := by omega
  have hdecode := (h.decode_of_mem hi).1
  rw [hoffset, (h.decode_of_mem hj).1] at hdecode
  exact (Except.ok.inj hdecode).symm

theorem before_or_behind (h : Decodes code offset is) {position : Nat}
    (hposition : Boundary code is position) {i : Instruction} (hi : i ∈ is) :
    i.next ≤ position ∨ position ≤ i.offset := by
  rcases hposition with rfl | ⟨j, hj, rfl⟩
  · obtain ⟨-, -, hfits⟩ := Instruction.decode_bounds (h.decode_of_mem hi).1
    exact .inl hfits
  · exact h.before_or_behind_start hi hj

end Decodes

/-! ## §6 Closed code -/

/-- Every jump leads to the start of an instruction. -/
def Code.Closed (code : Array UInt8) : Prop :=
  ∀ i ∈ (decodeAll code).instructions, ∃ targets, i.jumpTargets code = .ok targets ∧
    ∀ t ∈ targets, ∃ j ∈ (decodeAll code).instructions, j.offset = t

instance (code : Array UInt8) : Decidable (Code.Closed code) :=
  decidable_of_iff (∀ i ∈ (decodeAll code).instructions,
      (i.jumpTargets code).toOption.any (fun targets =>
        decide (∀ t ∈ targets, ∃ j ∈ (decodeAll code).instructions, j.offset = t)) = true) <| by
    refine forall₂_congr fun i _ => ?_
    cases i.jumpTargets code with
    | error e => simp [Except.toOption]
    | ok targets => simp [Except.toOption]

end Reshape
