import Reshape.Proofs.Bytes.Found
import Reshape.Proofs.Code.Frames
import Reshape.Proofs.Code.Path
import Reshape.Proofs.Code.Tables

/-!
# Two insertions at one place

A block is inserted, and then another one at the same place, so that it stands before the first.
Everything outside the blocks moves twice, by both lengths together; the first block moves along
with what is behind it, and since none of its jumps leads out of it, it stays what it is.  The
result is that of inserting both blocks at once.
-/

namespace Reshape

open FrameState

/-! ## §1 Moving twice -/

namespace Relocation

variable {position m n size : Nat}

theorem start_start (offset : Nat) :
    (⟨position, m⟩ : Relocation).start ((⟨position, n⟩ : Relocation).start offset) =
      (⟨position, m + n⟩ : Relocation).start offset := by
  simp only [start]
  split_ifs <;> omega

theorem stop_stop (offset : Nat) :
    (⟨position, m⟩ : Relocation).stop ((⟨position, n⟩ : Relocation).stop offset) =
      (⟨position, m + n⟩ : Relocation).stop offset := by
  simp only [stop]
  split_ifs <;> omega

theorem start16_start16 {offset : UInt16} (h : offset.toNat + n < 65536) :
    (⟨position, m⟩ : Relocation).start16 ((⟨position, n⟩ : Relocation).start16 offset) =
      (⟨position, m + n⟩ : Relocation).start16 offset := by
  rw [start16, toNat_start16 _ h, start_start, start16]

theorem stop16_stop16 {offset : UInt16} (h : offset.toNat + n < 65536) :
    (⟨position, m⟩ : Relocation).stop16 ((⟨position, n⟩ : Relocation).stop16 offset) =
      (⟨position, m + n⟩ : Relocation).stop16 offset := by
  rw [stop16, toNat_stop16 _ h, stop_stop, stop16]

theorem handler_handler {h : Handler} (hsize : size + n < 65536) (hstart : h.start.toNat ≤ size)
    (hstop : h.stop.toNat ≤ size) (htarget : h.target.toNat ≤ size) :
    (⟨position, m⟩ : Relocation).handler ((⟨position, n⟩ : Relocation).handler h) =
      (⟨position, m + n⟩ : Relocation).handler h := by
  simp only [handler]
  rw [start16_start16 (by omega), stop16_stop16 (by omega), start16_start16 (by omega)]

theorem lineNumber_lineNumber {l : LineNumber} (hsize : size + n < 65536)
    (hstart : l.start.toNat ≤ size) :
    (⟨position, m⟩ : Relocation).lineNumber ((⟨position, n⟩ : Relocation).lineNumber l) =
      (⟨position, m + n⟩ : Relocation).lineNumber l := by
  simp only [lineNumber]
  rw [start16_start16 (by omega)]

theorem localVariable_localVariable {v : LocalVariable} (hsize : size + n < 65536)
    (hstop : v.start.toNat + v.length.toNat ≤ size) :
    (⟨position, m⟩ : Relocation).localVariable ((⟨position, n⟩ : Relocation).localVariable v) =
      (⟨position, m + n⟩ : Relocation).localVariable v := by
  have hmoved := follows_localVariable (r := ⟨position, n⟩) hsize hstop
  have hstart : (⟨position, m⟩ : Relocation).start
        ((⟨position, n⟩ : Relocation).start v.start.toNat) =
      (⟨position, m + n⟩ : Relocation).start v.start.toNat := start_start _
  have hlength : (⟨position, m⟩ : Relocation).stop
        ((⟨position, n⟩ : Relocation).start v.start.toNat +
          ((⟨position, n⟩ : Relocation).stop (v.start.toNat + v.length.toNat) -
            (⟨position, n⟩ : Relocation).start v.start.toNat)) -
        (⟨position, m + n⟩ : Relocation).start v.start.toNat =
      (⟨position, m + n⟩ : Relocation).stop (v.start.toNat + v.length.toNat) -
        (⟨position, m + n⟩ : Relocation).start v.start.toNat := by
    simp only [start, stop]
    split_ifs <;> omega
  unfold localVariable at hmoved ⊢
  dsimp only at hmoved ⊢
  rw [hmoved.start, hmoved.length, hstart, hlength]

theorem verificationType_verificationType {t : VerificationType} (hsize : size + n < 65536)
    (h : ∀ offset, t = .uninitialized offset → offset.toNat ≤ size) :
    (⟨position, m⟩ : Relocation).verificationType
        ((⟨position, n⟩ : Relocation).verificationType t) =
      (⟨position, m + n⟩ : Relocation).verificationType t := by
  cases t with
  | uninitialized offset =>
      have hle := h offset rfl
      simp only [verificationType]
      rw [start16_start16 (by omega)]
  | _ => rfl

theorem map_verificationType {ts : List VerificationType} (hsize : size + n < 65536)
    (h : ∀ offset, .uninitialized offset ∈ ts → offset.toNat ≤ size) :
    (ts.map (⟨position, n⟩ : Relocation).verificationType).map
        (⟨position, m⟩ : Relocation).verificationType =
      ts.map (⟨position, m + n⟩ : Relocation).verificationType := by
  rw [List.map_map]
  refine List.map_congr_left fun t ht => ?_
  exact verificationType_verificationType hsize fun offset hoffset => h offset (hoffset ▸ ht)

theorem frameState_frameState {s : FrameState} (hsize : size + n < 65536) (h : s.Inside size) :
    (⟨position, m⟩ : Relocation).frameState ((⟨position, n⟩ : Relocation).frameState s) =
      (⟨position, m + n⟩ : Relocation).frameState s := by
  simp only [frameState]
  rw [start_start, map_verificationType hsize h.locals, map_verificationType hsize h.stack]

end Relocation

/-! ## §2 Attributes that are adjusted twice -/

namespace Insertion

variable {position : Nat} {first second : Array UInt8} {entry : List VerificationType}
  {pool : Pool} {body : Body}

/-- A table whose rows are moved one after the other has the rows that are moved at once. -/
theorem rows_twice {α : Type} {parseAll : Bytes → Except FormatError (List α)}
    {encodeAll : List α → Except BuildError Bytes} {inner outer joint : α → α}
    {old middle new new' : Bytes}
    (hread : ∀ {rows bytes}, encodeAll rows = .ok bytes → parseAll bytes = .ok rows)
    (hsame : ∀ rows, parseAll old = .ok rows → ∀ row ∈ rows, outer (inner row) = joint row)
    (h₂ : ∃ rows, parseAll old = .ok rows ∧ encodeAll (rows.map inner) = .ok middle)
    (h₁ : ∃ rows, parseAll middle = .ok rows ∧ encodeAll (rows.map outer) = .ok new)
    (h : ∃ rows, parseAll old = .ok rows ∧ encodeAll (rows.map joint) = .ok new') :
    new = new' := by
  obtain ⟨rows, hrows, hmiddle⟩ := h₂
  obtain ⟨rows₂, hrows₂, hnew⟩ := h₁
  obtain ⟨rows', hrows', hnew'⟩ := h
  cases hrows.symm.trans hrows'
  cases (hread hmiddle).symm.trans hrows₂
  have hmoved : (rows.map inner).map outer = rows.map joint := by
    rw [List.map_map]
    exact List.map_congr_left (hsame rows hrows)
  rw [hmoved] at hnew
  exact Except.ok.inj (hnew.symm.trans hnew')

/-- A frame table that is moved twice describes states that have moved twice. -/
theorem frames_frames {old middle new new' : Bytes} {size : Nat}
    (hsize : size + second.size < 65536) (hposition : position ≤ size)
    (inside : ∀ states, Describes old entry states → ∀ s ∈ states, s.Inside size)
    (h₂ : (⟨position, second, none⟩ : Insertion).frames entry old = .ok middle)
    (h₁ : (⟨position, first, none⟩ : Insertion).frames entry middle = .ok new)
    (h : (⟨position, first ++ second, none⟩ : Insertion).frames entry old = .ok new') :
    new = new' := by
  obtain ⟨states, hstates, hmiddle⟩ := frames_ok h₂
  obtain ⟨states₂, hstates₂, hnew⟩ := frames_ok h₁
  obtain ⟨states', hstates', hnew'⟩ := frames_ok h
  cases hstates.unique hstates'
  have hinside := inside states hstates
  obtain ⟨hincreasing, hsmall, -⟩ := @addJoin_follow ⟨position, second, none⟩ states size hsize
    hposition hstates.increasing hinside
  have hdescribes := describes_of_encode hincreasing
    (fun s hs => Nat.lt_of_le_of_lt (hsmall s hs) hsize) hmiddle
  cases hstates₂.unique hdescribes
  rw [addJoin_of_known (.inl rfl)] at hnew hnew'
  rw [addJoin_of_known (.inl rfl), List.map_map] at hnew
  have hmoved : states.map ((⟨position, first.size⟩ : Relocation).frameState ∘
      (⟨position, second.size⟩ : Relocation).frameState) =
        states.map (⟨position, first.size + second.size⟩ : Relocation).frameState :=
    List.map_congr_left fun s hs => Relocation.frameState_frameState hsize (hinside s hs)
  rw [← Array.size_append] at hmoved
  exact Except.ok.inj (hnew.symm.trans ((congrArg
    (fun row => Frame.encodeAll (compress row entry)) hmoved).trans hnew'))

/-- An attribute that is adjusted twice is adjusted to both gaps at once. -/
theorem adjusts_twice {a middle new new' : Attribute} (tables : body.Inside pool)
    (frames : body.FramesInside pool entry) (hsize : body.code.size + second.size < 65536)
    (hposition : position ≤ body.code.size) (ha : a ∈ body.attributes)
    (h₂ : (⟨position, second, none⟩ : Insertion).Adjusts pool entry a middle)
    (h₁ : (⟨position, first, none⟩ : Insertion).Adjusts pool entry middle new)
    (h : (⟨position, first ++ second, none⟩ : Insertion).Adjusts pool entry a new') :
    new = new' := by
  obtain ⟨name, hname, hmiddle⟩ := h₂.payload
  obtain ⟨name₁, hname₁, hnew⟩ := h₁.payload
  obtain ⟨name', hname', hnew'⟩ := h.payload
  rw [h₂.name] at hname₁
  cases hname.symm.trans hname₁
  cases hname.symm.trans hname'
  have hpayload : new.payload = new'.payload := by
    rcases table_cases name with rfl | htable | rfl | hother
    · refine rows_twice LineNumber.parse_of_encode ?_ (payload_lines hmiddle)
        (payload_lines hnew) (payload_lines hnew')
      intro ls hls l hl
      simp only [relocation, Array.size_append]
      exact Relocation.lineNumber_lineNumber hsize (tables.lines a ha hname ls hls l hl)
    · have hread : pool.utf8 a.name = .ok Attribute.localVariableTableName ∨
          pool.utf8 a.name = .ok Attribute.localVariableTypeTableName := by
        rw [hname, Except.ok.injEq, Except.ok.injEq]
        exact htable
      refine rows_twice LocalVariable.parse_of_encode ?_ (payload_locals htable hmiddle)
        (payload_locals htable hnew) (payload_locals htable hnew')
      intro vs hvs v hv
      simp only [relocation, Array.size_append]
      exact Relocation.localVariable_localVariable hsize (tables.locals a ha hread vs hvs v hv)
    · rw [payload_frames] at hmiddle hnew hnew'
      exact frames_frames hsize hposition (frames a ha hname) hmiddle hnew hnew'
    · rw [payload_other hother] at hmiddle hnew hnew'
      exact Except.ok.inj (hnew.symm.trans
        ((congrArg Except.ok (Except.ok.inj hmiddle).symm).trans hnew'))
  obtain ⟨index, payload⟩ := new
  obtain ⟨index', payload'⟩ := new'
  cases (h₁.name.trans h₂.name).trans h.name.symm
  cases hpayload
  rfl

/-- Without a state to record, an insertion leaves the pool alone and adjusts the attributes. -/
theorem Done.of_no_join {block : Array UInt8} {s t : Edit}
    (done : Done ⟨position, block, none⟩ entry s t) :
    t.pool = s.pool ∧ List.Forall₂ (Adjusts ⟨position, block, none⟩ s.pool entry)
      s.body.attributes t.body.attributes := by
  obtain ⟨hrow, -⟩ := done.attributes (.inl rfl)
  have hjoined := done.joined
  generalize t.body.attributes = attributes, t.pool = pool at hjoined ⊢
  cases hjoined with
  | kept => exact ⟨rfl, hrow⟩
  | recorded unmapped state => cases state

/-! ## §3 The code with the block in its row -/

end Insertion

/-- From `offset` on up to `stop` the code is the given row of instructions. -/
inductive DecodesTo (code : Array UInt8) (stop : Nat) : Nat → List Instruction → Prop
  | nil : DecodesTo code stop stop []
  | cons {offset : Nat} {i : Instruction} {rest : List Instruction}
      (first : Instruction.decode code offset = .ok i) (behind : DecodesTo code stop i.next rest) :
      DecodesTo code stop offset (i :: rest)

namespace DecodesTo

variable {code : Array UInt8} {stop offset : Nat} {is rest : List Instruction}

theorem append (h : DecodesTo code stop offset is) (hrest : Decodes code stop rest) :
    Decodes code offset (is ++ rest) := by
  induction h with
  | nil => exact hrest
  | cons first _ ih => exact .cons first ih

theorem le (h : DecodesTo code stop offset is) : offset ≤ stop := by
  induction h with
  | nil => exact Nat.le_refl _
  | cons first _ ih =>
      obtain ⟨hoffset, -, -⟩ := Instruction.decode_bounds first
      unfold Instruction.next at ih
      omega

theorem bounds_of_mem (h : DecodesTo code stop offset is) {i : Instruction} (hi : i ∈ is) :
    offset ≤ i.offset ∧ i.next ≤ stop := by
  induction h with
  | nil => cases hi
  | cons first behind ih =>
      obtain ⟨hoffset, -, -⟩ := Instruction.decode_bounds first
      rcases List.mem_cons.mp hi with rfl | hi
      · exact ⟨Nat.le_of_eq hoffset.symm, behind.le⟩
      · obtain ⟨hle, hnext⟩ := ih hi
        unfold Instruction.next at hle
        exact ⟨by omega, hnext⟩

end DecodesTo

/-- There is only one way to decode code. -/
theorem Decodes.unique {code : Array UInt8} {offset : Nat} {is is' : List Instruction}
    (h : Decodes code offset is) (h' : Decodes code offset is') : is = is' := by
  induction h generalizing is' with
  | nil done =>
      cases h' with
      | nil => rfl
      | cons first _ =>
          obtain ⟨-, hpos, hfits⟩ := Instruction.decode_bounds first
          omega
  | cons first _ ih =>
      cases h' with
      | nil done =>
          obtain ⟨-, hpos, hfits⟩ := Instruction.decode_bounds first
          omega
      | cons first' behind' =>
          cases first.symm.trans first'
          rw [ih behind']

namespace Insertion

/-- The block is a row of instructions in the new code, and none of their jumps leads out of it;
one may lead to its end. -/
structure SelfContained (ins : Insertion) (new : Array UInt8) (row : List Instruction) : Prop where
  decodes : DecodesTo new (ins.position + ins.block.size) ins.position row
  jumps : ∀ i ∈ row, ∀ operands, i.jumpOperands new = .ok operands → ∀ o ∈ operands,
    ∀ relative, o.relative new = .ok relative →
      ins.position ≤ i.offset + relative ∧ i.offset + relative ≤ ins.position + ins.block.size

namespace Spliced

variable {ins : Insertion} {code new : Array UInt8} (t : Spliced ins code new)
include t

/-- Behind the block lie the instructions that lay behind the position. -/
theorem decodes_behind {offset : Nat} {is : List Instruction} (h : Decodes code offset is)
    (hmem : ∀ i ∈ is, i ∈ (decodeAll code).instructions) (hoffset : ins.position ≤ offset) :
    Decodes new (offset + ins.block.size) (is.map ins.relocation.instruction) := by
  have hsize := t.size_eq
  induction h with
  | nil done => exact .nil (by omega)
  | @cons offset i rest first _ ih =>
      rw [List.forall_mem_cons] at hmem
      obtain ⟨rfl, -, -⟩ := Instruction.decode_bounds first
      have hstart := ins.start_cases i.offset
      have hmoved : ins.relocation.start i.offset = i.offset + ins.block.size := by omega
      have hnext : (ins.relocation.instruction i).next = i.next + ins.block.size := by
        show ins.relocation.start i.offset + i.length = i.offset + i.length + _
        omega
      rw [List.map_cons]
      refine .cons (hmoved ▸ t.decode_moved hmem.1) ?_
      rw [hnext]
      exact ih hmem.2 (by unfold Instruction.next; omega)

/-- The instructions before the position lie where they lay; then comes the block and then the
rest. -/
theorem decodes_around {row : List Instruction}
    (hrow : DecodesTo new (ins.position + ins.block.size) ins.position row) {offset : Nat}
    {is : List Instruction} (h : Decodes code offset is)
    (hmem : ∀ i ∈ is, i ∈ (decodeAll code).instructions) (hoffset : offset ≤ ins.position) :
    ∃ front back, is = front ++ back ∧
      Decodes new offset (front.map ins.relocation.instruction ++
        (row ++ back.map ins.relocation.instruction)) := by
  have hposition := t.position_le
  induction h with
  | @nil offset done =>
      obtain rfl : offset = ins.position := by omega
      exact ⟨[], [], rfl, hrow.append (t.decodes_behind (.nil done) nofun (Nat.le_refl _))⟩
  | @cons offset i rest first behind ih =>
      rcases Nat.eq_or_lt_of_le hoffset with rfl | hbefore
      · exact ⟨[], i :: rest, rfl,
          hrow.append (t.decodes_behind (.cons first behind) hmem (Nat.le_refl _))⟩
      · rw [List.forall_mem_cons] at hmem
        obtain ⟨rfl, -, -⟩ := Instruction.decode_bounds first
        have hapart := t.decodes.before_or_behind t.boundary hmem.1
        have hstart := ins.start_cases i.offset
        have hstays : ins.relocation.start i.offset = i.offset := by omega
        obtain ⟨front, back, rfl, hdecodes⟩ := ih hmem.2 (by omega)
        refine ⟨i :: front, back, rfl, ?_⟩
        rw [List.map_cons, List.cons_append]
        refine .cons (hstays ▸ t.decode_moved hmem.1) ?_
        have hnext : (ins.relocation.instruction i).next = i.next := by
          show ins.relocation.start i.offset + i.length = i.offset + i.length
          rw [hstays]
        rwa [hnext]

/-- **The row of the new code**, if the block is a row itself. -/
theorem mem_instructions_iff {row : List Instruction}
    (hrow : DecodesTo new (ins.position + ins.block.size) ins.position row)
    (hcomplete : (decodeAll new).fault = none) {j : Instruction} :
    j ∈ (decodeAll new).instructions ↔
      j ∈ row ∨ ∃ i ∈ (decodeAll code).instructions, ins.relocation.instruction i = j := by
  obtain ⟨front, back, hsplit, hdecodes⟩ :=
    t.decodes_around hrow t.decodes (fun _ hi => hi) (Nat.zero_le _)
  rw [(decodes_decodeAll hcomplete).unique hdecodes, hsplit, List.mem_append, List.mem_append,
    List.mem_map, List.mem_map]
  simp only [List.mem_append, or_and_right, exists_or]
  exact or_left_comm

end Spliced

end Insertion

/-! ## §4 The code -/

theorem toNat_signed16 (v : UInt16) : (v.toInt16.toInt % 65536).toNat = v.toNat := by
  show (v.toBitVec.toInt % 65536).toNat = v.toBitVec.toNat
  rw [BitVec.toInt_eq_toNat_cond]
  have := v.toBitVec.isLt
  split <;> omega

theorem toNat_signed32 (v : UInt32) : (v.toInt32.toInt % 4294967296).toNat = v.toNat := by
  show (v.toBitVec.toInt % 4294967296).toNat = v.toBitVec.toNat
  rw [BitVec.toInt_eq_toNat_cond]
  have := v.toBitVec.isLt
  split <;> omega

/-- A stored jump has no other bytes than the ones it was read from. -/
theorem JumpOperand.store_of_relative {code : Array UInt8} {o : JumpOperand} {x : Int}
    (h : o.relative code = .ok x) {k : Nat} (hk : k < o.width.bytes) :
    code[o.position + k]? = (o.width.store x)[k]? := by
  obtain ⟨position, width⟩ := o
  cases width with
  | short =>
      obtain ⟨v, hv, h⟩ := except_bind_eq_ok.mp h
      cases except_pure_eq_ok.mp h
      obtain ⟨a, ha, hv⟩ := except_bind_eq_ok.mp hv
      obtain ⟨b, hb, hv⟩ := except_bind_eq_ok.mp hv
      rw [JumpWidth.store, toNat_signed16, ← BigEndian.u16, ← except_pure_eq_ok.mp hv,
        BigEndian.u16_value rfl]
      rw [Code.byteAt_eq_ok] at ha hb
      have hplace : k = 0 ∨ k = 1 := by
        have : k < 2 := hk
        omega
      rcases hplace with rfl | rfl
      · exact ha
      · exact hb
  | wide =>
      obtain ⟨a, ha, h⟩ := except_bind_eq_ok.mp h
      obtain ⟨b, hb, h⟩ := except_bind_eq_ok.mp h
      obtain ⟨c, hc, h⟩ := except_bind_eq_ok.mp h
      obtain ⟨d, hd, h⟩ := except_bind_eq_ok.mp h
      rw [← except_pure_eq_ok.mp h, JumpWidth.store, toNat_signed32, ← BigEndian.u32,
        BigEndian.u32_value rfl]
      rw [Code.byteAt_eq_ok] at ha hb hc hd
      have hplace : k = 0 ∨ k = 1 ∨ k = 2 ∨ k = 3 := by
        have : k < 4 := hk
        omega
      rcases hplace with rfl | rfl | rfl | rfl
      · exact ha
      · exact hb
      · exact hc
      · exact hd

namespace Insertion

namespace Spliced

variable {ins : Insertion} {code new : Array UInt8} (t : Spliced ins code new)
include t

theorem exists_jumps {i : Instruction} (hi : i ∈ (decodeAll code).instructions) :
    ∃ operands, i.Jumps code operands := by
  obtain ⟨pss, hpss, -⟩ := Relocation.patches_ok t.patching
  obtain ⟨ps, -, hpatches⟩ := exists_right_of_forall₂ hpss hi
  obtain ⟨operands, hjumps, -⟩ := Relocation.patchesOf_ok hpatches
  exact ⟨operands, hjumps⟩

/-- The moved instruction stores its jumps where the old one did. -/
theorem storesJumpAt_moved {i : Instruction} (hi : i ∈ (decodeAll code).instructions) {k : Nat}
    (h : (ins.relocation.instruction i).StoresJumpAt new k) :
    ∃ k', i.StoresJumpAt code k' ∧ ins.relocation.start k' = k := by
  obtain ⟨operands, hjumps⟩ := t.exists_jumps hi
  obtain ⟨hdecode, -⟩ := t.decodes.decode_of_mem hi
  obtain ⟨operands', hjumps', o', ho', hle, hlt⟩ := h
  have hmoved := Instruction.jumpOperands_eq_ok.mpr ((t.keptAt hi).jumps hdecode hjumps)
  cases (Instruction.jumpOperands_eq_ok.mpr hjumps').symm.trans hmoved
  obtain ⟨o, ho, rfl⟩ := List.mem_map.mp ho'
  obtain ⟨hbehind, hwithin⟩ := Instruction.length_of_jumps hdecode hjumps o ho
  dsimp only at hle hlt
  unfold Instruction.next at hwithin
  refine ⟨o.position + (k - (ins.relocation.start i.offset + (o.position - i.offset))),
    ⟨operands, hjumps, o, ho, by omega, by omega⟩, ?_⟩
  have hadd := t.start_add hi
    (k := o.position + (k - (ins.relocation.start i.offset + (o.position - i.offset))) - i.offset)
    (by omega)
  rw [Nat.add_sub_cancel' (by omega)] at hadd
  omega

end Spliced

/-- A block inserted into code, another one inserted at the same place afterwards, and both
inserted at once. -/
structure Twice (position : Nat) (first second code middle new new' : Array UInt8)
    (row : List Instruction) where
  inner : Spliced ⟨position, second, none⟩ code middle
  outer : Spliced ⟨position, first, none⟩ middle new
  joint : Spliced ⟨position, first ++ second, none⟩ code new'
  closed : ∀ i ∈ (decodeAll code).instructions, ∃ targets, i.jumpTargets code = .ok targets
  contained : SelfContained ⟨position, second, none⟩ middle row

namespace Twice

variable {position : Nat} {first second code middle new new' : Array UInt8}
  {row : List Instruction} (t : Twice position first second code middle new new' row)

/-- Both gaps together. -/
theorem start_joint (position : Nat) (first second : Array UInt8) (offset : Nat) :
    (⟨position, first ++ second, none⟩ : Insertion).relocation.start offset =
      (⟨position, first, none⟩ : Insertion).relocation.start
        ((⟨position, second, none⟩ : Insertion).relocation.start offset) := by
  simp only [relocation, Array.size_append]
  exact (Relocation.start_start offset).symm

include t

theorem mem_middle {j : Instruction} :
    j ∈ (decodeAll middle).instructions ↔ j ∈ row ∨ ∃ i ∈ (decodeAll code).instructions,
      (⟨position, second, none⟩ : Insertion).relocation.instruction i = j :=
  t.inner.mem_instructions_iff t.contained.decodes t.outer.complete

/-- The instructions of the block lie in it. -/
theorem bounds_of_row {i : Instruction} (hi : i ∈ row) :
    position ≤ i.offset ∧ i.next ≤ position + second.size :=
  t.contained.decodes.bounds_of_mem hi

/-- A jump that led into the code leads to the same instruction on both ways. -/
theorem jump_eq {i : Instruction} (hi : i ∈ (decodeAll code).instructions) {k : Nat}
    (hk : i.StoresJumpAt code k) :
    new[(⟨position, first ++ second, none⟩ : Insertion).relocation.start k]? =
      new'[(⟨position, first ++ second, none⟩ : Insertion).relocation.start k]? := by
  obtain ⟨operands, hjumps, o, ho, hle, hlt⟩ := hk
  obtain ⟨hdecode, -⟩ := t.inner.decodes.decode_of_mem hi
  obtain ⟨hbehind, hwithin⟩ := Instruction.length_of_jumps hdecode hjumps o ho
  unfold Instruction.next at hwithin
  obtain ⟨targets, htargets⟩ := t.closed i hi
  obtain ⟨operands', hoperands', htargets⟩ := except_bind_eq_ok.mp htargets
  cases (Instruction.jumpOperands_eq_ok.mpr hjumps).symm.trans hoperands'
  obtain ⟨target, -, htarget⟩ := exists_right_of_forall₂ (except_mapM_eq_ok.mp htargets) ho
  have hholds := t.inner.holds hi hjumps ho htarget
  obtain ⟨relative, hrelative, hsum, -⟩ := Instruction.targetOf_eq_ok.mp htarget
  rw [← Relocation.target_ofNat, ← hsum] at hholds
  -- Once the jump is moved by both lengths, once by one length after the other.
  have honce := t.joint.operand_eq hi hjumps ho hrelative (k := k - o.position) (by omega)
  have hmiddle := t.inner.relative_eq hi hjumps ho hrelative hholds
  have htwice := t.outer.operand_eq (t.mem_middle.mpr (.inr ⟨i, hi, rfl⟩))
    ((t.inner.keptAt hi).jumps hdecode hjumps) (List.mem_map_of_mem ho) hmiddle
    (k := k - o.position) (show k - o.position < o.width.bytes by omega)
  have hplace := t.joint.start_add hi (k := k - i.offset) (by omega)
  rw [Nat.add_sub_cancel' (by omega)] at hplace
  simp only [Relocation.instruction] at htwice
  rw [hsum, Relocation.target_ofNat] at honce htwice
  have hcancel (a b : Int) : a + (b - a) = b := by omega
  rw [hcancel, Relocation.target_ofNat, ← start_joint, ← start_joint,
    Nat.add_sub_cancel_left] at htwice
  have hsame : (⟨position, first ++ second, none⟩ : Insertion).relocation.start i.offset +
      (o.position - i.offset) + (k - o.position) =
        (⟨position, first ++ second, none⟩ : Insertion).relocation.start k := by omega
  rw [hsame] at honce htwice
  rw [htwice, honce]

/-- What lay outside the blocks is the same on both ways. -/
theorem moved_eq {k : Nat} (hk : k < code.size) :
    new[(⟨position, first ++ second, none⟩ : Insertion).relocation.start k]? =
      new'[(⟨position, first ++ second, none⟩ : Insertion).relocation.start k]? := by
  by_cases hjump : ∃ i ∈ (decodeAll code).instructions, i.StoresJumpAt code k
  · obtain ⟨i, hi, hstores⟩ := hjump
    exact t.jump_eq hi hstores
  · have hfree : ∀ i ∈ (decodeAll code).instructions, ¬ i.StoresJumpAt code k :=
      fun i hi hstores => hjump ⟨i, hi, hstores⟩
    have hstart := (⟨position, second, none⟩ : Insertion).start_cases k
    have hsize := t.inner.size_eq
    dsimp only at hstart hsize
    rw [t.joint.byte_eq hk hfree, start_joint, t.outer.byte_eq (by omega), t.inner.byte_eq hk hfree]
    intro j hj hstores
    rcases t.mem_middle.mp hj with hrow | ⟨i, hi, rfl⟩
    · obtain ⟨operands, hjumps, o, ho, hle, hlt⟩ := hstores
      obtain ⟨hdecode, -⟩ := t.outer.decodes.decode_of_mem hj
      obtain ⟨hbehind, hwithin⟩ := Instruction.length_of_jumps hdecode hjumps o ho
      have hbounds := t.bounds_of_row hrow
      omega
    · obtain ⟨k', hstores', hsame⟩ := t.inner.storesJumpAt_moved hi hstores
      have hstart' := (⟨position, second, none⟩ : Insertion).start_cases k'
      dsimp only at hstart'
      obtain rfl : k' = k := by omega
      exact hfree i hi hstores'

/-- The jumps of the block that was inserted first move along with their targets. -/
theorem row_jump_eq {i : Instruction} (hrow : i ∈ row) {k : Nat}
    (hk : i.StoresJumpAt middle (position + k)) :
    new[position + first.size + k]? = middle[position + k]? := by
  have hi : i ∈ (decodeAll middle).instructions := t.mem_middle.mpr (.inl hrow)
  obtain ⟨operands, hjumps, o, ho, hle, hlt⟩ := hk
  obtain ⟨p, -, hpatch⟩ := t.outer.exists_patch hi hjumps ho
  obtain ⟨relative, hrelative, -, -, -⟩ := Relocation.patch_ok hpatch
  obtain ⟨hdecode, -⟩ := t.outer.decodes.decode_of_mem hi
  obtain ⟨hbehind, -⟩ := Instruction.length_of_jumps hdecode hjumps o ho
  obtain ⟨hlow, -⟩ := t.contained.jumps i hrow operands
    (Instruction.jumpOperands_eq_ok.mpr hjumps) o ho relative hrelative
  have hbounds := t.bounds_of_row hrow
  have hmoved := (⟨position, first, none⟩ : Insertion).start_cases i.offset
  have hvalue : (⟨position, first, none⟩ : Insertion).relocation.target (i.offset + relative) -
      (⟨position, first, none⟩ : Insertion).relocation.start i.offset = relative := by
    unfold Relocation.target relocation at *
    dsimp only at *
    split <;> omega
  have hoperand := t.outer.operand_eq hi hjumps ho hrelative (k := position + k - o.position)
    (by omega)
  have hstored := JumpOperand.store_of_relative hrelative (k := position + k - o.position)
    (by omega)
  have hold : o.position + (position + k - o.position) = position + k := by omega
  have hnew : (⟨position, first, none⟩ : Insertion).relocation.start i.offset +
      (o.position - i.offset) + (position + k - o.position) = position + first.size + k := by
    dsimp only at hmoved
    omega
  rwa [hvalue, ← hstored, hold, hnew] at hoperand

/-- The block that was inserted first is still what it was. -/
theorem second_eq {k : Nat} (hk : k < second.size) :
    new[position + first.size + k]? = second[k]? := by
  have hblock : middle[position + k]? = second[k]? := t.inner.block_eq hk
  have hsize : middle.size = code.size + second.size := t.inner.size_eq
  have hposition : position ≤ code.size := t.inner.position_le
  have hstart := (⟨position, first, none⟩ : Insertion).start_cases (position + k)
  dsimp only at hstart
  have hplace : position + first.size + k =
      (⟨position, first, none⟩ : Insertion).relocation.start (position + k) := by omega
  rw [← hblock]
  by_cases hjump : ∃ i ∈ (decodeAll middle).instructions, i.StoresJumpAt middle (position + k)
  · obtain ⟨i, hi, hstores⟩ := hjump
    rcases t.mem_middle.mp hi with hrow | ⟨i, hi', rfl⟩
    · exact t.row_jump_eq hrow hstores
    · obtain ⟨k', -, hsame⟩ := t.inner.storesJumpAt_moved hi' hstores
      have hstart' := (⟨position, second, none⟩ : Insertion).start_cases k'
      dsimp only at hstart'
      omega
  · rw [hplace, t.outer.byte_eq (by omega)]
    exact fun i hi hstores => hjump ⟨i, hi, hstores⟩

/-- **Both ways lead to the same code.** -/
theorem code_eq : new = new' := by
  have hmiddle : middle.size = code.size + second.size := t.inner.size_eq
  have hsize : new.size = middle.size + first.size := t.outer.size_eq
  have hsize' : new'.size = code.size + (first ++ second).size := t.joint.size_eq
  have hposition : position ≤ code.size := t.inner.position_le
  rw [Array.size_append] at hsize'
  apply Array.ext_getElem?
  intro k
  have hmoved (k' : Nat) (hk' : k' < code.size)
      (h : (⟨position, first ++ second, none⟩ : Insertion).relocation.start k' = k) :
      new[k]? = new'[k]? := h ▸ t.moved_eq hk'
  have hstart (k' : Nat) := (⟨position, first ++ second, none⟩ : Insertion).start_cases k'
  simp only [Array.size_append] at hstart
  by_cases hbefore : k < position
  · refine hmoved k (by omega) ?_
    have := hstart k
    omega
  obtain ⟨j, rfl⟩ := Nat.exists_eq_add_of_le (Nat.not_lt.mp hbefore)
  by_cases hfirst : j < first.size
  · have hnew : new[position + j]? = first[j]? := t.outer.block_eq hfirst
    have hnew' : new'[position + j]? = (first ++ second)[j]? :=
      t.joint.block_eq (show j < (first ++ second).size by rw [Array.size_append]; omega)
    rw [hnew, hnew', Array.getElem?_append_left hfirst]
  obtain ⟨j, rfl⟩ := Nat.exists_eq_add_of_le (Nat.not_lt.mp hfirst)
  by_cases hsecond : j < second.size
  · have hnew' : new'[position + (first.size + j)]? = (first ++ second)[first.size + j]? :=
      t.joint.block_eq (show first.size + j < (first ++ second).size by
        rw [Array.size_append]; omega)
    rw [hnew', Array.getElem?_append_right (by omega), Nat.add_sub_cancel_left, ← Nat.add_assoc,
      t.second_eq hsecond]
  by_cases hinside : position + (first.size + j) < new.size
  · refine hmoved (position + j - second.size) (by omega) ?_
    have := hstart (position + j - second.size)
    omega
  · rw [Array.getElem?_eq_none (by omega), Array.getElem?_eq_none (by omega)]

end Twice

/-! ## §5 The whole insertions -/

/-- **Two insertions at one place are one insertion of both blocks.**  Let the jumps and the tables
of a body stay within its code, and let the block that is inserted first be a row of instructions
there whose jumps do not leave it.  If the insertions succeed, one after the other and both at once,
the code, the handlers and the attributes are the same on both ways. -/
theorem insert_twice (position : Nat) (first second : Array UInt8) (entry : List VerificationType)
    (body : Body) (pool : Pool) (middle new new' : Edit) (row : List Instruction)
    (closed : ∀ i ∈ (decodeAll body.code).instructions,
      ∃ targets, i.jumpTargets body.code = .ok targets)
    (tables : body.Inside pool) (frames : body.FramesInside pool entry)
    (h₂ : (⟨position, second, none⟩ : Insertion).run entry ⟨body, pool⟩ = .ok () middle)
    (contained : SelfContained ⟨position, second, none⟩ middle.body.code row)
    (h₁ : (⟨position, first, none⟩ : Insertion).run entry middle = .ok () new)
    (h : (⟨position, first ++ second, none⟩ : Insertion).run entry ⟨body, pool⟩ = .ok () new') :
    new.body.code = new'.body.code ∧ new.body.handlers = new'.body.handlers ∧
      new.body.attributes = new'.body.attributes := by
  obtain ⟨inner⟩ := run_steps h₂
  obtain ⟨outer⟩ := run_steps h₁
  obtain ⟨joint⟩ := run_steps h
  obtain ⟨t₂⟩ := splice_ok inner.spliced
  obtain ⟨t₁⟩ := splice_ok outer.spliced
  obtain ⟨t⟩ := splice_ok joint.spliced
  have hsize : body.code.size + second.size < 65536 := Nat.lt_succ_of_le t₂.small
  refine ⟨(Twice.mk t₂ t₁ t closed contained).code_eq, ?_, ?_⟩
  · rw [outer.handlers, inner.handlers, joint.handlers, List.map_map]
    refine List.map_congr_left fun h hh => ?_
    obtain ⟨hstart, hstop, htarget⟩ := tables.handlers h hh
    simp only [relocation, Array.size_append]
    exact Relocation.handler_handler hsize hstart hstop htarget
  · obtain ⟨hpool, hinner⟩ := inner.of_no_join
    obtain ⟨-, houter⟩ := outer.of_no_join
    obtain ⟨-, hjoint⟩ := joint.of_no_join
    rw [hpool] at houter
    have hboth := forall₂_with_mem (forall₂_through hinner houter)
    have hsame := map_eq_map_of_forall₂ (f := id) (g := id) hboth hjoint ?_
    · rwa [List.map_id, List.map_id] at hsame
    · rintro a b c ⟨ha, -, m, hm, hb⟩ hc
      exact adjusts_twice tables frames hsize t₂.position_le ha hm hb hc

/-- A jump to the end of the block. -/
def skipBlock : Insertion := ⟨4, #[0xa7, 0, 3], none⟩

/-- The code with the jump behind the branch. -/
def skippedCode : Array UInt8 := #[0x03, 0x99, 0, 7, 0xa7, 0, 3, 0, 0xb1]

theorem selfContained_skipBlock : skipBlock.SelfContained skippedCode [⟨4, .goto, 3⟩] := by
  have hdecode : Instruction.decode skippedCode 4 = .ok ⟨4, .goto, 3⟩ :=
    Instruction.decode_eq_ok.mpr ⟨0xa7, rfl, Opcode.ofByte?_byte .goto, rfl, rfl, by decide⟩
  refine ⟨.cons hdecode .nil, ?_⟩
  intro i hi operands hoperands o ho relative hrelative
  cases List.mem_singleton.mp hi
  cases hoperands
  cases List.mem_singleton.mp ho
  cases hrelative
  decide

theorem inside_branchBody : branchBody.Inside branchNames := by
  refine ⟨by decide, ?_, ?_⟩
  · intro a ha hname
    cases List.mem_singleton.mp ha
    exact absurd (Except.ok.inj hname) (by decide)
  · intro a ha hname
    cases List.mem_singleton.mp ha
    rcases hname with hname | hname
    · exact absurd (Except.ok.inj hname) (by decide)
    · exact absurd (Except.ok.inj hname) (by decide)

/-- The branch leads into its code, and the three insertions of the example succeed. -/
theorem evaluated_branchBody :
    ((decodeAll branchBody.code).instructions.all fun i =>
      (i.jumpTargets branchBody.code).toOption.isSome) = true ∧
    accepts (fun _ middle => decide (middle.body.code = skippedCode) &&
      accepts (fun _ _ => true) ((⟨4, #[0], none⟩ : Insertion).run [] middle) &&
      accepts (fun _ _ => true)
        ((⟨4, #[0] ++ skipBlock.block, none⟩ : Insertion).run [] ⟨branchBody, branchNames⟩))
      (skipBlock.run [] ⟨branchBody, branchNames⟩) = true := by
  decide +kernel

theorem insert_twice_branchBody :
    ∃ middle new new' : Edit,
      skipBlock.run [] ⟨branchBody, branchNames⟩ = .ok () middle ∧
      (⟨4, #[0], none⟩ : Insertion).run [] middle = .ok () new ∧
      (⟨4, #[0] ++ skipBlock.block, none⟩ : Insertion).run [] ⟨branchBody, branchNames⟩ =
        .ok () new' ∧
      new.body.code = new'.body.code ∧ new.body.handlers = new'.body.handlers ∧
      new.body.attributes = new'.body.attributes := by
  obtain ⟨hclosed, hruns⟩ := evaluated_branchBody
  have closed : ∀ i ∈ (decodeAll branchBody.code).instructions,
      ∃ targets, i.jumpTargets branchBody.code = .ok targets := by
    intro i hi
    obtain ⟨targets, htargets⟩ := Option.isSome_iff_exists.mp (List.all_eq_true.mp hclosed i hi)
    exact ⟨targets, eq_ok_of_toOption htargets⟩
  obtain ⟨⟨⟩, middle, h₂, hrest⟩ := accepts_eq_true.mp hruns
  rw [Bool.and_eq_true, Bool.and_eq_true, decide_eq_true_eq] at hrest
  obtain ⟨⟨hcode, houter⟩, hjoint⟩ := hrest
  obtain ⟨⟨⟩, new, h₁, -⟩ := accepts_eq_true.mp houter
  obtain ⟨⟨⟩, new', h, -⟩ := accepts_eq_true.mp hjoint
  exact ⟨middle, new, new', h₂, h₁, h, insert_twice 4 #[0] skipBlock.block [] branchBody
    branchNames middle new new' [⟨4, .goto, 3⟩] closed inside_branchBody framesInside_branchBody h₂
    (hcode ▸ selfContained_skipBlock) h₁ h⟩

end Insertion

end Reshape
