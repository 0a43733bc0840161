import Reshape.Proofs.Bytes.Reading
import Reshape.Proofs.Code.Relocation

/-!
# Tables follow the code

Protected ranges and the ranges of local variables start at an instruction and end before one, so
their two ends are moved by different rules.  Together the rules keep what a range covers: each
instruction is covered at its new place if it was at its old one, and the block is covered if the
position lay strictly inside the range.  A source line begins at an instruction and stays with it.
No offset is cut off on the way, since all of them lie within code that can still be written.
-/

namespace Reshape

/-! ## §1 The two ends of a range -/

namespace Relocation

variable (r : Relocation)

theorem start_le_start_iff {a b : Nat} : r.start a ≤ r.start b ↔ a ≤ b := by
  unfold start
  split <;> split <;> omega

theorem start_lt_stop_iff {a b : Nat} : r.start a < r.stop b ↔ a < b := by
  unfold start stop
  split <;> split <;> omega

/-- The gap lies behind what starts before it. -/
theorem start_le_gap_iff {a k : Nat} (hk : k < r.length) :
    r.start a ≤ r.position + k ↔ a < r.position := by
  unfold start
  split <;> omega

theorem gap_lt_stop_iff {b k : Nat} (hk : k < r.length) :
    r.position + k < r.stop b ↔ r.position < b := by
  unfold stop
  split <;> omega

theorem stop_le (a : Nat) : r.stop a ≤ a + r.length := by
  unfold stop
  split <;> omega

theorem toNat_stop16 {offset : UInt16} (h : offset.toNat + r.length < 65536) :
    (r.stop16 offset).toNat = r.stop offset.toNat :=
  UInt16.toNat_ofNat_of_lt' (Nat.lt_of_le_of_lt (r.stop_le _) h)

end Relocation

/-! ## §2 What an entry covers -/

/-- The offsets that a handler protects. -/
def Handler.Covers (h : Handler) (offset : Nat) : Prop :=
  h.start.toNat ≤ offset ∧ offset < h.stop.toNat

/-- The offsets at which a local variable has its value. -/
def LocalVariable.Covers (v : LocalVariable) (offset : Nat) : Prop :=
  v.start.toNat ≤ offset ∧ offset < v.start.toNat + v.length.toNat

/-- A handler that has followed the code. -/
structure Handler.Follows (r : Relocation) (h h' : Handler) : Prop where
  start : h'.start.toNat = r.start h.start.toNat
  stop : h'.stop.toNat = r.stop h.stop.toNat
  target : h'.target.toNat = r.start h.target.toNat
  catchType : h'.catchType = h.catchType
  covers : ∀ offset, h'.Covers (r.start offset) ↔ h.Covers offset
  block : ∀ k < r.length, h'.Covers (r.position + k) ↔
    h.start.toNat < r.position ∧ r.position < h.stop.toNat

/-- An entry of the table of source lines that has followed the code. -/
structure LineNumber.Follows (r : Relocation) (l l' : LineNumber) : Prop where
  start : l'.start.toNat = r.start l.start.toNat
  line : l'.line = l.line
  /-- It is in force at the same instructions. -/
  applies : ∀ offset, l'.start.toNat ≤ r.start offset ↔ l.start.toNat ≤ offset

/-- A local variable that has followed the code. -/
structure LocalVariable.Follows (r : Relocation) (v v' : LocalVariable) : Prop where
  start : v'.start.toNat = r.start v.start.toNat
  /-- A range without offsets may start behind the gap and end before it. -/
  length : v'.length.toNat = r.stop (v.start.toNat + v.length.toNat) - r.start v.start.toNat
  name : v'.name = v.name
  descriptor : v'.descriptor = v.descriptor
  index : v'.index = v.index
  covers : ∀ offset, v'.Covers (r.start offset) ↔ v.Covers offset
  block : ∀ k < r.length, v'.Covers (r.position + k) ↔
    v.start.toNat < r.position ∧ r.position < v.start.toNat + v.length.toNat

namespace Relocation

variable {r : Relocation} {size : Nat}

theorem follows_handler {h : Handler} (hsize : size + r.length < 65536)
    (hstart : h.start.toNat ≤ size) (hstop : h.stop.toNat ≤ size)
    (htarget : h.target.toNat ≤ size) : h.Follows r (r.handler h) := by
  have hstart' : (r.handler h).start.toNat = r.start h.start.toNat :=
    r.toNat_start16 (by omega)
  have hstop' : (r.handler h).stop.toNat = r.stop h.stop.toNat := r.toNat_stop16 (by omega)
  refine ⟨hstart', hstop', r.toNat_start16 (by omega), rfl, ?_, ?_⟩
  · intro offset
    unfold Handler.Covers
    rw [hstart', hstop', r.start_le_start_iff, r.start_lt_stop_iff]
  · intro k hk
    unfold Handler.Covers
    rw [hstart', hstop', r.start_le_gap_iff hk, r.gap_lt_stop_iff hk]

theorem follows_lineNumber {l : LineNumber} (hsize : size + r.length < 65536)
    (hstart : l.start.toNat ≤ size) : l.Follows r (r.lineNumber l) := by
  have hstart' : (r.lineNumber l).start.toNat = r.start l.start.toNat :=
    r.toNat_start16 (by omega)
  refine ⟨hstart', rfl, ?_⟩
  intro offset
  rw [hstart', r.start_le_start_iff]

theorem follows_localVariable {v : LocalVariable} (hsize : size + r.length < 65536)
    (hstop : v.start.toNat + v.length.toNat ≤ size) : v.Follows r (r.localVariable v) := by
  have hstart_le := r.start_le v.start.toNat
  have hstop_le := r.stop_le (v.start.toNat + v.length.toNat)
  have hstart' : (r.localVariable v).start.toNat = r.start v.start.toNat :=
    UInt16.toNat_ofNat_of_lt' (show _ < 65536 by omega)
  have hlength' : (r.localVariable v).length.toNat =
      r.stop (v.start.toNat + v.length.toNat) - r.start v.start.toNat :=
    UInt16.toNat_ofNat_of_lt' (show _ < 65536 by omega)
  refine ⟨hstart', hlength', rfl, rfl, rfl, ?_, ?_⟩
  · intro offset
    have hle := @start_le_start_iff r v.start.toNat offset
    have hlt := @start_lt_stop_iff r offset (v.start.toNat + v.length.toNat)
    unfold LocalVariable.Covers
    rw [hstart', hlength']
    omega
  · intro k hk
    have hle := @start_le_gap_iff r v.start.toNat k hk
    have hlt := @gap_lt_stop_iff r (v.start.toNat + v.length.toNat) k hk
    unfold LocalVariable.Covers
    rw [hstart', hlength']
    omega

end Relocation

/-! ## §3 Reading the tables back -/

theorem LineNumber.reads_encode (l : LineNumber) : Reads LineNumber.read l.encode l :=
  .bind (.u16 l.start) (.last (LineNumber.mk l.start) (.u16 l.line))

theorem LineNumber.parse_of_encode {ls : List LineNumber} {bs : Bytes}
    (h : encodeAll ls = .ok bs) : parseAll bs = .ok ls :=
  (Table.reads_encode (fun l _ => l.reads_encode) h).runOn

theorem LocalVariable.reads_encode (v : LocalVariable) : Reads LocalVariable.read v.encode v := by
  unfold encode
  simp only [List.append_assoc]
  exact .bind (.u16 v.start) (.bind (.u16 v.length) (.bind (.u16 v.name)
    (.bind (.u16 v.descriptor) (.last (LocalVariable.mk v.start v.length v.name v.descriptor)
      (.u16 v.index)))))

theorem LocalVariable.parse_of_encode {vs : List LocalVariable} {bs : Bytes}
    (h : encodeAll vs = .ok bs) : parseAll bs = .ok vs :=
  (Table.reads_encode (fun v _ => v.reads_encode) h).runOn

/-! ## §4 The attributes of a body -/

/-- The handlers and the debug tables mention no offset behind the end of the code. -/
structure Body.Inside (body : Body) (pool : Pool) : Prop where
  handlers : ∀ h ∈ body.handlers, h.start.toNat ≤ body.code.size ∧
    h.stop.toNat ≤ body.code.size ∧ h.target.toNat ≤ body.code.size
  lines : ∀ a ∈ body.attributes, pool.utf8 a.name = .ok Attribute.lineNumberTableName →
    ∀ ls, LineNumber.parseAll a.payload = .ok ls → ∀ l ∈ ls, l.start.toNat ≤ body.code.size
  locals : ∀ a ∈ body.attributes,
    pool.utf8 a.name = .ok Attribute.localVariableTableName ∨
      pool.utf8 a.name = .ok Attribute.localVariableTypeTableName →
    ∀ vs, LocalVariable.parseAll a.payload = .ok vs →
      ∀ v ∈ vs, v.start.toNat + v.length.toNat ≤ body.code.size

/-- What becomes of an attribute of a body.  Frame tables are a matter of their own. -/
inductive Attribute.Follows (r : Relocation) (pool : Pool) (a a' : Attribute) : Prop
  | lines {ls ls' : List LineNumber} (name : pool.utf8 a.name = .ok lineNumberTableName)
      (old : LineNumber.parseAll a.payload = .ok ls)
      (new : LineNumber.parseAll a'.payload = .ok ls')
      (rows : List.Forall₂ (LineNumber.Follows r) ls ls')
  | locals {vs vs' : List LocalVariable}
      (name : pool.utf8 a.name = .ok localVariableTableName ∨
        pool.utf8 a.name = .ok localVariableTypeTableName)
      (old : LocalVariable.parseAll a.payload = .ok vs)
      (new : LocalVariable.parseAll a'.payload = .ok vs')
      (rows : List.Forall₂ (LocalVariable.Follows r) vs vs')
  | frames (name : pool.utf8 a.name = .ok stackMapTableName)
  | other {name : String} (read : pool.utf8 a.name = .ok name)
      (unknown : Insertion.NoTable name) (same : a' = a)

theorem Insertion.Adjusts.follows {ins : Insertion} {pool : Pool} {entry : List VerificationType}
    {body : Body} {a a' : Attribute} (h : ins.Adjusts pool entry a a') (hinside : body.Inside pool)
    (hsize : body.code.size + ins.block.size < 65536) (ha : a ∈ body.attributes) :
    a'.name = a.name ∧ a.Follows ins.relocation pool a' := by
  refine ⟨h.name, ?_⟩
  obtain ⟨name, hname, hpayload⟩ := h.payload
  rcases Insertion.table_cases name with rfl | htable | rfl | hother
  · obtain ⟨ls, hls, hencode⟩ := Insertion.payload_lines hpayload
    refine .lines hname hls (LineNumber.parse_of_encode hencode) ?_
    rw [List.forall₂_map_right_iff, List.forall₂_same]
    intro l hl
    exact Relocation.follows_lineNumber hsize (hinside.lines a ha hname ls hls l hl)
  · obtain ⟨vs, hvs, hencode⟩ := Insertion.payload_locals htable hpayload
    have hread : pool.utf8 a.name = .ok Attribute.localVariableTableName ∨
        pool.utf8 a.name = .ok Attribute.localVariableTypeTableName := by
      rw [hname, Except.ok.injEq, Except.ok.injEq]
      exact htable
    refine .locals hread hvs (LocalVariable.parse_of_encode hencode) ?_
    rw [List.forall₂_map_right_iff, List.forall₂_same]
    intro v hv
    exact Relocation.follows_localVariable hsize (hinside.locals a ha hread vs hvs v hv)
  · exact .frames hname
  · rw [Insertion.payload_other hother] at hpayload
    refine .other hname hother ?_
    obtain ⟨name', payload'⟩ := a'
    cases h.name
    cases hpayload
    rfl

/-! ## §5 The whole insertion -/

namespace Insertion

/-- **Tables follow the code.**  Let the handlers and the debug tables mention only offsets of the
code or its end, and let the pool be one that a class can have.  If the insertion succeeds, every
instruction is found again at its new place, and each handler, source line and local variable is in
its row again and stands for the same instructions; the block belongs to the ranges in which the
position lay strictly inside.  All offsets are equations between numbers, so none has been cut off.
Limits and foreign attributes stay, and at most a frame table is new. -/
theorem tables_follow_code (ins : Insertion) (entry : List VerificationType) (body : Body)
    (pool : Pool) (edit : Edit) (hpool : ins.join = none ∨ pool.Addressable)
    (inside : body.Inside pool) (hrun : ins.run entry ⟨body, pool⟩ = .ok () edit) :
    (∀ i ∈ (decodeAll body.code).instructions,
      Instruction.decode edit.body.code (ins.relocation.start i.offset) =
        .ok (ins.relocation.instruction i)) ∧
    List.Forall₂ (Handler.Follows ins.relocation) body.handlers edit.body.handlers ∧
    edit.body.maxLocals = body.maxLocals ∧
    ∃ attributes added, edit.body.attributes = attributes ++ added ∧
      List.Forall₂ (fun a a' => a'.name = a.name ∧ a.Follows ins.relocation pool a')
        body.attributes attributes ∧
      (added = [] ∨
        (∀ a ∈ body.attributes, ¬ IsMap pool a) ∧ ∃ a, added = [a] ∧ IsMap edit.pool a) := by
  obtain ⟨done⟩ := run_steps hrun
  obtain ⟨t⟩ := splice_ok done.spliced
  have hsize : body.code.size + ins.block.size < 65536 := Nat.lt_succ_of_le t.small
  obtain ⟨hrow, hadded⟩ := done.attributes hpool
  have hfollow : List.Forall₂ (fun a a' => a'.name = a.name ∧ a.Follows ins.relocation pool a')
      body.attributes done.adjusted := by
    rw [List.forall₂_iff_zip] at hrow ⊢
    refine ⟨hrow.1, fun hmem => ?_⟩
    exact (hrow.2 hmem).follows inside hsize (List.of_mem_zip hmem).1
  refine ⟨fun i hi => t.decode_moved hi, ?_, done.maxLocals, ?_⟩
  · rw [done.handlers, List.forall₂_map_right_iff, List.forall₂_same]
    intro h hh
    obtain ⟨hstart, hstop, htarget⟩ := inside.handlers h hh
    exact Relocation.follows_handler hsize hstart hstop htarget
  · rcases hadded with ⟨hattributes, -⟩ | ⟨hnone, join, a, -, hmap, -, hattributes⟩
    · exact ⟨done.adjusted, [], by rw [hattributes, List.append_nil], hfollow, .inl rfl⟩
    · exact ⟨done.adjusted, [a], hattributes, hfollow, .inr ⟨hnone, a, rfl, hmap⟩⟩

/-- Two statements, each in a protected range of its own and both in a third one. -/
def statements : Body :=
  ⟨1, 1, #[0x03, 0x57, 0x04, 0x57, 0xb1, 0x57, 0xb1], [⟨0, 2, 5, 0⟩, ⟨2, 4, 5, 0⟩, ⟨0, 4, 5, 0⟩],
    [⟨1, [0, 3, 0, 0, 0, 10, 0, 2, 0, 11, 0, 5, 0, 12]⟩,
      ⟨2, [0, 2, 0, 0, 0, 7, 0, 3, 0, 3, 0, 0, 0, 0, 0, 2, 0, 3, 0, 3, 0, 1]⟩]⟩

def statementNames : Pool :=
  ⟨#[.unused, .utf8 Attribute.lineNumberTableName, .utf8 Attribute.localVariableTableName,
    .utf8 "I"]⟩

/-- Two operations that do nothing, between the statements. -/
def betweenStatements : Insertion := ⟨2, #[0, 0], none⟩

theorem inside_statements : statements.Inside statementNames := by
  have hlines : LineNumber.parseAll [0, 3, 0, 0, 0, 10, 0, 2, 0, 11, 0, 5, 0, 12] =
      .ok [⟨0, 10⟩, ⟨2, 11⟩, ⟨5, 12⟩] := LineNumber.parse_of_encode rfl
  have hlocals : LocalVariable.parseAll
      [0, 2, 0, 0, 0, 7, 0, 3, 0, 3, 0, 0, 0, 0, 0, 2, 0, 3, 0, 3, 0, 1] =
      .ok [⟨0, 7, 3, 3, 0⟩, ⟨0, 2, 3, 3, 1⟩] := LocalVariable.parse_of_encode rfl
  refine ⟨by decide, ?_, ?_⟩
  · intro a ha hname ls hls
    rcases List.mem_pair.mp ha with rfl | rfl
    · cases hlines.symm.trans hls
      decide
    · exact absurd (Except.ok.inj hname) (by decide)
  · intro a ha hname vs hvs
    rcases List.mem_pair.mp ha with rfl | rfl
    · rcases hname with hname | hname
      · exact absurd (Except.ok.inj hname) (by decide)
      · exact absurd (Except.ok.inj hname) (by decide)
    · cases hlocals.symm.trans hvs
      decide

theorem tables_follow_code_statements :
    ∃ edit, betweenStatements.run [] ⟨statements, statementNames⟩ = .ok () edit ∧
      edit.body.handlers = [⟨0, 2, 7, 0⟩, ⟨4, 6, 7, 0⟩, ⟨0, 6, 7, 0⟩] ∧
      List.Forall₂ (Handler.Follows betweenStatements.relocation) statements.handlers
        edit.body.handlers := by
  obtain ⟨⟨⟩, edit, hrun, -⟩ := accepts_eq_true.mp (show accepts (fun _ _ => true)
    (betweenStatements.run [] ⟨statements, statementNames⟩) = true by decide +kernel)
  obtain ⟨-, hhandlers, -⟩ := tables_follow_code betweenStatements [] statements
    statementNames edit (.inl rfl) inside_statements hrun
  refine ⟨edit, hrun, ?_, hhandlers⟩
  rw [(run_ok hrun).2.1]
  rfl

end Insertion

end Reshape
