import Reshape.Proofs.Code.Sequential

/-!
# What a failed insertion leaves

An insertion first puts the new code together, and while it can still be refused nothing is
written.  Everything behind that works on the body itself: the code and the handlers are in place
when an attribute turns out to be malformed, the state behind the block cannot be recorded, or the
stack cannot be followed.  So a failed insertion leaves the body as it was exactly if it was
refused, or if it had no block and rewrote no attribute.
-/

namespace Reshape.Insertion

/-! ## §1 Steps that fail -/

theorem ofExcept_eq_error {α : Type} {x : Except BuildError α} {e : BuildError} {s t : Edit} :
    Editing.ofExcept x s = .error e t ↔ x = .error e ∧ s = t := by
  constructor
  · intro h
    cases x with
    | error e' =>
        cases h
        exact ⟨rfl, rfl⟩
    | ok a => cases h
  · rintro ⟨rfl, rfl⟩
    rfl

/-- When the state behind the block cannot be recorded, at most the pool has grown. -/
theorem recordJoin_error {entry : List VerificationType} {join : FrameState} {s t : Edit}
    {e : BuildError} (h : recordJoin entry join s = .error e t) :
    t.body = s.body ∧ Pool.Growth s.pool t.pool := by
  rcases state_bind_eq_error.mp h with h | ⟨payload, s₁, hpayload, h⟩
  · obtain ⟨-, rfl⟩ := ofExcept_eq_error.mp h
    exact ⟨rfl, .refl⟩
  obtain ⟨-, rfl⟩ := Editing.ofExcept_eq_ok.mp hpayload
  rcases state_bind_eq_error.mp h with h | ⟨s₂, s₃, hget, h⟩
  · cases h
  obtain ⟨rfl, rfl⟩ := state_get_eq_ok.mp hget
  rcases state_bind_eq_error.mp h with h | ⟨attributes, s₄, -, h⟩
  · have hgrows := Attribute.grows_set Attribute.stackMapTableName payload s.body.attributes s.pool
    unfold Editing.interning onPart at h
    unfold stateAfter at hgrows
    split at h
    · cases h
    · next hset =>
      rw [hset] at hgrows
      cases h
      exact ⟨rfl, hgrows⟩
  · cases h

/-- When the stack cannot be followed, its limit has not been touched. -/
theorem raiseMaxStack_error {s t : Edit} {e : BuildError} (h : raiseMaxStack s = .error e t) :
    t = s := by
  rcases state_bind_eq_error.mp h with h | ⟨s₁, s₂, hget, h⟩
  · cases h
  obtain ⟨rfl, rfl⟩ := state_get_eq_ok.mp hget
  rcases state_bind_eq_error.mp h with h | ⟨depth, s₃, -, h⟩
  · exact (ofExcept_eq_error.mp h).2.symm
  · cases h

section Attributes

variable {ins : Insertion} {pool : Pool} {entry : List VerificationType}

/-- The attributes in front of the one that cannot be adjusted are adjusted, the others are not. -/
theorem attributes_error {e : BuildError} {attributes : List Attribute} :
    ∀ {mapped : Bool} {attributes' : List Attribute},
      ins.attributes pool entry mapped attributes = (attributes', .error e) →
        ∃ done rest adjusted, attributes = done ++ rest ∧ attributes' = adjusted ++ rest ∧
          List.Forall₂ (Adjusts ins pool entry) done adjusted := by
  induction attributes with
  | nil => exact nofun
  | cons a rest ih =>
      intro mapped attributes' h
      obtain ⟨-, -, rfl⟩ | ⟨a', name, rest', hadjusts, -, rfl, hrest⟩ := attributes_cons h
      · exact ⟨[], a :: rest, [], rfl, rfl, .nil⟩
      · obtain ⟨done, left, adjusted, rfl, rfl, hrow⟩ := ih hrest
        exact ⟨a :: done, left, a' :: adjusted, rfl, rfl, .cons hadjusts hrow⟩

end Attributes

/-! ## §2 What is left -/

/-- What an insertion leaves that fails once the new code is in place. -/
structure Abandoned (ins : Insertion) (entry : List VerificationType) (s t : Edit) : Prop where
  spliced : ins.splice s.body.code = .ok t.body.code
  handlers : t.body.handlers = s.body.handlers.map ins.relocation.handler
  maxStack : t.body.maxStack = s.body.maxStack
  maxLocals : t.body.maxLocals = s.body.maxLocals
  /-- Some of the attributes are adjusted; if all are, one may have been added or replaced. -/
  attributes : ∃ done rest adjusted, s.body.attributes = done ++ rest ∧
    List.Forall₂ (Adjusts ins s.pool entry) done adjusted ∧
      (t.body.attributes = adjusted ++ rest ∨
        rest = [] ∧ ∃ mapped, Joined ins entry mapped adjusted s.pool t.body.attributes t.pool)
  pool : Pool.Growth s.pool t.pool

/-- **An insertion is refused, or it is abandoned half-way.** -/
theorem run_error {ins : Insertion} {entry : List VerificationType} {s t : Edit} {e : BuildError}
    (h : ins.run entry s = .error e t) :
    ins.splice s.body.code = .error e ∧ t = s ∨ Abandoned ins entry s t := by
  rcases state_bind_eq_error.mp h with h | ⟨s₁, s₂, hget, h⟩
  · cases h
  obtain ⟨rfl, rfl⟩ := state_get_eq_ok.mp hget
  rcases state_bind_eq_error.mp h with h | ⟨code, s₃, hcode, h⟩
  · obtain ⟨hrefused, rfl⟩ := ofExcept_eq_error.mp h
    exact .inl ⟨hrefused, rfl⟩
  obtain ⟨hsplice, rfl⟩ := Editing.ofExcept_eq_ok.mp hcode
  refine .inr ?_
  rcases state_bind_eq_error.mp h with h | ⟨u, s₄, hset, h⟩
  · cases h
  cases state_set_eq_ok.mp hset
  generalize hadjusting : ins.attributes s.pool entry false s.body.attributes = result at h
  obtain ⟨adjusted, outcome⟩ := result
  rcases state_bind_eq_error.mp h with h | ⟨mapped, s₅, hmapped, h⟩
  · obtain ⟨rfl, rfl⟩ := ofExcept_eq_error.mp h
    obtain ⟨done, rest, adjusted', hold, hnew, hrow⟩ := attributes_error hadjusting
    exact ⟨hsplice, rfl, rfl, rfl, ⟨done, rest, adjusted', hold, hrow, .inl hnew⟩, .refl⟩
  obtain ⟨rfl, rfl⟩ := Editing.ofExcept_eq_ok.mp hmapped
  obtain ⟨hrow, -⟩ := attributes_ok hadjusting
  have hlast {r : Edit} (hr : raiseMaxStack r = .error e t)
      (hbody : r.body = { s.body with
        code, handlers := s.body.handlers.map ins.relocation.handler,
        attributes := r.body.attributes })
      (hjoined : Joined ins entry mapped adjusted s.pool r.body.attributes r.pool) :
      Abandoned ins entry s t := by
    cases raiseMaxStack_error hr
    have hattributes : ∃ done rest adjusted, s.body.attributes = done ++ rest ∧
        List.Forall₂ (Adjusts ins s.pool entry) done adjusted ∧
          (t.body.attributes = adjusted ++ rest ∨ rest = [] ∧
            ∃ mapped, Joined ins entry mapped adjusted s.pool t.body.attributes t.pool) :=
      ⟨s.body.attributes, [], adjusted, (List.append_nil _).symm, hrow, .inr ⟨rfl, mapped, hjoined⟩⟩
    exact ⟨by rw [hbody, hsplice], by rw [hbody], by rw [hbody], by rw [hbody], hattributes,
      hjoined.growth⟩
  cases mapped with
  | true => exact hlast h rfl (.kept (.inl rfl))
  | false =>
      cases hjoin : ins.joinState? with
      | none =>
          rw [hjoin] at h
          exact hlast h rfl (.kept (.inr (Option.map_eq_none_iff.mp hjoin)))
      | some join =>
          rw [hjoin] at h
          rcases state_bind_eq_error.mp h with h | ⟨u₂, s₆, hrecord, h⟩
          · obtain ⟨hbody, hpool⟩ := recordJoin_error h
            refine ⟨by rw [hbody, hsplice], by rw [hbody], by rw [hbody], by rw [hbody],
              ⟨s.body.attributes, [], adjusted, (List.append_nil _).symm, hrow, .inl ?_⟩, hpool⟩
            rw [hbody, List.append_nil]
          · obtain ⟨payload, attributes, pool, hencode, hset, rfl⟩ := recordJoin_ok hrecord
            exact hlast h rfl (.recorded rfl hjoin hencode hset)

/-! ## §3 Without a block -/

section Empty

variable {ins : Insertion} {code new : Array UInt8}

theorem start_of_empty (h : ins.block = #[]) (offset : Nat) :
    ins.relocation.start offset = offset := by
  rcases ins.start_cases offset with ⟨-, hstart⟩ | ⟨-, hstart⟩
  · exact hstart
  · rw [hstart, h, Array.size_empty, Nat.add_zero]

/-- Every jump is written with the value it has, so the code is the old one. -/
theorem Spliced.eq_of_empty (t : Spliced ins code new) (h : ins.block = #[]) : new = code := by
  have hsize : new.size = code.size := by
    rw [t.size_eq, h, Array.size_empty, Nat.add_zero]
  have htarget (offset : Int) : ins.relocation.target offset = offset := by
    unfold Relocation.target relocation
    rw [h, Array.size_empty, Int.natCast_zero, Int.add_zero, ite_self]
  refine Array.ext_getElem? fun k => ?_
  rcases Nat.lt_or_ge k code.size with hk | hk
  · by_cases hjump : ∃ i ∈ (decodeAll code).instructions, i.StoresJumpAt code k
    · obtain ⟨i, hi, operands, hjumps, o, ho, hle, hlt⟩ := hjump
      obtain ⟨p, -, hpatch⟩ := t.exists_patch hi hjumps ho
      obtain ⟨relative, hrelative, -⟩ := Relocation.patch_ok hpatch
      obtain ⟨hdecode, -⟩ := t.decodes.decode_of_mem hi
      obtain ⟨hbehind, -⟩ := Instruction.length_of_jumps hdecode hjumps o ho
      have hwidth : k - o.position < o.width.bytes := by omega
      have hold := JumpOperand.store_of_relative hrelative hwidth
      have hnew := t.operand_eq hi hjumps ho hrelative hwidth
      have hunmoved : (i.offset : Int) + relative - i.offset = relative := by omega
      rw [htarget, start_of_empty h, hunmoved, Nat.add_sub_cancel' (Nat.le_of_lt hbehind),
        ← hold] at hnew
      rwa [Nat.add_sub_cancel' hle] at hnew
    · have hbyte := t.byte_eq hk fun i hi hstores => hjump ⟨i, hi, hstores⟩
      rwa [start_of_empty h] at hbyte
  · rw [Array.getElem?_eq_none hk, Array.getElem?_eq_none (by omega)]

theorem handler_of_empty (h : ins.block = #[]) (handlers : List Handler) :
    handlers.map ins.relocation.handler = handlers := by
  have hstop (offset : Nat) : ins.relocation.stop offset = offset := by
    unfold Relocation.stop relocation
    rw [h, Array.size_empty, Nat.add_zero, ite_self]
  have hhandler : ins.relocation.handler = id := by
    funext handler
    simp only [Relocation.handler, Relocation.start16, Relocation.stop16, start_of_empty h, hstop,
      UInt16.ofNat_toNat, id]
  rw [hhandler, List.map_id]

end Empty

/-- **What a failure leaves.**  The body is as it was exactly if the insertion was refused before
anything was written, or if it had no block and left the attributes alone.  Its limits are always as
they were. -/
theorem body_kept_iff_of_error (ins : Insertion) (entry : List VerificationType) (s t : Edit)
    (e : BuildError) (h : ins.run entry s = .error e t) :
    (t.body = s.body ↔ ins.splice s.body.code = .error e ∨
        ins.block = #[] ∧ t.body.attributes = s.body.attributes) ∧
      (ins.splice s.body.code = .error e ∧ t = s ∨ Abandoned ins entry s t) ∧
      t.body.maxStack = s.body.maxStack ∧ t.body.maxLocals = s.body.maxLocals := by
  rcases run_error h with ⟨hrefused, rfl⟩ | left
  · exact ⟨⟨fun _ => .inl hrefused, fun _ => rfl⟩, .inl ⟨hrefused, rfl⟩, rfl, rfl⟩
  refine ⟨?_, .inr left, left.maxStack, left.maxLocals⟩
  obtain ⟨spliced⟩ := splice_ok left.spliced
  constructor
  · intro hsame
    refine .inr ⟨?_, by rw [hsame]⟩
    have hsize := spliced.size_eq
    rw [hsame] at hsize
    exact Array.eq_empty_of_size_eq_zero (by omega)
  · rintro (hrefused | ⟨hempty, hattributes⟩)
    · cases hrefused.symm.trans left.spliced
    · have hcode := spliced.eq_of_empty hempty
      have hhandlers := left.handlers.trans (handler_of_empty hempty _)
      have hstack := left.maxStack
      have hlocals := left.maxLocals
      cases hnew : t.body
      cases hold : s.body
      simp only [hnew, hold] at hcode hhandlers hattributes hstack hlocals
      rw [hcode, hhandlers, hattributes, hstack, hlocals]

/-- Code that returns at once. -/
def returning : Body := ⟨0, 0, #[Opcode.returnVoid.byte], [], []⟩

/-- A block that takes from the empty stack is rejected when it stands in the code already. -/
theorem body_kept_iff_of_error_returning :
    ∃ t, (⟨0, #[Opcode.pop.byte], none⟩ : Insertion).run [] ⟨returning, .empty⟩ =
        .error (.format (.negativeStackDepth 0)) t ∧
      t.body.code = #[Opcode.pop.byte, Opcode.returnVoid.byte] ∧ t.body ≠ returning := by
  obtain ⟨e, t, hrun, hcheck⟩ := rejects_eq_true.mp (show rejects
    (fun e t => e == .format (.negativeStackDepth 0) &&
      t.body.code == #[Opcode.pop.byte, Opcode.returnVoid.byte])
    ((⟨0, #[Opcode.pop.byte], none⟩ : Insertion).run [] ⟨returning, .empty⟩) = true by
      decide +kernel)
  rw [Bool.and_eq_true, beq_iff_eq, beq_iff_eq] at hcheck
  obtain ⟨rfl, hcode⟩ := hcheck
  obtain ⟨hkept, ⟨-, hsame⟩ | left, -⟩ := body_kept_iff_of_error _ _ _ _ _ hrun
  · rw [hsame] at hcode
    cases hcode
  · refine ⟨t, hrun, hcode, fun hbody => ?_⟩
    rcases hkept.mp hbody with hrefused | ⟨hempty, -⟩
    · cases hrefused.symm.trans left.spliced
    · cases hempty

end Reshape.Insertion
