import Reshape.Code.Fragment
import Reshape.Code.Insertion
import Reshape.Proofs.Attribute.Named

/-!
# What an insertion changes

An insertion that succeeds has spliced the code, moved the handlers and let the pool grow.  The
steps behind the splicing work on the attributes and on the limits of the body and leave the code
alone; `Insertion.Done` says what each of them has done.  Fragments, of which inserted blocks are
made, only let the pool grow.
-/

namespace Reshape

/-! ## §1 Fragments -/

namespace Fragment

open Interning

theorem grows_pushInt (value : Int32) (f : Fragment) : Grows (f.pushInt value) := by
  iterate 9 refine .ite (.pure _) ?_
  exact .bind (Pool.grows_intern (by simp)) fun _ => .pure _

theorem grows_onField (opcode : Opcode) (m : MemberRef) (f : Fragment) :
    Grows (f.onField opcode m) :=
  .bind (Pool.grows_addFieldRef m) fun _ => .pure _

theorem grows_onMethod (opcode : Opcode) (m : MemberRef) (f : Fragment) :
    Grows (f.onMethod opcode m) :=
  .bind (Pool.grows_addMethodRef m) fun _ => .pure _

theorem grows_anewarray (element : String) (f : Fragment) : Grows (f.anewarray element) :=
  .bind (Pool.grows_addClass element) fun _ => .pure _

end Fragment

/-! ## §2 Edits of a body -/

theorem Editing.ofExcept_eq_ok {α : Type} {x : Except BuildError α} {a : α} {s t : Edit} :
    Editing.ofExcept x s = .ok a t ↔ x = .ok a ∧ s = t :=
  state_lift_eq_ok Editing.ofExcept (fun _ => rfl) (fun _ => rfl)

namespace Insertion

theorem recordJoin_ok {entry : List VerificationType} {join : FrameState} {s t : Edit} {u : Unit}
    (h : recordJoin entry join s = .ok u t) :
    ∃ payload attributes pool, Frame.encodeAll (FrameState.compress [join] entry) = .ok payload ∧
      Attribute.set Attribute.stackMapTableName payload s.body.attributes s.pool =
        .ok attributes pool ∧
      t = ⟨{ s.body with attributes }, pool⟩ := by
  obtain ⟨payload, s₁, hpayload, h⟩ := state_bind_eq_ok.mp h
  obtain ⟨hencode, rfl⟩ := Editing.ofExcept_eq_ok.mp hpayload
  obtain ⟨s₂, s₃, hget, h⟩ := state_bind_eq_ok.mp h
  obtain ⟨rfl, rfl⟩ := state_get_eq_ok.mp hget
  obtain ⟨attributes, s₄, hset, h⟩ := state_bind_eq_ok.mp h
  obtain ⟨pool, hpool, rfl⟩ := onPart_eq_ok.mp hset
  cases state_modify_eq_ok.mp h
  exact ⟨payload, attributes, pool, hencode, hpool, rfl⟩

theorem raiseMaxStack_ok {s t : Edit} {u : Unit} (h : raiseMaxStack s = .ok u t) :
    ∃ depth, StackDepth.greatest s.pool s.body = .ok depth ∧
      t = ⟨{ s.body with maxStack := max s.body.maxStack depth }, s.pool⟩ := by
  obtain ⟨s₁, s₂, hget, h⟩ := state_bind_eq_ok.mp h
  obtain ⟨rfl, rfl⟩ := state_get_eq_ok.mp hget
  obtain ⟨depth, s₃, hdepth, h⟩ := state_bind_eq_ok.mp h
  obtain ⟨hgreatest, rfl⟩ := Editing.ofExcept_eq_ok.mp hdepth
  cases state_set_eq_ok.mp h
  exact ⟨depth, mapError_eq_ok.mp hgreatest, rfl⟩

/-- The attributes and the pool once the state behind the block is recorded; `mapped` says whether
there was a frame table among the attributes. -/
inductive Joined (ins : Insertion) (entry : List VerificationType) (mapped : Bool)
    (attributes : List Attribute) (pool : Pool) : List Attribute → Pool → Prop
  /-- A table that was there has the state already, or there is none to record. -/
  | kept (h : mapped = true ∨ ins.join = none) :
      Joined ins entry mapped attributes pool attributes pool
  | recorded {join : FrameState} {payload : Bytes} {attributes' : List Attribute} {pool' : Pool}
      (unmapped : mapped = false) (state : ins.joinState? = some join)
      (encoded : Frame.encodeAll (FrameState.compress [join] entry) = .ok payload)
      (set : Attribute.set Attribute.stackMapTableName payload attributes pool =
        .ok attributes' pool') :
      Joined ins entry mapped attributes pool attributes' pool'

theorem Joined.growth {ins : Insertion} {entry : List VerificationType} {mapped : Bool}
    {attributes attributes' : List Attribute} {pool pool' : Pool}
    (h : Joined ins entry mapped attributes pool attributes' pool') : Pool.Growth pool pool' := by
  cases h with
  | kept h => exact .refl
  | recorded unmapped state encoded set => exact (Attribute.grows_set _ _ _).growth set

/-- **What an insertion that succeeds has done.** -/
structure Done (ins : Insertion) (entry : List VerificationType) (s t : Edit) where
  spliced : ins.splice s.body.code = .ok t.body.code
  handlers : t.body.handlers = s.body.handlers.map ins.relocation.handler
  maxLocals : t.body.maxLocals = s.body.maxLocals
  /-- The attributes that were there, adjusted. -/
  adjusted : List Attribute
  mapped : Bool
  adjusting : ins.attributes s.pool entry false s.body.attributes = (adjusted, .ok mapped)
  joined : Joined ins entry mapped adjusted s.pool t.body.attributes t.pool
  /-- The greatest depth, which the limit before it does not enter into. -/
  measured : ∃ depth, StackDepth.greatest t.pool t.body = .ok depth ∧
    t.body.maxStack = max s.body.maxStack depth

theorem run_steps {ins : Insertion} {entry : List VerificationType} {s t : Edit} {u : Unit}
    (h : ins.run entry s = .ok u t) : Nonempty (Done ins entry s t) := by
  obtain ⟨s₁, s₂, hget, h⟩ := state_bind_eq_ok.mp h
  obtain ⟨rfl, rfl⟩ := state_get_eq_ok.mp hget
  obtain ⟨code, s₃, hcode, h⟩ := state_bind_eq_ok.mp h
  obtain ⟨hsplice, rfl⟩ := Editing.ofExcept_eq_ok.mp hcode
  obtain ⟨u₁, s₄, hset, h⟩ := state_bind_eq_ok.mp h
  cases state_set_eq_ok.mp hset
  obtain ⟨mapped, s₅, hmapped, h⟩ := state_bind_eq_ok.mp h
  obtain ⟨houtcome, rfl⟩ := Editing.ofExcept_eq_ok.mp hmapped
  have hadjusting : ins.attributes s.pool entry false s.body.attributes =
      ((ins.attributes s.pool entry false s.body.attributes).1, .ok mapped) :=
    Prod.ext rfl houtcome
  have hlast {r : Edit} (hr : raiseMaxStack r = .ok u t) (hcode : r.body.code = code)
      (hhandlers : r.body.handlers = s.body.handlers.map ins.relocation.handler)
      (hlocals : r.body.maxLocals = s.body.maxLocals)
      (hstack : r.body.maxStack = s.body.maxStack)
      (hjoined : Joined ins entry mapped
        (ins.attributes s.pool entry false s.body.attributes).1 s.pool r.body.attributes r.pool) :
      Nonempty (Done ins entry s t) := by
    obtain ⟨depth, hdepth, rfl⟩ := raiseMaxStack_ok hr
    exact ⟨⟨by rw [hsplice, hcode], hhandlers, hlocals, _, mapped, hadjusting, hjoined,
      depth, hdepth, by rw [hstack]⟩⟩
  cases mapped with
  | true => exact hlast h rfl rfl rfl rfl (.kept (.inl rfl))
  | false =>
      cases hjoin : ins.joinState? with
      | none =>
          rw [hjoin] at h
          exact hlast h rfl rfl rfl rfl (.kept (.inr (Option.map_eq_none_iff.mp hjoin)))
      | some join =>
          rw [hjoin] at h
          obtain ⟨u₂, s₆, hrecord, h⟩ := state_bind_eq_ok.mp h
          obtain ⟨payload, attributes, pool, hencode, hset, rfl⟩ := recordJoin_ok hrecord
          exact hlast h rfl rfl rfl rfl (.recorded rfl hjoin hencode hset)

/-- **The result of an insertion.** -/
theorem run_ok {ins : Insertion} {entry : List VerificationType} {s t : Edit} {u : Unit}
    (h : ins.run entry s = .ok u t) :
    ins.splice s.body.code = .ok t.body.code ∧
      t.body.handlers = s.body.handlers.map ins.relocation.handler ∧
      Pool.Growth s.pool t.pool := by
  obtain ⟨done⟩ := run_steps h
  exact ⟨done.spliced, done.handlers, done.joined.growth⟩

/-! ## §3 The attributes of an edited body -/

section Payloads

variable {ins : Insertion} {entry : List VerificationType} {name : String} {old new : Bytes}

/-- An attribute that is none of the tables. -/
def NoTable (name : String) : Prop :=
  name ≠ Attribute.lineNumberTableName ∧ name ≠ Attribute.localVariableTableName ∧
    name ≠ Attribute.localVariableTypeTableName ∧ name ≠ Attribute.stackMapTableName

theorem table_cases (name : String) :
    name = Attribute.lineNumberTableName ∨
      (name = Attribute.localVariableTableName ∨ name = Attribute.localVariableTypeTableName) ∨
      name = Attribute.stackMapTableName ∨ NoTable name := by
  unfold NoTable
  tauto

theorem payload_lines (h : ins.payload entry Attribute.lineNumberTableName old = .ok new) :
    ∃ lines, LineNumber.parseAll old = .ok lines ∧
      LineNumber.encodeAll (lines.map ins.relocation.lineNumber) = .ok new := by
  unfold payload at h
  rw [if_pos rfl] at h
  obtain ⟨lines, hlines, h⟩ := except_bind_eq_ok.mp h
  rw [mapError_eq_ok] at hlines
  exact ⟨lines, hlines, h⟩

theorem payload_locals (hname : name = Attribute.localVariableTableName ∨
      name = Attribute.localVariableTypeTableName)
    (h : ins.payload entry name old = .ok new) :
    ∃ locals, LocalVariable.parseAll old = .ok locals ∧
      LocalVariable.encodeAll (locals.map ins.relocation.localVariable) = .ok new := by
  have hlines : name ≠ Attribute.lineNumberTableName := by
    rcases hname with rfl | rfl
    · decide
    · decide
  unfold payload at h
  rw [if_neg hlines, if_pos hname] at h
  obtain ⟨locals, hlocals, h⟩ := except_bind_eq_ok.mp h
  rw [mapError_eq_ok] at hlocals
  exact ⟨locals, hlocals, h⟩

theorem payload_frames :
    ins.payload entry Attribute.stackMapTableName old = ins.frames entry old := by
  unfold payload
  rw [if_neg (by decide), if_neg (by decide), if_pos rfl]

theorem payload_other (hname : NoTable name) : ins.payload entry name old = .ok old := by
  obtain ⟨hlines, hlocals, htypes, hframes⟩ := hname
  unfold payload
  rw [if_neg hlines, if_neg (not_or.mpr ⟨hlocals, htypes⟩), if_neg hframes]

end Payloads

/-- An attribute that has been adjusted to the gap. -/
structure Adjusts (ins : Insertion) (pool : Pool) (entry : List VerificationType)
    (a a' : Attribute) : Prop where
  name : a'.name = a.name
  payload : ∃ name, pool.utf8 a.name = .ok name ∧
    ins.payload entry name a.payload = .ok a'.payload

/-- Whether an attribute is a frame table. -/
def IsMap (pool : Pool) (a : Attribute) : Prop :=
  pool.utf8 a.name = .ok Attribute.stackMapTableName

/-- The first attribute cannot be adjusted, and nothing has changed, or it is, and the outcome is
that of the others. -/
theorem attributes_cons {ins : Insertion} {pool : Pool} {entry : List VerificationType}
    {a : Attribute} {rest attributes' : List Attribute} {mapped : Bool}
    {outcome : Except BuildError Bool}
    (h : ins.attributes pool entry mapped (a :: rest) = (attributes', outcome)) :
    (∃ e, outcome = .error e ∧ attributes' = a :: rest) ∨
      ∃ a' name rest', Adjusts ins pool entry a a' ∧ pool.utf8 a.name = .ok name ∧
        attributes' = a' :: rest' ∧
        ins.attributes pool entry (mapped || name == Attribute.stackMapTableName) rest =
          (rest', outcome) := by
  unfold attributes at h
  dsimp only at h
  split at h
  · next e hstep =>
    cases h
    exact .inl ⟨e, rfl, rfl⟩
  · next a' isMap hstep =>
    obtain ⟨name, hname, hstep⟩ := except_bind_eq_ok.mp hstep
    rw [mapError_eq_ok] at hname
    obtain ⟨payload, hpayload, hstep⟩ := except_bind_eq_ok.mp hstep
    cases except_pure_eq_ok.mp hstep
    cases h
    exact .inr ⟨{ a with payload }, name, _, ⟨rfl, name, hname, hpayload⟩, hname, rfl, rfl⟩

theorem attributes_ok {ins : Insertion} {pool : Pool} {entry : List VerificationType}
    {attributes : List Attribute} : ∀ {mapped mapped' : Bool} {attributes' : List Attribute},
      ins.attributes pool entry mapped attributes = (attributes', .ok mapped') →
        List.Forall₂ (Adjusts ins pool entry) attributes attributes' ∧
          (mapped' = true ↔ mapped = true ∨ ∃ a ∈ attributes, IsMap pool a) := by
  induction attributes with
  | nil =>
      intro mapped mapped' attributes' h
      cases h
      exact ⟨.nil, by simp⟩
  | cons a rest ih =>
      intro mapped mapped' attributes' h
      obtain ⟨e, he, -⟩ | ⟨a', name, rest', hadjusts, hname, rfl, hrest⟩ := attributes_cons h
      · cases he
      · obtain ⟨hrow, hmapped⟩ := ih hrest
        refine ⟨.cons hadjusts hrow, ?_⟩
        have hthis : IsMap pool a ↔ name = Attribute.stackMapTableName := by
          unfold IsMap
          rw [hname, Except.ok.injEq]
        rw [hmapped, Bool.or_eq_true, beq_iff_eq, ← hthis, or_assoc, List.exists_mem_cons_iff]

/-- The attributes that were there are adjusted one by one.  Behind them stands a frame table with
the state behind the block, if that state is to be recorded and there was no table. -/
theorem Done.attributes {ins : Insertion} {entry : List VerificationType} {s t : Edit}
    (done : Done ins entry s t) (hpool : ins.join = none ∨ s.pool.Addressable) :
    List.Forall₂ (Adjusts ins s.pool entry) s.body.attributes done.adjusted ∧
      (t.body.attributes = done.adjusted ∧
          ((∃ a ∈ s.body.attributes, IsMap s.pool a) ∨ ins.join = none) ∨
        (∀ a ∈ s.body.attributes, ¬ IsMap s.pool a) ∧
          ∃ join a, ins.joinState? = some join ∧ IsMap t.pool a ∧
            Frame.encodeAll (FrameState.compress [join] entry) = .ok a.payload ∧
            t.body.attributes = done.adjusted ++ [a]) := by
  obtain ⟨hrow, hmapped⟩ := attributes_ok done.adjusting
  refine ⟨hrow, ?_⟩
  have hjoined := done.joined
  generalize t.body.attributes = attributes, t.pool = pool at hjoined ⊢
  cases hjoined with
  | kept h =>
      refine .inl ⟨rfl, h.imp_left fun h => ?_⟩
      simpa using hmapped.mp h
  | @recorded join payload _ _ unmapped state encoded set =>
      have hnone : ∀ a ∈ s.body.attributes, ¬ IsMap s.pool a := by
        intro a ha hmap
        rw [hmapped.mpr (.inr ⟨a, ha, hmap⟩)] at unmapped
        cases unmapped
      have hp : s.pool.Addressable := by
        refine hpool.resolve_left fun hjoin => ?_
        rw [joinState?, hjoin] at state
        cases state
      have hothers : ∀ a ∈ done.adjusted, a.Other s.pool Attribute.stackMapTableName := by
        intro a ha
        obtain ⟨b, hb, hadjusts⟩ := exists_left_of_forall₂ hrow ha
        obtain ⟨name, hname, -⟩ := hadjusts.payload
        refine ⟨name, by rw [hadjusts.name, hname], ?_⟩
        rintro rfl
        exact hnone b hb hname
      obtain ⟨i, hi, hattributes⟩ := Attribute.set_of_others hp hothers set
      exact .inr ⟨hnone, join, ⟨i, payload⟩, state, hi, encoded, hattributes⟩

end Insertion

end Reshape
