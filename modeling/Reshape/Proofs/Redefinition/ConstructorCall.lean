import Reshape.Proofs.Code.Placement
import Reshape.Proofs.Code.Tiling
import Reshape.Proofs.Redefinition.ConstructorPaths

/-!
# The call that is found

The search for the constructor call on the new object goes through the code once and counts the
created objects that still wait for their constructor.  It stops at the first instruction with which
more constructors have been called than objects created.  The offset behind this instruction is one
at which an instruction of the code ends, so the insertion of the storage block is never refused for
its place.
-/

namespace Reshape

/-! ## §1 Calls without an object -/

/-- If the instruction is a special call, it can be told which member is called. -/
def Instruction.Resolves (pool : Pool) (code : Array UInt8) (i : Instruction) : Prop :=
  i.opcode = .invokeSpecial →
    ∃ index m, Code.u16At code (i.offset + 1) = .ok index ∧ pool.memberRef index = .ok m

namespace ConstructorCall

variable {pool : Pool} {code : Array UInt8}

/-- More constructors are called in the row than objects are created in it and before it, of which
some still wait. -/
def Unpaired (pool : Pool) (code : Array UInt8) (waiting : Nat) (row : List Instruction) : Prop :=
  waiting + row.countP (·.opcode == .newObject) < row.countP (·.callsConstructor pool code)

theorem not_unpaired_nil (waiting : Nat) : ¬ Unpaired pool code waiting [] := Nat.not_lt_zero _

theorem unpaired_zero (row : List Instruction) :
    Unpaired pool code 0 row ↔ CallsOnThis pool code row := by
  rw [Unpaired, CallsOnThis, Nat.zero_add]

/-- An instruction that creates `created` objects and calls `called` constructors. -/
theorem unpaired_cons {i : Instruction} {waiting waiting' created called : Nat}
    (hcreated : (if i.opcode == .newObject then 1 else 0) = created)
    (hcalled : (if i.callsConstructor pool code then 1 else 0) = called)
    (hwaiting : waiting + created = waiting' + called) (row : List Instruction) :
    Unpaired pool code waiting (i :: row) ↔ Unpaired pool code waiting' row := by
  unfold Unpaired
  rw [List.countP_cons, List.countP_cons, hcreated, hcalled]
  omega

/-! ## §2 One instruction of the search -/

/-- What the search comes to at an instruction with others behind it. -/
inductive Step (pool : Pool) (code : Array UInt8) (waiting : Nat) (i : Instruction)
    (rest : List Instruction) : Except FormatError (Option Nat) → Prop
  | passes {waiting' : Nat} (resolves : i.Resolves pool code)
      (counts : ∀ row, Unpaired pool code waiting (i :: row) ↔ Unpaired pool code waiting' row) :
      Step pool code waiting i rest (seek pool code waiting' rest)
  | found (resolves : i.Resolves pool code) (unpaired : Unpaired pool code waiting [i]) :
      Step pool code waiting i rest (.ok (some i.next))
  | faulty {e : FormatError} (unresolved : ¬ i.Resolves pool code) :
      Step pool code waiting i rest (.error e)

theorem seek_cons (waiting : Nat) (i : Instruction) (rest : List Instruction) :
    Step pool code waiting i rest (seek pool code waiting (i :: rest)) := by
  unfold seek
  split
  · next hnew =>
    refine .passes (fun h => nomatch hnew.symm.trans h) ?_
    exact unpaired_cons (by rw [hnew]) (by rw [Instruction.callsConstructor, hnew]) rfl
  · next hspecial =>
    have hresolves (h : i.Resolves pool code) := h hspecial
    have hcreated : (if i.opcode == .newObject then 1 else 0) = 0 := by rw [hspecial]; rfl
    cases hindex : Code.u16At code (i.offset + 1) with
    | error e =>
        refine .faulty fun h => ?_
        obtain ⟨_, _, hindex', -⟩ := hresolves h
        cases hindex.symm.trans hindex'
    | ok index =>
        dsimp only
        cases hm : pool.memberRef index with
        | error e =>
            refine .faulty fun h => ?_
            obtain ⟨_, _, hindex', hm'⟩ := hresolves h
            cases hindex.symm.trans hindex'
            cases hm.symm.trans hm'
        | ok m =>
            dsimp only
            have hknown : i.Resolves pool code := fun _ => ⟨index, m, hindex, hm⟩
            have hcalls : i.callsConstructor pool code = (m.name == constructorName) := by
              simp only [Instruction.callsConstructor, hspecial, hindex, hm]
              rfl
            split
            · next hother =>
              refine .passes hknown (unpaired_cons hcreated ?_ rfl)
              rw [hcalls, beq_false_of_ne hother]
              rfl
            · next hname =>
              have hcalled : (if i.callsConstructor pool code then 1 else 0) = 1 := by
                rw [hcalls, not_not.mp hname]
                rfl
              split
              · next hnone =>
                subst hnone
                refine .found hknown ?_
                rw [Unpaired, List.countP_singleton, List.countP_singleton, hcreated, hcalled]
                exact Nat.one_pos
              · next hsome =>
                exact .passes hknown (unpaired_cons hcreated hcalled (by omega))
  · next hnew hspecial =>
    have hcreated : (if i.opcode == .newObject then 1 else 0) = 0 := by
      rw [beq_false_of_ne hnew]
      rfl
    have hcalled : (if i.callsConstructor pool code then 1 else 0) = 0 := by
      rw [Instruction.callsConstructor, beq_false_of_ne hspecial]
      rfl
    exact .passes (fun h => (hspecial h).elim) (unpaired_cons hcreated hcalled rfl)

/-! ## §3 The whole search -/

/-- With the instruction at `n` there are for the first time more calls of constructors than created
objects, and all special calls up to there can be told. -/
structure FirstAt (pool : Pool) (code : Array UInt8) (waiting : Nat) (is : List Instruction)
    (n : Nat) : Prop where
  unpaired : Unpaired pool code waiting (is.take (n + 1))
  first : ∀ m < n, ¬ Unpaired pool code waiting (is.take (m + 1))
  resolves : ∀ j ∈ is.take (n + 1), j.Resolves pool code

theorem seek_eq_some {is : List Instruction} {position : Nat} : ∀ {waiting : Nat},
    seek pool code waiting is = .ok (some position) ↔
      ∃ n i, is[n]? = some i ∧ FirstAt pool code waiting is n ∧ i.next = position := by
  induction is with
  | nil => simp [seek]
  | cons i rest ih =>
      intro waiting
      have hstep : Step pool code waiting i rest _ := seek_cons waiting i rest
      generalize seek pool code waiting (i :: rest) = outcome at hstep
      cases hstep with
      | @passes waiting' resolves counts =>
          rw [ih]
          constructor
          · rintro ⟨n, j, hj, hfirst, hnext⟩
            refine ⟨n + 1, j, hj, ⟨(counts _).mpr hfirst.unpaired, ?_, ?_⟩, hnext⟩
            · intro m hm
              cases m with
              | zero => exact fun h => not_unpaired_nil _ ((counts []).mp h)
              | succ m => exact fun h => hfirst.first m (by omega) ((counts _).mp h)
            · exact List.forall_mem_cons.mpr ⟨resolves, hfirst.resolves⟩
          · rintro ⟨n, j, hj, hfirst, hnext⟩
            cases n with
            | zero => exact (not_unpaired_nil _ ((counts []).mp hfirst.unpaired)).elim
            | succ n =>
                refine ⟨n, j, hj, ⟨(counts _).mp hfirst.unpaired, fun m hm h => ?_, ?_⟩, hnext⟩
                · exact hfirst.first (m + 1) (by omega) ((counts _).mpr h)
                · exact (List.forall_mem_cons.mp hfirst.resolves).2
      | found resolves unpaired =>
          constructor
          · rintro ⟨⟩
            refine ⟨0, i, rfl, ⟨unpaired, fun m hm => ?_, ?_⟩, rfl⟩
            · cases hm
            · exact List.forall_mem_cons.mpr ⟨resolves, List.forall_mem_nil _⟩
          · rintro ⟨n, j, hj, hfirst, hnext⟩
            cases n with
            | zero =>
                cases hj
                rw [hnext]
            | succ n => exact (hfirst.first 0 (Nat.succ_pos n) unpaired).elim
      | faulty unresolved =>
          constructor
          · rintro ⟨⟩
          · rintro ⟨n, j, hj, hfirst, hnext⟩
            exact (unresolved (hfirst.resolves i List.mem_cons_self)).elim

theorem seek_eq_none {is : List Instruction} : ∀ {waiting : Nat},
    seek pool code waiting is = .ok none ↔
      (∀ j ∈ is, j.Resolves pool code) ∧
        ∀ n < is.length, ¬ Unpaired pool code waiting (is.take (n + 1)) := by
  induction is with
  | nil => simp [seek]
  | cons i rest ih =>
      intro waiting
      have hstep : Step pool code waiting i rest _ := seek_cons waiting i rest
      generalize seek pool code waiting (i :: rest) = outcome at hstep
      rw [List.forall_mem_cons, List.length_cons]
      cases hstep with
      | @passes waiting' resolves counts =>
          rw [ih]
          constructor
          · rintro ⟨hrest, hnever⟩
            refine ⟨⟨resolves, hrest⟩, fun n hn h => ?_⟩
            cases n with
            | zero => exact not_unpaired_nil _ ((counts []).mp h)
            | succ n => exact hnever n (by omega) ((counts _).mp h)
          · rintro ⟨⟨-, hrest⟩, hnever⟩
            exact ⟨hrest, fun n hn h => hnever (n + 1) (by omega) ((counts _).mpr h)⟩
      | found resolves unpaired =>
          constructor
          · rintro ⟨⟩
          · rintro ⟨-, hnever⟩
            exact (hnever 0 (Nat.succ_pos _) unpaired).elim
      | faulty unresolved =>
          constructor
          · rintro ⟨⟩
          · rintro ⟨⟨hknown, -⟩, -⟩
            exact (unresolved hknown).elim

theorem find?_eq_some {position : Nat} :
    find? pool code = .ok (some position) ↔
      seek pool code 0 (decodeAll code).instructions = .ok (some position) := by
  unfold find?
  dsimp only
  cases seek pool code 0 (decodeAll code).instructions with
  | error e => exact Iff.rfl
  | ok found =>
      cases found with
      | some offset => exact Iff.rfl
      | none => cases (decodeAll code).fault <;> simp

theorem find?_eq_none :
    find? pool code = .ok none ↔
      (decodeAll code).fault = none ∧
        seek pool code 0 (decodeAll code).instructions = .ok none := by
  unfold find?
  dsimp only
  cases seek pool code 0 (decodeAll code).instructions with
  | error e => simp
  | ok found =>
      cases found with
      | some offset => simp
      | none => cases (decodeAll code).fault <;> simp

end ConstructorCall

/-! ## §4 The place of the storage block -/

open BuildError (AcceptsPlace)

theorem Method.acceptsPlace_setBody (b : Body) (m : Method) :
    FailsOnly AcceptsPlace (m.setBody b) :=
  .bind (Interning.acceptsPlace_ofExcept b.acceptsPlace_encode) fun _ =>
    .bind (Attribute.acceptsPlace_set _ _ _) fun _ => .pure _

namespace Prologue

theorem acceptsPlace_pushInitial (t : FieldType) (f : Fragment) :
    FailsOnly AcceptsPlace (pushInitial t f) := by
  unfold pushInitial
  split
  · exact Fragment.acceptsPlace_onMethod _ _ _
  · exact .pure _

theorem acceptsPlace_storeInitial (f : Fragment) (slot : FieldType × Nat) :
    FailsOnly AcceptsPlace (storeInitial f slot) :=
  .bind (Fragment.acceptsPlace_pushInt _ _) fun _ =>
    .bind (acceptsPlace_pushInitial _ _) fun _ => .pure _

theorem acceptsPlace_allocation (storage : MemberRef) (l : StorageLayout) :
    FailsOnly AcceptsPlace (allocation storage l) :=
  .bind (Fragment.acceptsPlace_pushInt _ _) fun _ =>
    .bind (Fragment.acceptsPlace_anewarray _ _) fun _ =>
      .bind (Fragment.acceptsPlace_onField _ _ _) fun _ =>
        .bind (.foldlM acceptsPlace_storeInitial _ _) fun _ => .pure _

theorem acceptsPlace_block (config : Config) (owner : String) (l : StorageLayout) :
    FailsOnly AcceptsPlace (block config owner l) := by
  have hrest : FailsOnly AcceptsPlace (do
      let storage : MemberRef := ⟨owner, config.storageName, config.storageDescriptor⟩
      let fill ← allocation storage l
      let check ← (Fragment.empty.aload 0).onField .getField storage
      let position := check.size
      let check := check.branch .ifNonNull
      let stop := Fragment.alignedSize (check.size + fill.size) 4
      let check ← Interning.ofExcept (check.patch position stop)
      return (Fragment.fillTo stop ⟨check.code ++ fill.code⟩).code) :=
    .bind (acceptsPlace_allocation _ l) fun _ =>
      .bind (Fragment.acceptsPlace_onField _ _ _) fun check =>
        .bind (Interning.acceptsPlace_ofExcept (check.acceptsPlace_patch _ _)) fun _ => .pure _
  exact .ite (.bind (.throw nofun) fun _ => hrest) hrest

/-- Where no instruction of the code ends the storage block is not inserted. -/
theorem acceptsPlace_instrumentMethod (s : Setting) (m : Method) :
    FailsOnly AcceptsPlace (instrumentMethod s m) := by
  refine .bind (Interning.acceptsPlace_reading _) fun isConstructor => ?_
  cases isConstructor with
  | false => exact .pure _
  | true =>
      refine .bind (Interning.acceptsPlace_reading _) fun body? => ?_
      cases body? with
      | none => exact .pure _
      | some body =>
          refine .bind (Interning.acceptsPlace_reading _) fun descriptor =>
            .bind (Interning.acceptsPlace_ofFormat _) fun type =>
            .bind_of (Interning.acceptsPlace_reading _) fun found hfound => ?_
          cases found with
          | none => exact .throw nofun
          | some position =>
              obtain ⟨p, q, hread⟩ := hfound
              obtain ⟨hfind, -⟩ := Interning.reading_eq_ok.mp hread
              refine .bind (FrameState.acceptsPlace_parameterTypes _ _) fun entry =>
                .bind ?_ fun changed => .bind (Method.acceptsPlace_setBody _ m) fun _ => .pure _
              intro p₁ e p₂ h
              unfold instrumentMethod.insertInto at h
              split at h
              · cases h
              · next hrun =>
                cases h
                obtain ⟨call, hcall, -, rfl⟩ := ConstructorCall.exists_of_find? hfind
                exact Insertion.acceptsPlace_run
                  (fun hfault => (decodes_decodeAll hfault).boundary_next hcall) hrun

theorem acceptsPlace_instrumentMethods (s : Setting) (methods : List Method) :
    ∀ done count, FailsOnly AcceptsPlace (instrumentMethods s done count methods) := by
  induction methods with
  | nil => exact fun done count => .pure _
  | cons m methods ih =>
      intro done count
      refine .bind (acceptsPlace_instrumentMethod s m) fun changed? => ?_
      cases changed? with
      | some changed => exact ih _ _
      | none => exact ih _ _

theorem ofBuild_ne_invalidPlace {e : BuildError} (h : AcceptsPlace e) (offset : Nat) :
    RedefineError.ofBuild e ≠ .construction (.invalidInsertionPoint offset) := by
  cases e with
  | invalidInsertionPoint place => exact (h place rfl).elim
  | _ => exact nofun

/-- **Instrumenting never fails for the place of the block.** -/
theorem instrument_ne_invalidPlace (config : Config) (records : List AddedField) (c : ClassFile)
    (offset : Nat) :
    instrument config records c ≠ .error (.construction (.invalidInsertionPoint offset)) := by
  suffices h : FaultsOnly (· ≠ .construction (.invalidInsertionPoint offset))
      (instrument config records c) from fun he => h _ he rfl
  unfold instrument
  refine .ite (fun _ => .ok _) fun _ => .bind (.mapError fun _ => nofun) fun owner =>
    .bind (.mapError fun _ => nofun) fun layout => ?_
  dsimp only
  split
  · exact .ok _
  · next e _ he =>
    refine .error (ofBuild_ne_invalidPlace ?_ offset)
    refine FailsOnly.bind (acceptsPlace_block config owner layout) (fun block => ?_) _ _ _ he
    exact acceptsPlace_instrumentMethods _ _ _ _

end Prologue

/-! ## §5 What the search finds -/

namespace ConstructorCall

/-- **The search finds the first call without an object.**  It gives an offset exactly if there is a
first instruction with which more constructors have been called than objects created, and every
special call up to this one can be told; the offset is the one behind it.  It gives nothing exactly
if the whole code decodes, all special calls can be told and there is no such instruction.  So the
offset is one at which an instruction ends, and where the code decodes the block can be inserted
there: no class is refused because of the place. -/
theorem finds_first_unpaired (pool : Pool) (code : Array UInt8) :
    (∀ position, find? pool code = .ok (some position) ↔
      ∃ n i, (decodeAll code).instructions[n]? = some i ∧
        CallsOnThis pool code ((decodeAll code).instructions.take (n + 1)) ∧
        (∀ m < n, ¬ CallsOnThis pool code ((decodeAll code).instructions.take (m + 1))) ∧
        (∀ j ∈ (decodeAll code).instructions.take (n + 1), j.Resolves pool code) ∧
        i.next = position) ∧
    (find? pool code = .ok none ↔
      (decodeAll code).fault = none ∧
        (∀ j ∈ (decodeAll code).instructions, j.Resolves pool code) ∧
        ∀ n < (decodeAll code).instructions.length,
          ¬ CallsOnThis pool code ((decodeAll code).instructions.take (n + 1))) ∧
    (∀ position, find? pool code = .ok (some position) →
      (∃ i ∈ (decodeAll code).instructions, i.next = position) ∧
        (position = (decodeAll code).stop ∨
          ∃ j ∈ (decodeAll code).instructions, j.offset = position) ∧
        ((decodeAll code).fault = none →
          Decodes.Boundary code (decodeAll code).instructions position)) ∧
    ∀ config records c offset, Prologue.instrument config records c ≠
      .error (.construction (.invalidInsertionPoint offset)) := by
  refine ⟨fun position => ?_, ?_, fun position h => ?_, Prologue.instrument_ne_invalidPlace⟩
  · rw [find?_eq_some, seek_eq_some]
    refine exists₂_congr fun n i => and_congr_right fun _ => ?_
    constructor
    · rintro ⟨hfirst, hnext⟩
      refine ⟨(unpaired_zero _).mp hfirst.unpaired, fun m hm h => ?_, hfirst.resolves, hnext⟩
      exact hfirst.first m hm ((unpaired_zero _).mpr h)
    · rintro ⟨hcalls, hbefore, hresolves, hnext⟩
      refine ⟨⟨(unpaired_zero _).mpr hcalls, fun m hm h => ?_, hresolves⟩, hnext⟩
      exact hbefore m hm ((unpaired_zero _).mp h)
  · rw [find?_eq_none, seek_eq_none]
    simp only [unpaired_zero]
  · obtain ⟨i, hi, -, rfl⟩ := exists_of_find? h
    exact ⟨⟨i, hi, rfl⟩, (tiles_decodeAll code).1.next_of_mem hi,
      fun hfault => (decodes_decodeAll hfault).boundary_next hi⟩

/-- A class and its constructor. -/
def constructorPool : Pool :=
  ⟨#[.unused, .utf8 "<init>", .utf8 "()V", .nameAndType 1 2, .utf8 "A", .classRef 4,
    .methodRef 5 3]⟩

/-- An object is created and thrown away before the constructor call on the new one. -/
def nested : Array UInt8 :=
  #[0x2a, 0xbb, 0, 5, 0x59, 0xb7, 0, 6, 0x57, 0xb7, 0, 6, 0xb1]

theorem finds_first_unpaired_nested :
    find? constructorPool nested = .ok (some 12) ∧
      ∃ n i, (decodeAll nested).instructions[n]? = some i ∧
        CallsOnThis constructorPool nested ((decodeAll nested).instructions.take (n + 1)) ∧
        (∀ m < n,
          ¬ CallsOnThis constructorPool nested ((decodeAll nested).instructions.take (m + 1))) ∧
        i.next = 12 := by
  have hfind : find? constructorPool nested = .ok (some 12) := by decide +kernel
  obtain ⟨n, i, hi, hcalls, hbefore, -, hnext⟩ :=
    ((finds_first_unpaired constructorPool nested).1 12).mp hfind
  exact ⟨hfind, n, i, hi, hcalls, hbefore, hnext⟩

end ConstructorCall

end Reshape
