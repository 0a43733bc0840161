import Reshape.Proofs.Redefinition.Block

/-!
# Paths through constructors

A constructor gets the storage block behind the first constructor call on the new object that
stands in its code, whatever way control takes.  A path of the new code is a path of the old one
with a passage of the block behind each execution of that call.  So storage is sure to be there
after every path that calls a constructor on the object exactly if all of these paths, in the old
code, execute the call that was found; where branches make different calls, one of them does not.
-/

namespace Reshape

/-! ## §1 Constructor calls -/

/-- The instruction is a special call of a constructor. -/
def Instruction.callsConstructor (pool : Pool) (code : Array UInt8) (i : Instruction) : Bool :=
  i.opcode == .invokeSpecial &&
    match Code.u16At code (i.offset + 1) with
    | .error _ => false
    | .ok index =>
      match pool.memberRef index with
      | .error _ => false
      | .ok m => m.name == ConstructorCall.constructorName

/-- More constructors are called than objects are created, so one of the calls is on the object
that the constructor was given. -/
def CallsOnThis (pool : Pool) (code : Array UInt8) (path : List Instruction) : Prop :=
  path.countP (·.opcode == .newObject) < path.countP (·.callsConstructor pool code)

namespace ConstructorCall

/-- What the search finds in a pool it finds in every larger one. -/
theorem seek_grown {p q : Pool} (hgrowth : Pool.Growth p q) {code : Array UInt8}
    {is : List Instruction} : ∀ {waiting : Nat} {found : Option Nat},
      seek p code waiting is = .ok found → seek q code waiting is = .ok found := by
  induction is with
  | nil => exact fun h => h
  | cons i is ih =>
      intro waiting found h
      unfold seek at h ⊢
      split at h
      · exact ih h
      · cases hindex : Code.u16At code (i.offset + 1) with
        | error e => simp [hindex] at h
        | ok index =>
            simp only [hindex] at h ⊢
            cases hm : p.memberRef index with
            | error e => simp [hm] at h
            | ok m =>
                simp only [hm] at h
                simp only [hgrowth.memberRef hm]
                split at h
                · next hname => rw [if_pos hname]; exact ih h
                · next hname =>
                  rw [if_neg hname]
                  split at h
                  · next hwaiting => rw [if_pos hwaiting, h]
                  · next hwaiting => rw [if_neg hwaiting]; exact ih h
      · exact ih h

theorem find?_grown {p q : Pool} (hgrowth : Pool.Growth p q) {code : Array UInt8}
    {position : Nat} (h : find? p code = .ok (some position)) :
    find? q code = .ok (some position) := by
  unfold find? at h ⊢
  dsimp only at h ⊢
  cases hseek : seek p code 0 (decodeAll code).instructions with
  | error e => simp [hseek] at h
  | ok found =>
      rw [seek_grown hgrowth hseek]
      simpa only [hseek] using h

theorem exists_of_seek {pool : Pool} {code : Array UInt8} {is : List Instruction} :
    ∀ {waiting position : Nat}, seek pool code waiting is = .ok (some position) →
      ∃ i ∈ is, i.callsConstructor pool code = true ∧ i.next = position := by
  induction is with
  | nil =>
      intro waiting position h
      simp [seek] at h
  | cons i is ih =>
      intro waiting position h
      have hrest {waiting : Nat} (h : seek pool code waiting is = .ok (some position)) :
          ∃ j ∈ i :: is, j.callsConstructor pool code = true ∧ j.next = position := by
        obtain ⟨j, hj, hcall⟩ := ih h
        exact ⟨j, List.mem_cons_of_mem i hj, hcall⟩
      unfold seek at h
      split at h
      · exact hrest h
      · next hop =>
        cases hindex : Code.u16At code (i.offset + 1) with
        | error e => simp [hindex] at h
        | ok index =>
            simp only [hindex] at h
            cases hm : pool.memberRef index with
            | error e => simp [hm] at h
            | ok m =>
                simp only [hm] at h
                split at h
                · exact hrest h
                · next hname =>
                  split at h
                  · cases h
                    refine ⟨i, List.mem_cons_self, ?_, rfl⟩
                    simp [Instruction.callsConstructor, hop, hindex, hm, not_not.mp hname]
                  · exact hrest h
      · exact hrest h

/-- The offset that is found lies behind a special call of a constructor. -/
theorem exists_of_find? {pool : Pool} {code : Array UInt8} {position : Nat}
    (h : find? pool code = .ok (some position)) :
    ∃ i ∈ (decodeAll code).instructions,
      i.callsConstructor pool code = true ∧ i.next = position := by
  unfold find? at h
  dsimp only at h
  cases hseek : seek pool code 0 (decodeAll code).instructions with
  | error e => simp [hseek] at h
  | ok found =>
      cases found with
      | some offset =>
          simp only [hseek, Except.ok.injEq, Option.some.injEq] at h
          exact exists_of_seek (h ▸ hseek)
      | none =>
          simp only [hseek] at h
          split at h <;> cases h

end ConstructorCall

/-! ## §2 Old and new paths -/

namespace Prologue

/-- What is known of a constructor's code once the block stands behind the found call. -/
structure Instrumented (ins : Insertion) (code new : Array UInt8) (call : Instruction) where
  spliced : Insertion.Spliced ins code new
  shape : Shape ins.block
  mem : call ∈ (decodeAll code).instructions
  opcode : call.opcode = .invokeSpecial
  next : call.next = ins.position

/-- The second path, in the new code, does what the first does in the old: every instruction has
moved, and each execution of the found call is followed by a passage of the block. -/
inductive Follows (ins : Insertion) (code : Array UInt8) (call : Instruction) :
    List Instruction → List Instruction → Prop
  | nil : Follows ins code call [] []
  | other {i : Instruction} {path path' : List Instruction}
      (known : i ∈ (decodeAll code).instructions) (different : i ≠ call)
      (behind : Follows ins code call path path') :
      Follows ins code call (i :: path) (ins.relocation.instruction i :: path')
  | call {path through path' : List Instruction}
      (passage : Passage ins.block ins.position through)
      (behind : Follows ins code call path path') :
      Follows ins code call (call :: path)
        (ins.relocation.instruction call :: (through ++ path'))

namespace Instrumented

variable {ins : Insertion} {code new : Array UInt8} {call : Instruction}
  (t : Instrumented ins code new call)
include t

theorem holds_block : Code.Holds new ins.position ins.block.toList := by
  intro k hk
  rw [Array.length_toList] at hk
  rw [t.spliced.block_eq hk, Array.getElem?_toList]

/-- The call itself stays where it is. -/
theorem moved_call : ins.relocation.instruction call = call := by
  obtain ⟨-, hpos, -⟩ := Instruction.decode_bounds (t.spliced.decodes.decode_of_mem t.mem).1
  have hnext := t.next
  unfold Instruction.next at hnext
  have hstart := ins.start_cases call.offset
  have hstays : ins.relocation.start call.offset = call.offset := by omega
  rw [Relocation.instruction, hstays]

/-- The call can only go on to the block. -/
theorem eq_position_of_leads {next : Nat} (h : call.Leads new next) : next = ins.position := by
  rw [← t.next]
  refine Instruction.eq_next_of_leads ?_ ?_ ?_ h <;> rw [t.opcode] <;> rfl

/-- All other instructions go on to where their old successors are now. -/
theorem next_moved {i : Instruction} (hi : i ∈ (decodeAll code).instructions) (hother : i ≠ call) :
    (ins.relocation.instruction i).next = ins.relocation.start i.next := by
  have hposition : i.next ≠ ins.position := by
    intro heq
    exact hother (t.spliced.decodes.eq_of_next_eq hi t.mem (heq.trans t.next.symm))
  have hapart := t.spliced.decodes.before_or_behind t.spliced.boundary hi
  obtain ⟨-, hpos, -⟩ := Instruction.decode_bounds (t.spliced.decodes.decode_of_mem hi).1
  have hstart := ins.start_cases i.offset
  have hend := ins.start_cases i.next
  show ins.relocation.start i.offset + i.length = _
  unfold Instruction.next at hposition hapart hend ⊢
  omega

/-- What is decoded where an offset of the old code is now is the old instruction. -/
theorem eq_moved_of_decode {offset : Nat}
    (hoffset : Decodes.Boundary code (decodeAll code).instructions offset) {i' : Instruction}
    (h : Instruction.decode new (ins.relocation.start offset) = .ok i') :
    ∃ i ∈ (decodeAll code).instructions, i.offset = offset ∧
      i' = ins.relocation.instruction i := by
  rcases hoffset with rfl | ⟨i, hi, rfl⟩
  · obtain ⟨-, hpos, hfits⟩ := Instruction.decode_bounds h
    have hsize := t.spliced.size_eq
    have hle := t.spliced.position_le
    have hend := ins.start_cases code.size
    omega
  · refine ⟨i, hi, rfl, ?_⟩
    cases h.symm.trans (t.spliced.decode_moved hi)
    rfl

/-- A path that executes the found call runs through the block. -/
theorem runsThrough_of_mem {offset : Nat} {path : List Instruction}
    (hpath : Code.Path new offset path) (hcall : call ∈ path) :
    RunsThrough ins.block ins.position path := by
  obtain ⟨before, next, rest, rfl, hleads, hrest⟩ :=
    hpath.behind_of_mem hcall (by rw [t.opcode]; rfl)
  cases t.eq_position_of_leads hleads
  obtain ⟨through, after, rfl, hpassage, hafter⟩ := t.shape.enter t.holds_block hrest
  refine ⟨before ++ [call], through, after, by simp, hpassage, ?_⟩
  obtain ⟨i, rest, rfl, -, hoffset⟩ := hafter.exists_cons
  rw [List.head?_cons, Option.map_some, hoffset]

theorem mem_placed_of_passage {through : List Instruction}
    (h : Passage ins.block ins.position through) :
    through ≠ [] ∧ ∀ i ∈ through, i ∈ placed ins.block ins.position := by
  rcases h with rfl | rfl
  · exact ⟨by simp [t.shape.placed_eq], fun i hi => hi⟩
  · exact ⟨by simp [t.shape.placed_eq, Instruction.row], fun i hi => List.mem_of_mem_take hi⟩

/-- The moved instruction calls what the old one called. -/
theorem callsConstructor_moved (pool : Pool) {i : Instruction}
    (hi : i ∈ (decodeAll code).instructions) :
    (ins.relocation.instruction i).callsConstructor pool new = i.callsConstructor pool code := by
  by_cases hop : i.opcode = .invokeSpecial
  · obtain ⟨byte, -, -, hlength, -, -⟩ :=
      Instruction.decode_eq_ok.mp (t.spliced.decodes.decode_of_mem hi).1
    simp only [Instruction.announcedLength, hop, Opcode.size?] at hlength
    have hlength := except_pure_eq_ok.mp hlength
    have hagree : Code.Agree code new (i.offset + 1) (ins.relocation.start i.offset + 1) 2 := by
      refine (t.spliced.keptAt hi).agree (by omega) fun k _ => ?_
      rintro ⟨operands, hjumps, o, ho, -⟩
      rw [hjumps.eq_nil (by rw [hop]; rfl) (by rw [hop]; rfl) (by rw [hop]; rfl)] at ho
      cases ho
    unfold Instruction.callsConstructor
    show (i.opcode == _ && match Code.u16At new (ins.relocation.start i.offset + 1) with
      | .error _ => _
      | .ok _ => _) = _
    cases hindex : Code.u16At code (i.offset + 1) with
    | ok index => rw [hagree.u16At hindex]
    | error e =>
        cases hnew : Code.u16At new (ins.relocation.start i.offset + 1) with
        | error e => rfl
        | ok index => cases hindex.symm.trans (hagree.symm.u16At hnew)
  · have hcode : (i.opcode == Opcode.invokeSpecial) = false := by simpa using hop
    unfold Instruction.callsConstructor
    show (i.opcode == _ && _) = _
    rw [hcode, Bool.false_and, Bool.false_and]

/-- The block neither creates objects nor calls constructors. -/
theorem countP_passage (pool : Pool) {through : List Instruction}
    (h : Passage ins.block ins.position through) :
    through.countP (·.opcode == .newObject) = 0 ∧
      through.countP (·.callsConstructor pool new) = 0 := by
  obtain ⟨-, hmem⟩ := t.mem_placed_of_passage h
  rw [List.countP_eq_zero, List.countP_eq_zero]
  constructor
  · intro i hi
    obtain ⟨hnew, -, -, -⟩ := t.shape.of_mem_placed (hmem i hi)
    simpa using hnew
  · intro i hi
    obtain ⟨-, hspecial, -, -⟩ := t.shape.of_mem_placed (hmem i hi)
    simp [Instruction.callsConstructor, hspecial]

/-- Both paths create as many objects and call as many constructors. -/
theorem callsOnThis_iff (pool : Pool) {path path' : List Instruction}
    (h : Follows ins code call path path') :
    CallsOnThis pool new path' ↔ CallsOnThis pool code path := by
  have hcounts : path'.countP (·.opcode == .newObject) = path.countP (·.opcode == .newObject) ∧
      path'.countP (·.callsConstructor pool new) =
        path.countP (·.callsConstructor pool code) := by
    induction h with
    | nil => exact ⟨rfl, rfl⟩
    | other known _ _ ih =>
        obtain ⟨hnew, hcalls⟩ := ih
        constructor
        · rw [List.countP_cons, List.countP_cons, hnew]
          rfl
        · rw [List.countP_cons, List.countP_cons, hcalls, t.callsConstructor_moved pool known]
    | call passage _ ih =>
        obtain ⟨hnew, hcalls⟩ := ih
        obtain ⟨hnone, hnone'⟩ := t.countP_passage pool passage
        constructor
        · rw [List.countP_cons, List.countP_cons, List.countP_append, hnone, hnew, Nat.zero_add]
          rfl
        · rw [List.countP_cons, List.countP_cons, List.countP_append, hnone', hcalls,
            Nat.zero_add, t.callsConstructor_moved pool t.mem]
  rw [CallsOnThis, CallsOnThis, hcounts.1, hcounts.2]

/-- The new path executes the found call when the old one does. -/
theorem mem_of_follows {path path' : List Instruction} (h : Follows ins code call path path')
    (hcall : call ∈ path) : call ∈ path' := by
  induction h with
  | nil => cases hcall
  | other _ different _ ih =>
      rcases List.mem_cons.mp hcall with heq | hcall
      · exact absurd heq.symm different
      · exact List.mem_cons_of_mem _ (ih hcall)
  | call => rw [t.moved_call]; exact List.mem_cons_self

/-- Only behind the found call a path gets into the block. -/
theorem mem_of_runsThrough {path path' : List Instruction}
    (h : Follows ins code call path path')
    (hthrough : RunsThrough ins.block ins.position path') : call ∈ path := by
  obtain ⟨before, through, after, hpath', hpassage, -⟩ := hthrough
  obtain ⟨hne, hmem⟩ := t.mem_placed_of_passage hpassage
  obtain ⟨i, hi⟩ := List.exists_mem_of_ne_nil through hne
  obtain ⟨-, -, hle, hlt⟩ := t.shape.of_mem_placed (hmem i hi)
  have hin : i ∈ path' := by
    rw [hpath']
    exact List.mem_append_left _ (List.mem_append_right _ hi)
  clear hpath' hi
  induction h with
  | nil => cases hin
  | @other j _ _ _ _ _ ih =>
      rcases List.mem_cons.mp hin with rfl | hin
      · have hstart := ins.start_cases j.offset
        have hle : ins.position ≤ ins.relocation.start j.offset := hle
        have hlt : ins.relocation.start j.offset < ins.position + ins.block.size := hlt
        omega
      · exact List.mem_cons_of_mem _ (ih hin)
  | call => exact List.mem_cons_self

variable (closed : Code.Closed code)
include closed

/-- **To every old path there is a new one.** -/
theorem exists_new {offset : Nat} {path : List Instruction} (h : Code.Path code offset path) :
    Decodes.Boundary code (decodeAll code).instructions offset →
      ∃ path', Follows ins code call path path' ∧
        Code.Path new (ins.relocation.start offset) path' := by
  induction h with
  | @returns offset i decoded isReturn =>
      intro hoffset
      have hi := t.spliced.decodes.mem_of_boundary hoffset decoded
      cases (Instruction.decode_bounds decoded).1
      have hother : i ≠ call := by
        rintro rfl
        rw [t.opcode] at isReturn
        cases isReturn
      exact ⟨_, .other hi hother .nil, .returns (t.spliced.decode_moved hi) isReturn⟩
  | @step offset next i rest decoded leads behind ih =>
      intro hoffset
      have hi := t.spliced.decodes.mem_of_boundary hoffset decoded
      cases (Instruction.decode_bounds decoded).1
      by_cases hcall : i = call
      · subst hcall
        have hnext : next = i.next := by
          refine Instruction.eq_next_of_leads ?_ ?_ ?_ leads <;> rw [t.opcode] <;> rfl
        subst hnext
        obtain ⟨rest', hfollows, hrest'⟩ := ih (t.spliced.decodes.boundary_next hi)
        rw [t.next, ins.start_position] at hrest'
        refine ⟨_, .call (.inl rfl) hfollows, ?_⟩
        refine .step (t.spliced.decode_moved hi) ?_ (t.shape.leave t.holds_block hrest')
        rw [t.moved_call, ← t.next]
        exact .falls (by rw [t.opcode]; rfl)
      · cases leads with
        | falls passes =>
            obtain ⟨rest', hfollows, hrest'⟩ := ih (t.spliced.decodes.boundary_next hi)
            rw [← t.next_moved hi hcall] at hrest'
            exact ⟨_, .other hi hcall hfollows, .step (t.spliced.decode_moved hi) (.falls passes) hrest'⟩
        | jumps known mem =>
            obtain ⟨targets, htargets, hinside⟩ := closed i hi
            cases htargets.symm.trans known
            obtain ⟨rest', hfollows, hrest'⟩ := ih (.inr (hinside _ mem))
            have hmoved := t.spliced.jumpTargets_eq hi known
            exact ⟨_, .other hi hcall hfollows, .step (t.spliced.decode_moved hi)
              (.jumps hmoved (List.mem_map_of_mem mem)) hrest'⟩

/-- **To every new path there is an old one.**  The induction is on the length of the new path,
since a passage of the block goes by at once. -/
theorem exists_old (n : Nat) : ∀ {offset : Nat} {path' : List Instruction}, path'.length = n →
    Decodes.Boundary code (decodeAll code).instructions offset →
      Code.Path new (ins.relocation.start offset) path' →
        ∃ path, Follows ins code call path path' ∧ Code.Path code offset path := by
  induction n using Nat.strongRecOn with
  | ind n ih =>
    intro offset path' hlength hoffset hpath'
    cases hpath' with
    | returns decoded isReturn =>
        obtain ⟨i, hi, rfl, rfl⟩ := t.eq_moved_of_decode hoffset decoded
        have hother : i ≠ call := by
          rintro rfl
          rw [Relocation.instruction, t.opcode] at isReturn
          cases isReturn
        exact ⟨[i], .other hi hother .nil,
          .returns (t.spliced.decodes.decode_of_mem hi).1 isReturn⟩
    | @step _ next i' rest decoded leads behind =>
        obtain ⟨i, hi, rfl, rfl⟩ := t.eq_moved_of_decode hoffset decoded
        have hdecode := (t.spliced.decodes.decode_of_mem hi).1
        rw [List.length_cons] at hlength
        by_cases hcall : i = call
        · subst hcall
          rw [t.moved_call] at leads
          cases t.eq_position_of_leads leads
          obtain ⟨through, after, rfl, hpassage, hafter⟩ := t.shape.enter t.holds_block behind
          rw [← ins.start_position] at hafter
          rw [List.length_append] at hlength
          obtain ⟨path, hfollows, hpath⟩ := ih after.length (by omega) rfl
            (t.next ▸ t.spliced.decodes.boundary_next hi) hafter
          refine ⟨i :: path, .call hpassage hfollows, .step hdecode ?_ hpath⟩
          rw [← t.next]
          exact .falls (by rw [t.opcode]; rfl)
        · cases leads with
          | falls passes =>
              rw [t.next_moved hi hcall] at behind
              obtain ⟨path, hfollows, hpath⟩ := ih rest.length (by omega) rfl
                (t.spliced.decodes.boundary_next hi) behind
              exact ⟨i :: path, .other hi hcall hfollows, .step hdecode (.falls passes) hpath⟩
          | jumps known mem =>
              obtain ⟨targets, htargets, hinside⟩ := closed i hi
              cases (t.spliced.jumpTargets_eq hi htargets).symm.trans known
              obtain ⟨target, htarget, rfl⟩ := List.mem_map.mp mem
              obtain ⟨path, hfollows, hpath⟩ := ih rest.length (by omega) rfl
                (.inr (hinside target htarget)) behind
              exact ⟨i :: path, .other hi hcall hfollows,
                .step hdecode (.jumps htargets htarget) hpath⟩

/-- **The storage block is on every path that needs it exactly if the found call is.** -/
theorem runsThrough_iff (pool : Pool) :
    (∀ path, Code.Path new 0 path → CallsOnThis pool new path →
        RunsThrough ins.block ins.position path) ↔
      ∀ path, Code.Path code 0 path → CallsOnThis pool code path → call ∈ path := by
  have hcall := (t.spliced.decodes.decode_of_mem t.mem).1
  obtain ⟨-, hpos, -⟩ := Instruction.decode_bounds hcall
  have hnext := t.next
  unfold Instruction.next at hnext
  have hzero : ins.relocation.start 0 = 0 := by
    have hstart := ins.start_cases 0
    omega
  have hfirst : Decodes.Boundary code (decodeAll code).instructions 0 := by
    have hdecodes := t.spliced.decodes
    cases his : (decodeAll code).instructions with
    | nil => exact absurd t.mem (by simp [his])
    | cons i is =>
        rw [his] at hdecodes
        cases hdecodes with
        | cons first _ =>
            exact .inr ⟨i, List.mem_cons_self, (Instruction.decode_bounds first).1⟩
  constructor
  · intro hnew path hpath hcalls
    obtain ⟨path', hfollows, hpath'⟩ := t.exists_new closed hpath hfirst
    rw [hzero] at hpath'
    exact t.mem_of_runsThrough hfollows
      (hnew path' hpath' ((t.callsOnThis_iff pool hfollows).mpr hcalls))
  · intro hold path' hpath' hcalls
    rw [← hzero] at hpath'
    obtain ⟨path, hfollows, hpath⟩ := t.exists_old closed path'.length rfl hfirst hpath'
    exact t.runsThrough_of_mem hpath' (t.mem_of_follows hfollows
      (hold path hpath ((t.callsOnThis_iff pool hfollows).mp hcalls)))

end Instrumented

/-! ## §3 All constructors of a class -/

theorem instrumented_of_inserted {config : Config} {l : StorageLayout} {owner : String}
    {s : Setting} {p₀ q₀ p q : Pool} {m m' : Method}
    (hblock : block config owner l p₀ = .ok s.block q₀) (h : Inserted s p q m m') :
    ∃ (body body' : Body) (ins : Insertion) (call : Instruction) (q₁ : Pool),
      m.body? p = .ok (some body) ∧
      ConstructorCall.find? p body.code = .ok (some call.next) ∧
      m.setBody body' q₁ = .ok m' q ∧
      ins.block = s.block ∧ Nonempty (Instrumented ins body.code body'.code call) := by
  obtain ⟨body, ins, entry, p₁, edit, hbody, hfound, hsame, -, hrun, hset, -⟩ := h
  obtain ⟨spliced⟩ := Insertion.splice_ok (Insertion.run_ok hrun).1
  obtain ⟨call, hmem, hcalls, hnext⟩ := ConstructorCall.exists_of_find? hfound
  have hsmall : s.block.size < 0x8000000000000000 := by
    have hcode := spliced.small
    unfold Body.maxCode at hcode
    rw [hsame] at hcode
    omega
  obtain ⟨shape⟩ := block_ok hsmall hblock
  have hopcode : call.opcode = .invokeSpecial := by
    rw [Instruction.callsConstructor, Bool.and_eq_true, beq_iff_eq] at hcalls
    exact hcalls.1
  rw [← hnext] at hfound
  exact ⟨body, edit.body, ins, call, edit.pool, hbody, hfound, hset, hsame,
    ⟨⟨spliced, hsame ▸ shape, hmem, hopcode, hnext⟩⟩⟩

/-- **Which paths allocate the storage.**  A class that has been instrumented got one block, and
each of its constructors with a body got it behind the constructor call that was found.  In the
new code every path that executes this call runs through the block.  Let all jumps of the old code
lead to instructions.  Then the block is on every path that calls a constructor on the object and
returns if and only if, in the old code, the found call is on every such path.

Everything is read in the pool of the new class, where what could be read before reads the
same. -/
theorem storage_block_on_every_path_iff {config : Config} {records : List AddedField}
    {c c' : ClassFile} {n : Nat} (hrecords : records ≠ [])
    (h : instrument config records c = .ok (c', n)) :
    ∃ (owner : String) (layout : StorageLayout) (storage : Array UInt8) (p : Pool),
      c.name = .ok owner ∧ StorageLayout.ofRecords? owner records = .ok layout ∧
      block config owner layout c.pool = .ok storage p ∧
      List.Forall₂ (fun m m' => ∀ body, m.isConstructor c'.pool = .ok true →
        m.body? c'.pool = .ok (some body) →
        ∃ call ∈ (decodeAll body.code).instructions, ∃ (body' : Body) (q q' : Pool),
          ConstructorCall.find? c'.pool body.code = .ok (some call.next) ∧
          m.setBody body' q = .ok m' q' ∧
          (∀ path, Code.Path body'.code 0 path → call ∈ path →
            RunsThrough storage call.next path) ∧
          (Code.Closed body.code →
            ((∀ path, Code.Path body'.code 0 path → CallsOnThis c'.pool body'.code path →
                RunsThrough storage call.next path) ↔
              ∀ path, Code.Path body.code 0 path → CallsOnThis c'.pool body.code path →
                call ∈ path))) c.methods c'.methods := by
  obtain ⟨owner, layout, s, p, howner, hlayout, hblock, -, hmethods, -⟩ :=
    instrument_ok hrecords h
  refine ⟨owner, layout, s.block, p, howner, hlayout, hblock, hmethods.imp ?_⟩
  intro m m' htreated body hconstructor hbody
  cases htreated with
  | skipped before after skipped =>
      exfalso
      rcases skipped with hno | ⟨-, hnone⟩
      · cases (isConstructor_grown after hno).symm.trans hconstructor
      · cases (body?_grown after hnone).symm.trans hbody
  | inserted before after isConstructor inserted =>
      obtain ⟨body₁, body', ins, call, q₁, hbody₁, hfound, hset, hsame, ⟨t⟩⟩ :=
        instrumented_of_inserted hblock inserted
      have hgrowth := inserted.growth.trans after
      cases (body?_grown hgrowth hbody₁).symm.trans hbody
      refine ⟨call, t.mem, body', q₁, _, ConstructorCall.find?_grown hgrowth hfound, hset, ?_⟩
      rw [← hsame, t.next]
      exact ⟨fun path => t.runsThrough_of_mem, fun closed => t.runsThrough_iff closed c'.pool⟩

/-! ### A constructor with two calls -/

/-- One of two constructor calls, as the argument decides:
`iload_1; ifeq 9; aload_0; invokespecial; return; aload_0; invokespecial; return`. -/
def forkedCode : Bytes :=
  [0x1b, 0x99, 0, 8, 0x2a, 0xb7, 0, 9, 0xb1, 0x2a, 0xb7, 0, 9, 0xb1]

def forkedConstructor : Method :=
  ⟨⟨1⟩, 5, 10, [⟨7, [0, 1, 0, 2, 0, 0, 0, 14] ++ forkedCode ++ [0, 0, 0, 0]⟩]⟩

def forked : ClassFile where
  minorVersion := 0
  majorVersion := 49
  pool := ⟨#[.unused, .utf8 "A", .classRef 1, .utf8 "java/lang/Object", .classRef 3,
    .utf8 "<init>", .utf8 "()V", .utf8 "Code", .nameAndType 5 6, .methodRef 4 8, .utf8 "(I)V"]⟩
  access := ⟨0x21⟩
  thisClass := 2
  superClass := 4
  interfaces := []
  fields := []
  methods := [forkedConstructor]
  attributes := []

/-- The path with the second call. -/
def secondCall : List Instruction :=
  [⟨0, .iload1, 1⟩, ⟨1, .ifEq, 3⟩, ⟨9, .aload0, 1⟩, ⟨10, .invokeSpecial, 3⟩, ⟨13, .returnVoid, 1⟩]

/-- The block stands behind the first call, and the path with the second one misses it. -/
theorem second_call_without_storage :
    ∃ (c' : ClassFile) (n : Nat) (storage : Array UInt8) (body' : Body) (path : List Instruction),
      instrument {} [⟨0, "x", "I", "A", "app"⟩] forked = .ok (c', n) ∧
      (∃ layout p, block {} "A" layout forked.pool = .ok storage p) ∧
      (∃ m' ∈ c'.methods, ∃ q q', forkedConstructor.setBody body' q = .ok m' q') ∧
      Code.Path body'.code 0 path ∧ CallsOnThis c'.pool body'.code path ∧
      ¬ RunsThrough storage 8 path := by
  have evaluated : ((instrument {} [⟨0, "x", "I", "A", "app"⟩] forked).toOption.any
      fun (c', _) =>
        (forkedConstructor.isConstructor c'.pool).toOption == some true &&
        (forkedConstructor.body? c'.pool).toOption ==
          some (some ⟨1, 2, forkedCode.toArray, [], []⟩) &&
        (ConstructorCall.find? c'.pool forkedCode.toArray).toOption == some (some 8) &&
        decide (secondCall.countP (·.opcode == .newObject) <
          secondCall.countP (·.callsConstructor c'.pool forkedCode.toArray))) = true := by
    decide +kernel
  have eq_ok {ε α : Type} {x : Except ε α} {a : α} (h : x.toOption = some a) : x = .ok a := by
    cases x with
    | ok b => exact congrArg Except.ok (Option.some.inj h)
    | error e => cases h
  obtain ⟨⟨c', n⟩, hinstrument, h⟩ := (Option.any_eq_true _ _).mp evaluated
  simp only [Bool.and_eq_true, beq_iff_eq, decide_eq_true_eq] at h
  obtain ⟨⟨⟨hconstructor, hbody⟩, hfind⟩, hcalls⟩ := h
  obtain ⟨owner, layout, storage, p, hname, -, hblock, hmethods⟩ :=
    storage_block_on_every_path_iff (List.cons_ne_nil _ _) (eq_ok hinstrument)
  cases hname
  obtain ⟨m', hm', hspec⟩ := exists_right_of_forall₂ hmethods (List.mem_singleton_self _)
  obtain ⟨call, -, body', q, q', hfound, hset, -, hiff⟩ :=
    hspec _ (eq_ok hconstructor) (eq_ok hbody)
  have hnext : call.next = 8 := by simpa using hfound.symm.trans (eq_ok hfind)
  have hpath : Code.Path forkedCode.toArray 0 secondCall := by
    have jump : Instruction.jumpTargets forkedCode.toArray ⟨1, .ifEq, 3⟩ = .ok [9] := rfl
    refine .step (eq_ok (by decide +kernel)) (.falls rfl) ?_
    refine .step (eq_ok (by decide +kernel)) (.jumps jump (List.mem_singleton_self 9)) ?_
    refine .step (eq_ok (by decide +kernel)) (.falls rfl) ?_
    refine .step (eq_ok (by decide +kernel)) (.falls rfl) ?_
    exact .returns (eq_ok (by decide +kernel)) rfl
  have hmiss : call ∉ secondCall := by
    intro hmem
    have hall : ∀ i ∈ secondCall, i.next ≠ 8 := by decide
    exact hall call hmem hnext
  have hclosed : Code.Closed forkedCode.toArray := by decide +kernel
  have hnone : ¬ ∀ path, Code.Path body'.code 0 path → CallsOnThis c'.pool body'.code path →
      RunsThrough storage call.next path :=
    fun hall => hmiss ((hiff hclosed).mp hall secondCall hpath hcalls)
  rw [hnext] at hnone
  simp only [not_forall] at hnone
  obtain ⟨path, hpath', hcalls', hthrough⟩ := hnone
  exact ⟨c', n, storage, body', path, eq_ok hinstrument, ⟨layout, p, hblock⟩,
    ⟨m', hm', q, q', hset⟩, hpath', hcalls', hthrough⟩

end Prologue

end Reshape
