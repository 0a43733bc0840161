import Reshape.Proofs.Code.Path
import Reshape.Proofs.Code.Relocation
import Reshape.Proofs.Code.StackDepth

/-!
# Code that nothing leads to

What stands behind code can be seen by the analysis only if control runs off the end of the code.
Up to there an instruction does in the longer code what it did, and the two analyses go in lock
step.  If an instruction at the end passes control on, the longer code decides what comes of it, and
two bytes that start no instruction tell that it was looked at.  Of the instructions that never pass
control on, the analysis takes one for an instruction that does: the widened form of `ret`.
-/

namespace Reshape

/-! ## §1 An instruction in longer code -/

section Longer

variable {code more : Array UInt8} {i : Instruction} {offset position : Nat}

namespace Code

theorem byteAt_append (h : position < code.size) :
    byteAt (code ++ more) position = byteAt code position := by
  rw [byteAt, byteAt, Array.getElem?_append_left h]

theorem u16At_append (h : position + 2 ≤ code.size) :
    u16At (code ++ more) position = u16At code position := by
  rw [u16At, u16At, byteAt_append (by omega), byteAt_append (by omega)]

theorem i32At_append (h : position + 4 ≤ code.size) :
    i32At (code ++ more) position = i32At code position := by
  rw [i32At, i32At, byteAt_append (by omega), byteAt_append (by omega), byteAt_append (by omega),
    byteAt_append (by omega)]

end Code

theorem JumpOperand.relative_append {o : JumpOperand}
    (h : o.position + o.width.bytes ≤ code.size) :
    o.relative (code ++ more) = o.relative code := by
  obtain ⟨position, width⟩ := o
  cases width with
  | short => simp only [relative, Code.i16At, Code.u16At_append h]
  | wide => exact Code.i32At_append h

namespace Instruction

theorem keptAt_append (h : decode code i.offset = .ok i) :
    i.KeptAt code (code ++ more) i.offset := by
  obtain ⟨-, -, hfits⟩ := decode_bounds h
  refine ⟨fun k hk _ => Array.getElem?_append_left (by omega), fun _ => rfl, ?_⟩
  rw [Array.size_append]
  omega

theorem decode_append (h : decode code offset = .ok i) :
    decode (code ++ more) offset = .ok i := by
  obtain ⟨rfl, -, -⟩ := decode_bounds h
  exact (keptAt_append h).decode_eq h

theorem jumps_append (hdecode : decode code i.offset = .ok i) {operands : List JumpOperand}
    (h : i.Jumps code operands) : i.Jumps (code ++ more) operands := by
  have hsame : operands.map (fun o => { o with position := i.offset + (o.position - i.offset) }) =
      operands := by
    refine (List.map_congr_left fun o ho => ?_).trans (List.map_id operands)
    rw [Nat.add_sub_cancel' (length_of_jumps hdecode h o ho).1.le]
    rfl
  exact hsame ▸ (keptAt_append hdecode).jumps hdecode h

/-- The jumps lead where they led. -/
theorem jumpTargets_append (hdecode : decode code i.offset = .ok i) {targets : List Nat}
    (h : i.jumpTargets code = .ok targets) : i.jumpTargets (code ++ more) = .ok targets := by
  obtain ⟨operands, hoperands, htargets⟩ := except_bind_eq_ok.mp h
  have hjumps := jumpOperands_eq_ok.mp hoperands
  refine except_bind_eq_ok.mpr
    ⟨operands, jumpOperands_eq_ok.mpr (jumps_append hdecode hjumps), ?_⟩
  rw [except_mapM_eq_ok] at htargets ⊢
  refine (forall₂_with_mem htargets).imp ?_
  rintro o t ⟨ho, -, ht⟩
  obtain ⟨relative, hrelative, hsum, hinside⟩ := targetOf_eq_ok.mp ht
  refine targetOf_eq_ok.mpr ⟨relative, ?_, hsum, ?_⟩
  · obtain ⟨-, hend⟩ := length_of_jumps hdecode hjumps o ho
    obtain ⟨-, -, hfits⟩ := decode_bounds hdecode
    rwa [JumpOperand.relative_append (hend.trans hfits)]
  · rw [Array.size_append]
    omega

end Instruction

namespace StackDepth

theorem two_le_size {op : Opcode} {n : Nat} (hfixed : fixedChange? op = none)
    (hsize : op.size? = some n) : 2 ≤ n := by
  cases op <;> cases hfixed <;> cases hsize <;> decide

/-- Where the opcode alone does not decide the change of depth, something stands behind it. -/
theorem two_le_length (h : Instruction.decode code i.offset = .ok i)
    (hfixed : fixedChange? i.opcode = none) : 2 ≤ i.length := by
  obtain ⟨-, -, -, hlength, -, -⟩ := Instruction.decode_eq_ok.mp h
  unfold Instruction.announcedLength at hlength
  cases hsize : i.opcode.size? with
  | some n =>
      simp only [hsize] at hlength
      cases except_pure_eq_ok.mp hlength
      exact two_le_size hfixed hsize
  | none =>
      rcases Opcode.cases_of_size?_eq_none hsize with hop | hop | hop
      · rw [hop] at hfixed
        cases hfixed
      · rw [hop] at hfixed
        cases hfixed
      · simp only [hop, Opcode.size?] at hlength
        obtain ⟨inner, -, hlength⟩ := except_bind_eq_ok.mp hlength
        have hlength := except_pure_eq_ok.mp hlength
        split at hlength <;> omega

/-- The operands that decide the change of depth are in the instruction. -/
theorem change_append (pool : Pool) (h : Instruction.decode code i.offset = .ok i) :
    change pool (code ++ more) i = change pool code i := by
  obtain ⟨-, -, hfits⟩ := Instruction.decode_bounds h
  cases hfixed : fixedChange? i.opcode with
  | some amount => simp only [change, hfixed]
  | none =>
      have hlong := two_le_length h hfixed
      have hsized {op : Opcode} {n : Nat} (hop : i.opcode = op) (hn : op.size? = some n) :
          i.length = n := by
        obtain ⟨-, -, -, hlength, -, -⟩ := Instruction.decode_eq_ok.mp h
        simp only [Instruction.announcedLength, hop, hn] at hlength
        exact (except_pure_eq_ok.mp hlength).symm
      have hword {op : Opcode} {n : Nat} (hop : i.opcode = op) (hn : op.size? = some n)
          (hthree : 3 ≤ n) :
          Code.u16At (code ++ more) (i.offset + 1) = Code.u16At code (i.offset + 1) := by
        have := hsized hop hn
        exact Code.u16At_append (by omega)
      simp only [change, hfixed]
      split
      case h_1 => rw [Code.byteAt_append (by omega)]
      case h_2 hop | h_3 hop | h_4 hop | h_5 hop | h_6 hop | h_7 hop | h_8 hop | h_9 hop |
          h_10 hop | h_11 hop =>
        rw [hword hop rfl (by decide)]
      case h_12 hop =>
        have := hsized hop rfl
        rw [Code.byteAt_append (by omega)]
      case h_13 => rw [widenedChange, widenedChange, Code.byteAt_append (by omega)]

end StackDepth

end Longer

namespace StackDepth

/-! ## §2 Running off the end -/

section OneStep

variable {pool : Pool} {code more : Array UInt8} {p q : Point} {i : Instruction}
  {targets : List Nat} {f : Flow}

/-- An instruction at the end of the code can be followed and passes control on, but there is
nothing that control could be passed on to. -/
def RunsOff (pool : Pool) (code : Array UInt8) (p : Point) : Prop :=
  ∃ i f, Instruction.decode code p.offset = .ok i ∧ flow pool code p = .ok f ∧
    i.opcode.endsFlow = false ∧ i.next = code.size

/-- The instruction and its jumps are all there. -/
def Legible (code : Array UInt8) (offset : Nat) : Prop :=
  ∃ i targets, Instruction.decode code offset = .ok i ∧ i.jumpTargets code = .ok targets

/-- An instruction that is all there can only fail by its change of depth. -/
theorem flow_eq_error {e : FormatError} (hi : Instruction.decode code p.offset = .ok i)
    (htargets : i.jumpTargets code = .ok targets) :
    flow pool code p = .error e ↔ change pool code i = .error e ∨
      ∃ amount, change pool code i = .ok amount ∧ p.depth + amount < 0 ∧
        .negativeStackDepth p.offset = e := by
  unfold flow
  simp only [hi, bind, Except.bind]
  cases change pool code i with
  | error e' => simp
  | ok amount =>
      dsimp only
      by_cases hneg : p.depth + amount < 0
      · simp [hneg, throw, throwThe, MonadExceptOf.throw]
      · simp [hneg, htargets, pure, Except.pure]

theorem successors_append {after : Int}
    (hstays : i.opcode.endsFlow = false → i.next < code.size) :
    successors (code ++ more) i targets after = successors code i targets after := by
  unfold successors
  cases hends : i.opcode.endsFlow with
  | true => rfl
  | false =>
      have hinside := hstays hends
      have hmore : i.next < (code ++ more).size := by
        rw [Array.size_append]
        omega
      simp only [hinside, hmore]

/-- **What does not run off the end does not see what stands there.** -/
theorem flow_append (h : Legible code p.offset) (hstays : ¬ RunsOff pool code p) :
    flow pool (code ++ more) p = flow pool code p := by
  obtain ⟨i, targets, hi, htargets⟩ := h
  obtain ⟨hoffset, -, hfits⟩ := Instruction.decode_bounds hi
  have hself : Instruction.decode code i.offset = .ok i := hoffset ▸ hi
  have hi' : Instruction.decode (code ++ more) p.offset = .ok i := Instruction.decode_append hi
  have htargets' : i.jumpTargets (code ++ more) = .ok targets :=
    Instruction.jumpTargets_append hself htargets
  have hchange : change pool (code ++ more) i = change pool code i := change_append pool hself
  cases hflow : flow pool code p with
  | error e =>
      rw [flow_eq_error hi' htargets', hchange]
      exact (flow_eq_error hi htargets).mp hflow
  | ok f =>
      obtain ⟨j, amount, targets', hj, hamount, htargets'', hnonneg, rfl⟩ := flow_eq_ok.mp hflow
      cases hi.symm.trans hj
      cases htargets.symm.trans htargets''
      refine flow_eq_ok.mpr ⟨i, amount, targets, hi', hchange.trans hamount, htargets', hnonneg, ?_⟩
      rw [successors_append fun hpasses => ?_]
      have hnext : i.next ≠ code.size := fun hend => hstays ⟨i, _, hi, hflow, hpasses, hend⟩
      unfold Instruction.next at hnext ⊢
      omega

/-- An instruction that runs off the end passes control on to whatever stands there. -/
theorem flow_runsOff (h : RunsOff pool code p) (hmore : 0 < more.size) :
    ∃ f after, flow pool (code ++ more) p = .ok f ∧
      ∃ front, f.successors = front ++ [⟨code.size, after⟩] := by
  obtain ⟨i, f, hi, hflow, hpasses, hend⟩ := h
  obtain ⟨hoffset, -, hfits⟩ := Instruction.decode_bounds hi
  have hself : Instruction.decode code i.offset = .ok i := hoffset ▸ hi
  obtain ⟨j, amount, targets, hj, hamount, htargets, hnonneg, -⟩ := flow_eq_ok.mp hflow
  cases hi.symm.trans hj
  refine ⟨_, p.depth + amount, flow_eq_ok.mpr ⟨i, amount, targets, Instruction.decode_append hi,
    (change_append pool hself).trans hamount, Instruction.jumpTargets_append hself htargets,
    hnonneg, rfl⟩, targets.map (⟨·, p.depth + amount + returnSlots i.opcode⟩), ?_⟩
  have hinside : code.size < (code ++ more).size := by
    rw [Array.size_append]
    omega
  simp only [successors, hpasses, hend, hinside]
  rfl

/-- All points that an instruction hands control to are in the code. -/
theorem inside_of_mem_successors (hf : flow pool code p = .ok f) (hq : q ∈ f.successors) :
    q.offset < code.size := by
  obtain ⟨i, amount, targets, -, -, htargets, -, rfl⟩ := flow_eq_ok.mp hf
  rcases mem_successors.mp hq with ⟨target, htarget, rfl⟩ | ⟨-, hinside, rfl⟩
  · obtain ⟨operands, -, htargets⟩ := except_bind_eq_ok.mp htargets
    obtain ⟨o, -, ho⟩ := exists_left_of_forall₂ (except_mapM_eq_ok.mp htargets) htarget
    obtain ⟨-, -, -, hinside⟩ := Instruction.targetOf_eq_ok.mp ho
    exact hinside
  · exact hinside

end OneStep

/-! ## §3 The points that are visited -/

/-- The points that the analysis follows from a state on, one after the other. -/
inductive Visits (pool : Pool) (code : Array UInt8) : Depths → List Point → Point → Prop
  | now {depths : Depths} {pending rest : List Point} {p : Point}
      (next : unmet depths pending = .ok (p :: rest)) : Visits pool code depths pending p
  | later {depths : Depths} {pending rest : List Point} {p q : Point} {f : Flow}
      (next : unmet depths pending = .ok (p :: rest)) (flows : flow pool code p = .ok f)
      (behind : Visits pool code (depths.setIfInBounds p.offset (some p.depth))
        (f.successors.reverse ++ rest) q) : Visits pool code depths pending q

/-- The points that the analysis of the code follows. -/
def Visited (pool : Pool) (b : Body) : Point → Prop :=
  Visits pool b.code (Array.replicate b.code.size none) (entries b).reverse

section Run

variable {pool : Pool} {code more : Array UInt8} {depths fresh : Depths} {peak : Int}
  {pending rest : List Point} {p : Point}

/-- One step of the analysis. -/
theorem run_eq (pool : Pool) (code : Array UInt8) (depths : Depths) (peak : Int)
    (pending : List Point) : run pool code depths peak pending =
      match unmet depths pending with
      | .error e => .error e
      | .ok [] => .ok peak
      | .ok (p :: rest) =>
        match flow pool code p with
        | .error e => .error e
        | .ok f => run pool code (depths.setIfInBounds p.offset (some p.depth)) (max peak f.peak)
            (f.successors.reverse ++ rest) := by
  rw [run]
  split
  · next h => rewrite [h]; rfl
  · next h => rewrite [h]; rfl
  · next h => rewrite [h]; rfl

theorem unmet_suffix (h : unmet depths pending = .ok rest) : rest <:+ pending := by
  fun_induction unmet depths pending with
  | case1 =>
      cases h
      exact List.suffix_rfl
  | case2 => cases h
  | case3 =>
      cases h
      exact List.suffix_rfl
  | case4 p pending hp ih => exact (ih h).trans (List.suffix_cons p pending)
  | case5 => cases h

/-- What instructions hand on, and what was pending, holds of all points that are visited. -/
theorem Visits.invariant {P : Point → Prop} (h : Visits pool code depths pending p)
    (hstep : ∀ p f, P p → flow pool code p = .ok f → ∀ q ∈ f.successors, P q)
    (hpending : ∀ q ∈ pending, P q) : P p := by
  induction h with
  | now next => exact hpending _ ((unmet_suffix next).subset List.mem_cons_self)
  | @later depths pending rest p q f next flows _ ih =>
      have hrest {q : Point} (hq : q ∈ p :: rest) : P q :=
        hpending q ((unmet_suffix next).subset hq)
      refine ih fun q hq => ?_
      rcases List.mem_append.mp hq with hq | hq
      · exact hstep p f (hrest List.mem_cons_self) flows q (List.mem_reverse.mp hq)
      · exact hrest (List.mem_cons_of_mem p hq)

/-- No point is visited with a negative depth. -/
theorem Visited.depth_nonneg {b : Body} (h : Visited pool b p) : 0 ≤ p.depth := by
  refine Visits.invariant (P := fun q => 0 ≤ q.depth) h (fun p f _ hf q hq => ?_) fun q hq => ?_
  · obtain ⟨i, amount, targets, -, -, -, hnonneg, rfl⟩ := flow_eq_ok.mp hf
    rcases mem_successors.mp hq with ⟨target, -, rfl⟩ | ⟨-, -, rfl⟩
    · exact Int.add_nonneg hnonneg (returnSlots_nonneg i.opcode)
    · exact hnonneg
  · rcases List.mem_append.mp (List.mem_reverse.mp hq) with hq | hq
    · split at hq
      · cases hq
      · cases List.mem_singleton.mp hq
        exact le_refl 0
    · obtain ⟨handler, -, rfl⟩ := List.mem_map.mp hq
      exact Int.one_nonneg

/-! ## §4 Two analyses in lock step -/

theorem unmet_append (h : ∀ q ∈ pending, q.offset < depths.size) :
    unmet (depths ++ fresh) pending = unmet depths pending := by
  induction pending with
  | nil => rfl
  | cons q pending ih =>
      obtain ⟨hq, hpending⟩ := List.forall_mem_cons.mp h
      rw [unmet, unmet, Array.getElem?_append_left hq, ih hpending]

/-- The points that are pending after a step are in the code again. -/
theorem inside_of_next {f : Flow} (hpending : ∀ q ∈ pending, q.offset < code.size)
    (hnext : unmet depths pending = .ok (p :: rest)) (hf : flow pool code p = .ok f) :
    ∀ q ∈ f.successors.reverse ++ rest, q.offset < code.size := by
  intro q hq
  rcases List.mem_append.mp hq with hq | hq
  · exact inside_of_mem_successors hf (List.mem_reverse.mp hq)
  · exact hpending q ((unmet_suffix hnext).subset (List.mem_cons_of_mem p hq))

/-- One step of the analysis of longer code, of which nothing behind the end was met so far. -/
theorem run_step_append {f : Flow} (hsize : depths.size = code.size)
    (hpending : ∀ q ∈ pending, q.offset < code.size)
    (hnext : unmet depths pending = .ok (p :: rest)) (hf : flow pool (code ++ more) p = .ok f) :
    run pool (code ++ more) (depths ++ fresh) peak pending =
      run pool (code ++ more) (depths.setIfInBounds p.offset (some p.depth) ++ fresh)
        (max peak f.peak) (f.successors.reverse ++ rest) := by
  have hp : p.offset < depths.size :=
    hsize ▸ hpending p ((unmet_suffix hnext).subset List.mem_cons_self)
  rw [run_eq, unmet_append (hsize ▸ hpending), hnext]
  dsimp only
  rw [hf]
  dsimp only
  rw [Array.setIfInBounds_append_left hp]

/-- **If no point runs off the end, the analysis of the longer code goes the same way.** -/
theorem run_append (hsize : depths.size = code.size)
    (hpending : ∀ q ∈ pending, q.offset < code.size)
    (hlegible : ∀ q, Visits pool code depths pending q → Legible code q.offset)
    (hstays : ∀ q, Visits pool code depths pending q → ¬ RunsOff pool code q) :
    run pool (code ++ more) (depths ++ fresh) peak pending = run pool code depths peak pending := by
  fun_induction run pool code depths peak pending with
  | case1 depths peak pending e hnext =>
      rw [run_eq, unmet_append (hsize ▸ hpending), hnext]
  | case2 depths peak pending hnext =>
      rw [run_eq, unmet_append (hsize ▸ hpending), hnext]
  | case3 depths peak pending p rest hnext e hf =>
      rw [run_eq, unmet_append (hsize ▸ hpending), hnext]
      dsimp only
      rw [flow_append (hlegible p (.now hnext)) (hstays p (.now hnext)), hf]
  | case4 depths peak pending p rest hnext f hf ih =>
      have hsame : flow pool (code ++ more) p = flow pool code p :=
        flow_append (hlegible p (.now hnext)) (hstays p (.now hnext))
      rw [run_step_append hsize hpending hnext (hsame.trans hf)]
      exact ih (Array.size_setIfInBounds.trans hsize) (inside_of_next hpending hnext hf)
        (fun q hq => hlegible q (.later hnext hf hq)) (fun q hq => hstays q (.later hnext hf hq))

theorem flow_invalid {byte : UInt8} (hbyte : Opcode.ofByte? byte = none) (after : Int) :
    flow pool (code ++ #[byte]) ⟨code.size, after⟩ = .error (.invalidOpcode code.size byte) := by
  have hat : Code.byteAt (code ++ #[byte]) code.size = .ok byte := by
    rw [Code.byteAt_eq_ok, Array.getElem?_append_right (Nat.le_refl _), Nat.sub_self]
    rfl
  have hdecode : Instruction.decode (code ++ #[byte]) code.size =
      .error (.invalidOpcode code.size byte) := by
    unfold Instruction.decode
    simp only [hat, bind, Except.bind, hbyte]
    rfl
  unfold flow
  simp only [hdecode, bind, Except.bind]

theorem run_of_runsOff {byte : UInt8} (hbyte : Opcode.ofByte? byte = none)
    (hsize : depths.size = code.size) (hpending : ∀ q ∈ pending, q.offset < code.size)
    (hnext : unmet depths pending = .ok (p :: rest)) (hoff : RunsOff pool code p) :
    run pool (code ++ #[byte]) (depths ++ #[none]) peak pending =
      .error (.invalidOpcode code.size byte) := by
  obtain ⟨f, after, hf, front, hfront⟩ := flow_runsOff hoff (show 0 < #[byte].size from Nat.one_pos)
  -- The end of the code has not been met before, so it is what the analysis goes on with.
  have hmet : (depths.setIfInBounds p.offset (some p.depth) ++ #[none])[code.size]? =
      some none := by
    rw [Array.getElem?_append_right (by rw [Array.size_setIfInBounds, hsize]),
      Array.size_setIfInBounds, hsize, Nat.sub_self]
    rfl
  rw [run_step_append hsize hpending hnext hf, hfront, List.reverse_append, List.append_assoc,
    List.reverse_singleton, List.singleton_append, run_eq, unmet]
  simp only [hmet, flow_invalid hbyte]

/-- **If a point runs off the end, the analysis of the longer code goes on there**, and ends if no
instruction starts with the byte that it finds. -/
theorem run_invalid {byte : UInt8} (hbyte : Opcode.ofByte? byte = none)
    (hvisits : Visits pool code depths pending p) (hoff : RunsOff pool code p)
    (hsize : depths.size = code.size) (hpending : ∀ q ∈ pending, q.offset < code.size)
    (hlegible : ∀ q, Visits pool code depths pending q → Legible code q.offset) :
    run pool (code ++ #[byte]) (depths ++ #[none]) peak pending =
      .error (.invalidOpcode code.size byte) := by
  induction hvisits generalizing peak with
  | now hnext => exact run_of_runsOff hbyte hsize hpending hnext hoff
  | @later depths pending rest p q f hnext hf _ ih =>
      by_cases hfirst : RunsOff pool code p
      · exact run_of_runsOff hbyte hsize hpending hnext hfirst
      · have hsame : flow pool (code ++ #[byte]) p = flow pool code p :=
          flow_append (hlegible p (.now hnext)) hfirst
        rw [run_step_append hsize hpending hnext (hsame.trans hf)]
        exact ih hoff (Array.size_setIfInBounds.trans hsize) (inside_of_next hpending hnext hf)
          fun q hq => hlegible q (.later hnext hf hq)

end Run

end StackDepth

/-! ## §5 Code with something behind it -/

/-- The body with more bytes behind its code. -/
def Body.followedBy (b : Body) (trailing : Array UInt8) : Body :=
  { b with code := b.code ++ trailing }

namespace StackDepth

/-- Whatever stands behind the code, the analysis ends alike. -/
def Unseen (pool : Pool) (b : Body) : Prop :=
  ∀ trailing, greatest pool (b.followedBy trailing) = greatest pool b

/-- There is code, control starts in it, and all that the analysis looks at is there. -/
structure Contained (pool : Pool) (b : Body) : Prop where
  nonempty : b.code.isEmpty = false
  entered : ∀ p ∈ entries b, p.offset < b.code.size
  legible : ∀ p, Visited pool b p → Legible b.code p.offset

section Whole

variable {pool : Pool} {b : Body}

theorem greatest_followedBy (hnonempty : b.code.isEmpty = false) (trailing : Array UInt8) :
    greatest pool (b.followedBy trailing) = (do
      let peak ← run pool (b.code ++ trailing)
        (Array.replicate b.code.size none ++ Array.replicate trailing.size none) 0
        (entries b).reverse
      return UInt16.ofNat peak.toNat) := by
  have hempty : (b.code ++ trailing).isEmpty = false := by
    have hcode : b.code ≠ #[] := by simpa using hnonempty
    simp [hcode]
  have hentries : entries (b.followedBy trailing) = entries b := by
    simp only [entries, Body.followedBy, hempty, hnonempty]
  rw [greatest, hentries]
  simp only [Body.followedBy, Array.size_append, Array.replicate_append_replicate]

/-- **What stands behind the code is unseen exactly if no point that is visited runs off the
end.** -/
theorem unseen_iff (h : Contained pool b) :
    Unseen pool b ↔ ∀ p, Visited pool b p → ¬ RunsOff pool b.code p := by
  have hpending : ∀ q ∈ (entries b).reverse, q.offset < b.code.size :=
    fun q hq => h.entered q (List.mem_reverse.mp hq)
  constructor
  · intro hunseen p hp hoff
    have hinvalid {byte : UInt8} (hbyte : Opcode.ofByte? byte = none) :
        greatest pool b = .error (.invalidOpcode b.code.size byte) := by
      rw [← hunseen #[byte], greatest_followedBy h.nonempty,
        show Array.replicate #[byte].size (none : Option Int) = #[none] from rfl,
        run_invalid hbyte hp hoff Array.size_replicate hpending h.legible]
      rfl
    have hboth := (hinvalid (show Opcode.ofByte? 0xcb = none by decide +kernel)).symm.trans
      (hinvalid (show Opcode.ofByte? 0xcc = none by decide +kernel))
    simp at hboth
  · intro hstays trailing
    rw [greatest_followedBy h.nonempty,
      run_append Array.size_replicate hpending h.legible hstays, greatest]

/-- All of the code is contained in it, if the analysis succeeds. -/
theorem contained_of_greatest (hnonempty : b.code.isEmpty = false) {m : UInt16}
    (h : greatest pool b = .ok m) : Contained pool b := by
  obtain ⟨result, hsearched, hresult⟩ := exists_searched pool b
  rw [h] at hresult
  obtain ⟨peak, rfl, -⟩ := Option.map_eq_some_iff.mp hresult.symm
  have hconsistent : Consistent pool b := hsearched.verdict.1
  refine ⟨hnonempty, fun p hp => hconsistent.inside p (reaches_of_mem_entries hp), fun p hp => ?_⟩
  have hreached : Reaches pool b p := by
    refine Visits.invariant hp (fun p f hp hf q hq => reaches_of_mem_successors hp hf hq) ?_
    exact fun q hq => reaches_of_mem_entries (List.mem_reverse.mp hq)
  obtain ⟨i, amount, targets, hi, -, htargets, -⟩ := hconsistent.defined p hreached
  exact ⟨i, targets, hi, htargets⟩

end Whole

end StackDepth

/-! ## §6 Code that stands alone -/

/-- The widened form of a return from a subroutine. -/
def Instruction.IsWideRet (code : Array UInt8) (i : Instruction) : Prop :=
  i.opcode = .wide ∧ code[i.offset + 1]? = some Opcode.ret.byte

/-- The machine never goes on to the next instruction. -/
inductive Instruction.Stops (code : Array UInt8) (i : Instruction) : Prop
  | goes (goto : i.opcode = .goto ∨ i.opcode = .gotoW)
  | switches (switch : i.opcode.isSwitch = true)
  | returns (isReturn : i.opcode.isReturn = true)
  | throws (athrow : i.opcode = .athrow)
  | ret (ret : i.opcode = .ret)
  | wideRet (ret : i.IsWideRet code)

/-- An instruction of the code starts at the offset. -/
def Code.StartsAt (code : Array UInt8) (offset : Nat) : Prop :=
  ∃ j ∈ (decodeAll code).instructions, j.offset = offset

/-- The code decodes completely, all jumps and handlers lead to its instructions, and the machine
never goes on behind the last one. -/
structure Body.StandsAlone (b : Body) : Prop where
  complete : (decodeAll b.code).fault = none
  closed : Code.Closed b.code
  handlers : ∀ h ∈ b.handlers, Code.StartsAt b.code h.target.toNat
  stops : ∃ i ∈ (decodeAll b.code).instructions.getLast?, i.Stops b.code

theorem Opcode.endsFlow_of_isSwitch {op : Opcode} (h : op.isSwitch = true) :
    op.endsFlow = true := by
  cases op <;> first | rfl | exact nomatch h

/-- Of all instructions at which the machine stops, the analysis goes on behind one. -/
theorem Instruction.Stops.isWideRet {code : Array UInt8} {i : Instruction} (h : i.Stops code)
    (hpasses : i.opcode.endsFlow = false) : i.IsWideRet code := by
  cases h with
  | goes goto => rcases goto with hop | hop <;> rw [hop] at hpasses <;> cases hpasses
  | switches switch =>
      rw [Opcode.endsFlow_of_isSwitch switch] at hpasses
      cases hpasses
  | returns isReturn =>
      rw [Opcode.endsFlow_of_isReturn isReturn] at hpasses
      cases hpasses
  | throws athrow => rw [athrow] at hpasses; cases hpasses
  | ret ret => rw [ret] at hpasses; cases hpasses
  | wideRet ret => exact ret

namespace Decodes

variable {code : Array UInt8} {offset : Nat} {is : List Instruction} {i : Instruction}

/-- The last instruction ends with the code. -/
theorem next_of_getLast (h : Decodes code offset is) (hlast : i ∈ is.getLast?) :
    i.next = code.size := by
  induction h with
  | nil => cases hlast
  | @cons offset j rest first behind ih =>
      cases behind with
      | nil done =>
          rw [List.getLast?_singleton, Option.mem_some_iff] at hlast
          subst hlast
          obtain ⟨hoffset, -, hfits⟩ := Instruction.decode_bounds first
          unfold Instruction.next at done ⊢
          omega
      | cons second rest => exact ih (by rwa [List.getLast?_cons_cons] at hlast)

end Decodes

namespace StackDepth

variable {pool : Pool} {b : Body} {p : Point} {i : Instruction}

/-- Whatever the depth, a widened return can be followed. -/
theorem runsOff_of_isWideRet {code : Array UInt8}
    (hdecode : Instruction.decode code p.offset = .ok i) (hret : i.IsWideRet code)
    (hend : i.next = code.size) (hnonneg : 0 ≤ p.depth) : RunsOff pool code p := by
  obtain ⟨hop, hbyte⟩ := hret
  have hfixed : fixedChange? .wide = none := rfl
  have hchange : change pool code i = .ok 0 := by
    simp only [change, hop, hfixed]
    refine except_bind_eq_ok.mpr ⟨_, Code.byteAt_eq_ok.mpr hbyte, ?_⟩
    rw [Opcode.ofByte?_byte]
    rfl
  have hjumps : i.Jumps code [] :=
    .none (by rw [hop]; rfl) (by rw [hop]; rfl) (by simp [hop]) (by simp [hop])
  have htargets : i.jumpTargets code = .ok [] :=
    except_bind_eq_ok.mpr ⟨[], Instruction.jumpOperands_eq_ok.mpr hjumps, rfl⟩
  have hafter : 0 ≤ p.depth + 0 := by rwa [Int.add_zero]
  have hflow := flow_eq_ok.mpr ⟨i, 0, [], hdecode, hchange, htargets, hafter, rfl⟩
  exact ⟨i, _, hdecode, hflow, by rw [hop]; rfl, hend⟩

section StandsAlone

variable (h : b.StandsAlone)
include h

/-- Control starts at instructions. -/
theorem startsAt_of_entries (hp : p ∈ entries b) : Code.StartsAt b.code p.offset := by
  rcases List.mem_append.mp hp with hp | hp
  · split at hp
    · cases hp
    · next hcode =>
      cases List.mem_singleton.mp hp
      cases hall : (decodeAll b.code).instructions with
      | nil =>
          obtain ⟨i, hi, -⟩ := h.stops
          rw [hall] at hi
          cases hi
      | cons j rest =>
          have hdecodes := decodes_decodeAll h.complete
          rw [hall] at hdecodes
          cases hdecodes with
          | cons first _ =>
              exact ⟨j, hall ▸ List.mem_cons_self, (Instruction.decode_bounds first).1⟩
  · obtain ⟨handler, hmem, rfl⟩ := List.mem_map.mp hp
    exact h.handlers handler hmem

/-- Code that stands alone is visited only where its instructions start. -/
theorem startsAt_of_visited (hp : Visited pool b p) : Code.StartsAt b.code p.offset := by
  have hdecodes := decodes_decodeAll h.complete
  refine Visits.invariant hp ?_ fun q hq => startsAt_of_entries h (List.mem_reverse.mp hq)
  rintro p f ⟨j, hj, hoffset⟩ hf q hq
  obtain ⟨i, amount, targets, hi, -, htargets, -, rfl⟩ := flow_eq_ok.mp hf
  have hself := (hdecodes.decode_of_mem hj).1
  rw [hoffset] at hself
  cases hi.symm.trans hself
  rcases mem_successors.mp hq with ⟨target, htarget, rfl⟩ | ⟨-, hinside, rfl⟩
  · obtain ⟨targets', htargets', hstarts⟩ := h.closed j hj
    cases htargets.symm.trans htargets'
    exact hstarts target htarget
  · rcases hdecodes.boundary_next hj with hend | hstart
    · exact absurd hend (Nat.ne_of_lt hinside)
    · exact hstart

theorem contained_of_standsAlone : Contained pool b := by
  have hdecodes := decodes_decodeAll h.complete
  have hsize {p : Point} (hp : Code.StartsAt b.code p.offset) : p.offset < b.code.size := by
    obtain ⟨j, hj, hoffset⟩ := hp
    obtain ⟨-, hpos, hfits⟩ := Instruction.decode_bounds (hdecodes.decode_of_mem hj).1
    omega
  refine ⟨?_, fun p hp => hsize (startsAt_of_entries h hp), fun p hp => ?_⟩
  · obtain ⟨i, hi, -⟩ := h.stops
    have hmem := List.mem_of_mem_getLast? hi
    obtain ⟨-, hpos, hfits⟩ := Instruction.decode_bounds (hdecodes.decode_of_mem hmem).1
    have hcode : b.code ≠ #[] := Array.size_pos_iff.mp (by omega)
    simpa using hcode
  · obtain ⟨j, hj, hoffset⟩ := startsAt_of_visited h hp
    obtain ⟨targets, htargets, -⟩ := h.closed j hj
    exact ⟨j, targets, hoffset ▸ (hdecodes.decode_of_mem hj).1, htargets⟩

/-- A point of such code runs off the end exactly at a widened return that is its last
instruction. -/
theorem runsOff_iff (hp : Visited pool b p) :
    RunsOff pool b.code p ↔
      ∃ i ∈ (decodeAll b.code).instructions.getLast?, i.IsWideRet b.code ∧ p.offset = i.offset := by
  have hdecodes := decodes_decodeAll h.complete
  constructor
  · rintro ⟨i, f, hi, -, hpasses, hend⟩
    obtain ⟨j, hj, hoffset⟩ := startsAt_of_visited h hp
    have hself := (hdecodes.decode_of_mem hj).1
    rw [hoffset] at hself
    cases hi.symm.trans hself
    obtain ⟨last, hlast, hstops⟩ := h.stops
    have hsame : i = last := by
      refine hdecodes.eq_of_next_eq hj (List.mem_of_mem_getLast? hlast) ?_
      rw [hend, hdecodes.next_of_getLast hlast]
    subst hsame
    exact ⟨i, hlast, hstops.isWideRet hpasses, hoffset.symm⟩
  · rintro ⟨i, hlast, hret, hoffset⟩
    have hdecode := (hdecodes.decode_of_mem (List.mem_of_mem_getLast? hlast)).1
    have hend := hdecodes.next_of_getLast hlast
    exact runsOff_of_isWideRet (hoffset ▸ hdecode) hret hend hp.depth_nonneg

end StandsAlone

/-- **Trailing code is invisible** to the analysis of code that stands alone, whatever comes of it,
unless the code ends with a widened `ret` that the analysis comes to.  Where the analysis succeeds,
nothing need be known of the code but that no point that is visited runs off the end. -/
theorem trailing_code_invisible_iff (pool : Pool) (b : Body) :
    (b.StandsAlone → (Unseen pool b ↔
        ∀ i ∈ (decodeAll b.code).instructions.getLast?, i.IsWideRet b.code →
          ∀ p, Visited pool b p → p.offset ≠ i.offset)) ∧
      (b.code.isEmpty = false → ∀ m, greatest pool b = .ok m →
        (Unseen pool b ↔ ∀ p, Visited pool b p → ¬ RunsOff pool b.code p)) := by
  constructor
  · intro h
    rw [unseen_iff (contained_of_standsAlone h)]
    constructor
    · intro hstays i hlast hret p hp hoffset
      exact hstays p hp ((runsOff_iff h hp).mpr ⟨i, hlast, hret, hoffset⟩)
    · intro hnever p hp hoff
      obtain ⟨i, hlast, hret, hoffset⟩ := (runsOff_iff h hp).mp hoff
      exact hnever i hlast hret p hp hoffset
  · intro hnonempty m hm
    exact unseen_iff (contained_of_greatest hnonempty hm)

/-- Behind a `ret` nothing is seen; behind its widened form, which is as much the end of the code,
a `pop` makes the analysis fail. -/
theorem trailing_code_invisible_iff_ret :
    let narrow : Body := ⟨0, 0, #[0xa9, 0], [], []⟩
    let wide : Body := ⟨0, 0, #[0xc4, 0xa9, 0, 0], [], []⟩
    narrow.StandsAlone ∧ Unseen .empty narrow ∧
      wide.StandsAlone ∧ greatest .empty wide = .ok 0 ∧
      greatest .empty (wide.followedBy #[0x57]) = .error (.negativeStackDepth 4) ∧
      (∃ p, Visited .empty wide p ∧ RunsOff .empty wide.code p) ∧
      ∃ p, Visited .empty wide p ∧ p.offset = 0 := by
  intro narrow wide
  have hnarrow : narrow.StandsAlone :=
    ⟨by decide +kernel, by decide +kernel, nofun, ⟨⟨0, .ret, 2⟩, by decide +kernel, .ret rfl⟩⟩
  have hlast : (decodeAll wide.code).instructions.getLast? = some ⟨0, .wide, 4⟩ := by
    decide +kernel
  have hwide : wide.StandsAlone :=
    ⟨by decide +kernel, by decide +kernel, nofun, ⟨_, hlast, .wideRet ⟨rfl, rfl⟩⟩⟩
  have hgreatest : greatest .empty wide = .ok 0 := by decide +kernel
  have htrailing : greatest .empty (wide.followedBy #[0x57]) = .error (.negativeStackDepth 4) := by
    decide +kernel
  have hseen : ¬ Unseen .empty wide := by
    intro hunseen
    have := (hunseen #[0x57]).symm.trans htrailing
    rw [hgreatest] at this
    cases this
  obtain ⟨hnarrow_iff, -⟩ := trailing_code_invisible_iff .empty narrow
  obtain ⟨hwide_iff, hwide_ok⟩ := trailing_code_invisible_iff .empty wide
  refine ⟨hnarrow, (hnarrow_iff hnarrow).mpr ?_, hwide, hgreatest, htrailing, ?_, ?_⟩
  · intro i hi hret
    have hlast : (decodeAll narrow.code).instructions.getLast? = some ⟨0, .ret, 2⟩ := by
      decide +kernel
    cases hlast.symm.trans hi
    cases hret.1
  · by_contra hnone
    exact hseen ((hwide_ok rfl 0 hgreatest).mpr fun p hp hoff => hnone ⟨p, hp, hoff⟩)
  · by_contra hnone
    refine hseen ((hwide_iff hwide).mpr fun i hi _ p hp hoffset => hnone ⟨p, hp, ?_⟩)
    cases hlast.symm.trans hi
    exact hoffset

end StackDepth

end Reshape
