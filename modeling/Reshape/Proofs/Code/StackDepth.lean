import Mathlib.Data.Multiset.AddSub
import Mathlib.Order.Bounds.Basic
import Mathlib.Order.MinMax
import Reshape.Code.StackDepth
import Reshape.Proofs.Code.Decoding

/-!
# The depth of the operand stack

Control *reaches* an offset with a depth if the instructions lead it there from the start of the
code or from a handler.  The analysis visits the points that are reached one after the other, each
offset once.  It succeeds exactly if the points agree with each other and every instruction that is
reached can be followed, and then its result is the greatest depth on the way.  Neither depends on
which pending point is taken next: `Search` takes any of them, and all searches end alike.
-/

namespace Reshape.StackDepth

/-! ## §1 Points that control reaches -/

/-- What a subroutine call leaves at its target. -/
def returnSlots (op : Opcode) : Int := if op.isSubroutineCall then 1 else 0

theorem returnSlots_nonneg (op : Opcode) : 0 ≤ returnSlots op := by
  unfold returnSlots
  split <;> decide

inductive Reaches (pool : Pool) (b : Body) : Point → Prop
  | start (nonempty : b.code.isEmpty = false) : Reaches pool b ⟨0, 0⟩
  | handler {h : Handler} (mem : h ∈ b.handlers) : Reaches pool b ⟨h.target.toNat, 1⟩
  | falls {p : Point} {i : Instruction} {amount : Int} (reached : Reaches pool b p)
      (decoded : Instruction.decode b.code p.offset = .ok i)
      (changes : change pool b.code i = .ok amount) (passes : i.opcode.endsFlow = false)
      (inside : i.next < b.code.size) : Reaches pool b ⟨i.next, p.depth + amount⟩
  | jumps {p : Point} {i : Instruction} {amount : Int} {targets : List Nat} {target : Nat}
      (reached : Reaches pool b p) (decoded : Instruction.decode b.code p.offset = .ok i)
      (changes : change pool b.code i = .ok amount) (known : i.jumpTargets b.code = .ok targets)
      (mem : target ∈ targets) :
      Reaches pool b ⟨target, p.depth + amount + returnSlots i.opcode⟩

/-- A depth before or after an instruction that control reaches, or along one of its jumps. -/
inductive Sees (pool : Pool) (b : Body) : Int → Prop
  | before {p : Point} (reached : Reaches pool b p) : Sees pool b p.depth
  | after {p : Point} {i : Instruction} {amount : Int} (reached : Reaches pool b p)
      (decoded : Instruction.decode b.code p.offset = .ok i)
      (changes : change pool b.code i = .ok amount) : Sees pool b (p.depth + amount)
  | along {p : Point} {i : Instruction} {amount : Int} {targets : List Nat} {target : Nat}
      (reached : Reaches pool b p) (decoded : Instruction.decode b.code p.offset = .ok i)
      (changes : change pool b.code i = .ok amount) (known : i.jumpTargets b.code = .ok targets)
      (mem : target ∈ targets) : Sees pool b (p.depth + amount + returnSlots i.opcode)

/-- Every instruction that control reaches can be followed, and none is reached with two depths. -/
structure Consistent (pool : Pool) (b : Body) : Prop where
  inside : ∀ p, Reaches pool b p → p.offset < b.code.size
  defined : ∀ p, Reaches pool b p → ∃ i amount targets,
    Instruction.decode b.code p.offset = .ok i ∧ change pool b.code i = .ok amount ∧
      i.jumpTargets b.code = .ok targets ∧ 0 ≤ p.depth + amount
  unique : ∀ p q, Reaches pool b p → Reaches pool b q → p.offset = q.offset → p.depth = q.depth

/-! ## §2 One instruction -/

section Flow

variable {pool : Pool} {b : Body} {code : Array UInt8} {p q : Point} {f : Flow}

/-- The points behind an instruction. -/
def successors (code : Array UInt8) (i : Instruction) (targets : List Nat) (after : Int) :
    List Point :=
  targets.map (⟨·, after + returnSlots i.opcode⟩) ++
    if !i.opcode.endsFlow && i.next < code.size then [⟨i.next, after⟩] else []

theorem flow_eq_ok : flow pool code p = .ok f ↔ ∃ i amount targets,
    Instruction.decode code p.offset = .ok i ∧ change pool code i = .ok amount ∧
      i.jumpTargets code = .ok targets ∧ 0 ≤ p.depth + amount ∧
      f = ⟨max p.depth (max (p.depth + amount) (p.depth + amount + returnSlots i.opcode)),
        successors code i targets (p.depth + amount)⟩ := by
  have hjumping (op : Opcode) (after : Int) :
      (if op.isSubroutineCall then after + 1 else after) = after + returnSlots op := by
    unfold returnSlots
    split
    · rfl
    · exact (Int.add_zero after).symm
  constructor
  · intro h
    obtain ⟨i, hi, h⟩ := except_bind_eq_ok.mp h
    obtain ⟨amount, hamount, h⟩ := except_bind_eq_ok.mp h
    dsimp only at h
    split at h
    · obtain ⟨u, hthrow, -⟩ := except_bind_eq_ok.mp h
      exact (except_throw_eq_ok.mp hthrow).elim
    · next hnonneg =>
      obtain ⟨targets, htargets, h⟩ := except_bind_eq_ok.mp h
      rw [hjumping] at h
      exact ⟨i, amount, targets, hi, hamount, htargets, Int.not_lt.mp hnonneg,
        (except_pure_eq_ok.mp h).symm⟩
  · rintro ⟨i, amount, targets, hi, hamount, htargets, hnonneg, rfl⟩
    refine except_bind_eq_ok.mpr ⟨i, hi, except_bind_eq_ok.mpr ⟨amount, hamount, ?_⟩⟩
    dsimp only
    rw [if_neg (Int.not_lt.mpr hnonneg), hjumping]
    exact except_bind_eq_ok.mpr ⟨targets, htargets, rfl⟩

theorem mem_successors {i : Instruction} {targets : List Nat} {after : Int} :
    q ∈ successors code i targets after ↔
      (∃ target ∈ targets, q = ⟨target, after + returnSlots i.opcode⟩) ∨
        i.opcode.endsFlow = false ∧ i.next < code.size ∧ q = ⟨i.next, after⟩ := by
  unfold successors
  rw [List.mem_append, List.mem_map]
  refine or_congr (exists_congr fun target => and_congr_right fun _ => eq_comm) ?_
  split
  · next h =>
    rw [Bool.and_eq_true, Bool.not_eq_true', decide_eq_true_eq] at h
    simp only [List.mem_singleton, h, true_and]
  · next h =>
    rw [Bool.and_eq_true, Bool.not_eq_true', decide_eq_true_eq] at h
    constructor
    · exact nofun
    · exact fun ⟨hpasses, hinside, _⟩ => (h ⟨hpasses, hinside⟩).elim

/-- The successors of a point that is reached are reached. -/
theorem reaches_of_mem_successors (hp : Reaches pool b p) (hf : flow pool b.code p = .ok f)
    (hq : q ∈ f.successors) : Reaches pool b q := by
  obtain ⟨i, amount, targets, hi, hamount, htargets, -, rfl⟩ := flow_eq_ok.mp hf
  rcases mem_successors.mp hq with ⟨target, htarget, rfl⟩ | ⟨hpasses, hinside, rfl⟩
  · exact .jumps hp hi hamount htargets htarget
  · exact .falls hp hi hamount hpasses hinside

/-- A subroutine call has a target. -/
theorem exists_target_of_call {i : Instruction} {targets : List Nat}
    (hcall : i.opcode.isSubroutineCall = true) (h : i.jumpTargets code = .ok targets) :
    ∃ target, target ∈ targets := by
  obtain ⟨operands, hoperands, htargets⟩ := except_bind_eq_ok.mp h
  obtain ⟨o, ho⟩ : ∃ o, o ∈ operands := by
    cases hop : i.opcode <;> simp only [hop, Opcode.isSubroutineCall] at hcall <;> try cases hcall
    · have hjumps : i.Jumps code [⟨i.offset + 1, .short⟩] := .short (by rw [hop]; rfl)
      cases (Instruction.jumpOperands_eq_ok.mpr hjumps).symm.trans hoperands
      exact ⟨_, List.mem_singleton_self _⟩
    · have hjumps : i.Jumps code [⟨i.offset + 1, .wide⟩] := .wide (by rw [hop]; rfl)
      cases (Instruction.jumpOperands_eq_ok.mpr hjumps).symm.trans hoperands
      exact ⟨_, List.mem_singleton_self _⟩
  obtain ⟨target, htarget, -⟩ := exists_right_of_forall₂ (except_mapM_eq_ok.mp htargets) ho
  exact ⟨target, htarget⟩

/-- What an instruction sees, its jumps included, is a depth before or after it or along a jump. -/
theorem sees_peak (hp : Reaches pool b p) (hf : flow pool b.code p = .ok f) :
    Sees pool b f.peak := by
  obtain ⟨i, amount, targets, hi, hamount, htargets, -, rfl⟩ := flow_eq_ok.mp hf
  have hafter : Sees pool b (p.depth + amount) := .after hp hi hamount
  have hjump : Sees pool b (p.depth + amount + returnSlots i.opcode) := by
    by_cases hcall : i.opcode.isSubroutineCall = true
    · obtain ⟨target, htarget⟩ := exists_target_of_call hcall htargets
      exact .along hp hi hamount htargets htarget
    · rwa [returnSlots, if_neg hcall, Int.add_zero]
  dsimp only
  rcases max_choice p.depth (max (p.depth + amount) (p.depth + amount + returnSlots i.opcode))
    with h | h
  · rw [h]
    exact .before hp
  · rw [h]
    rcases max_choice (p.depth + amount) (p.depth + amount + returnSlots i.opcode) with h | h
    · rw [h]
      exact hafter
    · rw [h]
      exact hjump

end Flow

/-! ## §3 Searching in any order -/

/-- The point was met with its depth. -/
def Known (depths : Depths) (p : Point) : Prop := depths[p.offset]? = some (some p.depth)

/-- The ways to go through the pending points, any of them next, with the greatest depth that was
seen or nothing where the search fails. -/
inductive Search (pool : Pool) (code : Array UInt8) :
    Depths → Int → Multiset Point → Option Int → Prop
  | done {depths : Depths} {peak : Int} : Search pool code depths peak 0 (some peak)
  | skip {depths : Depths} {peak : Int} {p : Point} {rest : Multiset Point} {result : Option Int}
      (known : Known depths p) (behind : Search pool code depths peak rest result) :
      Search pool code depths peak (p ::ₘ rest) result
  | expand {depths : Depths} {peak : Int} {p : Point} {rest : Multiset Point}
      {result : Option Int} {f : Flow} (new : depths[p.offset]? = some none)
      (flows : flow pool code p = .ok f)
      (behind : Search pool code (depths.setIfInBounds p.offset (some p.depth))
        (max peak f.peak) (f.successors + rest) result) :
      Search pool code depths peak (p ::ₘ rest) result
  | outside {depths : Depths} {peak : Int} {p : Point} {rest : Multiset Point}
      (outside : depths[p.offset]? = none) : Search pool code depths peak (p ::ₘ rest) none
  | conflict {depths : Depths} {peak : Int} {p : Point} {rest : Multiset Point} {depth : Int}
      (known : Known depths ⟨p.offset, depth⟩) (differs : depth ≠ p.depth) :
      Search pool code depths peak (p ::ₘ rest) none
  | fault {depths : Depths} {peak : Int} {p : Point} {rest : Multiset Point} {e : FormatError}
      (new : depths[p.offset]? = some none) (flows : flow pool code p = .error e) :
      Search pool code depths peak (p ::ₘ rest) none

/-- What holds throughout a search: all that was met is reached, and whatever is reached from it
was met or is pending. -/
structure Explored (pool : Pool) (b : Body) (depths : Depths) (peak : Int)
    (pending : Multiset Point) : Prop where
  size : depths.size = b.code.size
  reached : ∀ p, Known depths p ∨ p ∈ pending → Reaches pool b p
  entered : ∀ p ∈ entries b, Known depths p ∨ p ∈ pending
  followed : ∀ p, Known depths p → ∃ f, flow pool b.code p = .ok f ∧ f.peak ≤ peak ∧
    ∀ q ∈ f.successors, Known depths q ∨ q ∈ pending
  seen : peak = 0 ∨ Sees pool b peak
  nonneg : 0 ≤ peak

section Search

variable {pool : Pool} {b : Body} {depths : Depths} {peak : Int} {pending : Multiset Point}
  {p q : Point}

theorem reaches_of_mem_entries (h : p ∈ entries b) : Reaches pool b p := by
  rcases List.mem_append.mp h with h | h
  · split at h
    · cases h
    · next hnonempty =>
      cases List.mem_singleton.mp h
      exact .start (by simpa using hnonempty)
  · obtain ⟨handler, hmem, rfl⟩ := List.mem_map.mp h
    exact .handler hmem

theorem Explored.start :
    Explored pool b (Array.replicate b.code.size none) 0 (entries b : List Point) := by
  have hunknown (p : Point) : ¬ Known (Array.replicate b.code.size none) p := by
    unfold Known
    rw [Array.getElem?_replicate]
    split <;> simp
  refine ⟨Array.size_replicate, ?_, ?_, ?_, .inl rfl, le_refl 0⟩
  · rintro p (h | h)
    · exact (hunknown p h).elim
    · exact reaches_of_mem_entries (Multiset.mem_coe.mp h)
  · exact fun p hp => .inr (Multiset.mem_coe.mpr hp)
  · exact fun p hp => (hunknown p hp).elim

/-- A point that was met already can be dropped. -/
theorem Explored.skip (h : Explored pool b depths peak (p ::ₘ pending)) (hp : Known depths p) :
    Explored pool b depths peak pending := by
  have hdrop {q : Point} (hq : Known depths q ∨ q ∈ p ::ₘ pending) :
      Known depths q ∨ q ∈ pending := by
    rcases hq with hq | hq
    · exact .inl hq
    · rcases Multiset.mem_cons.mp hq with rfl | hq
      · exact .inl hp
      · exact .inr hq
  refine ⟨h.size, ?_, fun q hq => hdrop (h.entered q hq), ?_, h.seen, h.nonneg⟩
  · rintro q (hq | hq)
    · exact h.reached q (.inl hq)
    · exact h.reached q (.inr (Multiset.mem_cons_of_mem hq))
  · intro q hq
    obtain ⟨f, hf, hpeak, hsuccessors⟩ := h.followed q hq
    exact ⟨f, hf, hpeak, fun q' hq' => hdrop (hsuccessors q' hq')⟩

theorem known_setIfInBounds (hnew : depths[p.offset]? = some none) :
    Known (depths.setIfInBounds p.offset (some p.depth)) q ↔ q = p ∨ Known depths q := by
  obtain ⟨hlt, hnone⟩ := Array.getElem?_eq_some_iff.mp hnew
  unfold Known
  rw [Array.getElem?_setIfInBounds]
  by_cases hoffset : p.offset = q.offset
  · rw [if_pos hoffset, if_pos hlt, ← hoffset, hnew]
    constructor
    · intro h
      cases p
      cases q
      simp only [Option.some.injEq] at h hoffset
      exact .inl (by rw [h, hoffset])
    · rintro (rfl | h)
      · rfl
      · cases h
  · rw [if_neg hoffset]
    constructor
    · exact .inr
    · rintro (rfl | h)
      · exact (hoffset rfl).elim
      · exact h

/-- A new point is met, and its successors become pending. -/
theorem Explored.expand {f : Flow} (h : Explored pool b depths peak (p ::ₘ pending))
    (hnew : depths[p.offset]? = some none) (hf : flow pool b.code p = .ok f) :
    Explored pool b (depths.setIfInBounds p.offset (some p.depth)) (max peak f.peak)
      (f.successors + pending) := by
  have hp : Reaches pool b p := h.reached p (.inr (Multiset.mem_cons_self p pending))
  have hkeep {q : Point} (hq : Known depths q ∨ q ∈ p ::ₘ pending) :
      Known (depths.setIfInBounds p.offset (some p.depth)) q ∨ q ∈ ↑f.successors + pending := by
    rw [known_setIfInBounds hnew]
    rcases hq with hq | hq
    · exact .inl (.inr hq)
    · rcases Multiset.mem_cons.mp hq with rfl | hq
      · exact .inl (.inl rfl)
      · exact .inr (Multiset.mem_add.mpr (.inr hq))
  refine ⟨Array.size_setIfInBounds.trans h.size, ?_, fun q hq => hkeep (h.entered q hq), ?_, ?_,
    le_max_of_le_left h.nonneg⟩
  · rintro q (hq | hq)
    · rcases (known_setIfInBounds hnew).mp hq with rfl | hq
      · exact hp
      · exact h.reached q (.inl hq)
    · rcases Multiset.mem_add.mp hq with hq | hq
      · exact reaches_of_mem_successors hp hf (Multiset.mem_coe.mp hq)
      · exact h.reached q (.inr (Multiset.mem_cons_of_mem hq))
  · intro q hq
    rcases (known_setIfInBounds hnew).mp hq with rfl | hq
    · refine ⟨f, hf, le_max_right _ _, fun q hq => .inr ?_⟩
      exact Multiset.mem_add.mpr (.inl (Multiset.mem_coe.mpr hq))
    · obtain ⟨g, hg, hpeak, hsuccessors⟩ := h.followed q hq
      exact ⟨g, hg, le_max_of_le_left hpeak, fun q' hq' => hkeep (hsuccessors q' hq')⟩
  · rcases max_choice peak f.peak with hmax | hmax
    · rw [hmax]
      exact h.seen
    · rw [hmax]
      exact .inr (sees_peak hp hf)

/-- When nothing is pending, all points that are reached were met. -/
theorem Explored.known_of_reaches (h : Explored pool b depths peak 0) (hp : Reaches pool b p) :
    Known depths p := by
  have hmet {q : Point} (hq : Known depths q ∨ q ∈ (0 : Multiset Point)) : Known depths q :=
    hq.resolve_right (Multiset.notMem_zero q)
  induction hp with
  | start nonempty =>
      refine hmet (h.entered _ (List.mem_append_left _ ?_))
      rw [nonempty]
      exact List.mem_singleton_self _
  | handler mem =>
      exact hmet (h.entered _ (List.mem_append_right _ (List.mem_map_of_mem mem)))
  | falls _ decoded changes passes inside ih =>
      obtain ⟨f, hf, -, hsuccessors⟩ := h.followed _ ih
      obtain ⟨i, amount, targets, hi, hamount, -, -, rfl⟩ := flow_eq_ok.mp hf
      cases decoded.symm.trans hi
      cases changes.symm.trans hamount
      exact hmet (hsuccessors _ (mem_successors.mpr (.inr ⟨passes, inside, rfl⟩)))
  | jumps _ decoded changes known mem ih =>
      obtain ⟨f, hf, -, hsuccessors⟩ := h.followed _ ih
      obtain ⟨i, amount, targets, hi, hamount, htargets, -, rfl⟩ := flow_eq_ok.mp hf
      cases decoded.symm.trans hi
      cases changes.symm.trans hamount
      cases known.symm.trans htargets
      exact hmet (hsuccessors _ (mem_successors.mpr (.inl ⟨_, mem, rfl⟩)))

theorem Explored.consistent (h : Explored pool b depths peak 0) : Consistent pool b where
  inside := by
    intro p hp
    obtain ⟨hlt, -⟩ := Array.getElem?_eq_some_iff.mp (h.known_of_reaches hp)
    exact h.size ▸ hlt
  defined := by
    intro p hp
    obtain ⟨f, hf, -⟩ := h.followed p (h.known_of_reaches hp)
    obtain ⟨i, amount, targets, hi, hamount, htargets, hnonneg, -⟩ := flow_eq_ok.mp hf
    exact ⟨i, amount, targets, hi, hamount, htargets, hnonneg⟩
  unique := by
    intro p q hp hq hoffset
    have hdepth := (h.known_of_reaches hp).symm.trans
      (hoffset ▸ h.known_of_reaches hq : depths[p.offset]? = some (some q.depth))
    simpa using hdepth

/-- No depth that is seen exceeds the peak. -/
theorem Explored.le_peak (h : Explored pool b depths peak 0) {d : Int} (hd : Sees pool b d) :
    d ≤ peak := by
  have hbounds {p : Point} {i : Instruction} {amount : Int} (hp : Reaches pool b p)
      (hi : Instruction.decode b.code p.offset = .ok i)
      (hamount : change pool b.code i = .ok amount) :
      p.depth + amount ≤ peak ∧ p.depth + amount + returnSlots i.opcode ≤ peak := by
    obtain ⟨f, hf, hpeak, -⟩ := h.followed p (h.known_of_reaches hp)
    obtain ⟨i', amount', targets, hi', hamount', -, -, rfl⟩ := flow_eq_ok.mp hf
    cases hi.symm.trans hi'
    cases hamount.symm.trans hamount'
    exact ⟨le_trans (le_max_of_le_right (le_max_left _ _)) hpeak,
      le_trans (le_max_of_le_right (le_max_right _ _)) hpeak⟩
  cases hd with
  | before reached =>
      obtain ⟨f, hf, hpeak, -⟩ := h.followed _ (h.known_of_reaches reached)
      obtain ⟨i, amount, targets, -, -, -, -, rfl⟩ := flow_eq_ok.mp hf
      exact le_trans (le_max_left _ _) hpeak
  | after reached decoded changes => exact (hbounds reached decoded changes).1
  | along reached decoded changes _ _ => exact (hbounds reached decoded changes).2

/-- The greatest depth that is seen; where there is no code, none is and it is zero. -/
def IsPeak (pool : Pool) (b : Body) (peak : Int) : Prop :=
  IsGreatest {d | d = 0 ∨ Sees pool b d} peak

/-- What the result of a search says of the code. -/
def Verdict (pool : Pool) (b : Body) : Option Int → Prop
  | some peak => Consistent pool b ∧ IsPeak pool b peak
  | none => ¬ Consistent pool b

/-- **Every search ends alike**: with the greatest depth if the code is consistent, and else in
failure. -/
theorem Search.verdict {result : Option Int}
    (h : Search pool b.code depths peak pending result)
    (hinv : Explored pool b depths peak pending) : Verdict pool b result := by
  have hpending {depths : Depths} {peak : Int} {p : Point} {rest : Multiset Point}
      (hinv : Explored pool b depths peak (p ::ₘ rest)) : Reaches pool b p :=
    hinv.reached p (.inr (Multiset.mem_cons_self p rest))
  induction h with
  | done =>
      refine ⟨hinv.consistent, hinv.seen, ?_⟩
      rintro d (rfl | hd)
      · exact hinv.nonneg
      · exact hinv.le_peak hd
  | skip known _ ih => exact ih (hinv.skip known)
  | expand new flows _ ih => exact ih (hinv.expand new flows)
  | outside outside =>
      intro hconsistent
      have hinside := hconsistent.inside _ (hpending hinv)
      rw [Array.getElem?_eq_none_iff, hinv.size] at outside
      omega
  | conflict known differs =>
      intro hconsistent
      exact differs (hconsistent.unique _ _ (hinv.reached _ (.inl known)) (hpending hinv) rfl)
  | fault new flows =>
      intro hconsistent
      obtain ⟨i, amount, targets, hi, hamount, htargets, hnonneg⟩ :=
        hconsistent.defined _ (hpending hinv)
      have hf := flow_eq_ok.mpr ⟨i, amount, targets, hi, hamount, htargets, hnonneg, rfl⟩
      rw [flows] at hf
      cases hf

/-! ## §4 The analysis is such a search -/

theorem search_of_unmet {code : Array UInt8} {points rest : List Point} {result : Option Int}
    (h : unmet depths points = .ok rest) (hrest : Search pool code depths peak rest result) :
    Search pool code depths peak points result := by
  fun_induction unmet depths points with
  | case1 =>
      cases h
      exact hrest
  | case2 => cases h
  | case3 =>
      cases h
      exact hrest
  | case4 p points hp ih => exact .skip hp (ih h)
  | case5 => cases h

theorem search_of_unmet_error {code : Array UInt8} {points : List Point} {e : FormatError}
    (h : unmet depths points = .error e) : Search pool code depths peak points none := by
  fun_induction unmet depths points with
  | case1 => cases h
  | case2 p points hp =>
      rw [← Multiset.cons_coe]
      exact .outside hp
  | case3 => cases h
  | case4 p points hp ih => exact .skip hp (ih h)
  | case5 p points depth hp hdiffers =>
      have hknown : Known depths ⟨p.offset, depth⟩ := hp
      rw [← Multiset.cons_coe]
      exact .conflict hknown hdiffers

/-- The analysis takes the point that was added last. -/
theorem search_run (pool : Pool) (code : Array UInt8) (depths : Depths) (peak : Int)
    (points : List Point) :
    Search pool code depths peak points (run pool code depths peak points).toOption := by
  fun_induction run pool code depths peak points with
  | case1 depths peak points e h => exact search_of_unmet_error h
  | case2 depths peak points h => exact search_of_unmet h .done
  | case3 depths peak points p rest h e hf =>
      refine search_of_unmet h ?_
      rw [← Multiset.cons_coe]
      exact .fault (unknown_of_unmet h) hf
  | case4 depths peak points p rest h f hf ih =>
      refine search_of_unmet h ?_
      rw [← Multiset.cons_coe]
      refine .expand (unknown_of_unmet h) hf ?_
      rwa [← Multiset.coe_add, Multiset.coe_eq_coe.mpr (f.successors.reverse_perm)] at ih

theorem Verdict.unique {result result' : Option Int} (h : Verdict pool b result)
    (h' : Verdict pool b result') : result = result' := by
  cases result with
  | none =>
      cases result' with
      | none => rfl
      | some peak => exact (h h'.1).elim
  | some peak =>
      cases result' with
      | none => exact (h' h.1).elim
      | some peak' => exact congrArg some (h.2.unique h'.2)

end Search

/-- What the field for the greatest depth can hold of it. -/
def cut (peak : Int) : UInt16 := UInt16.ofNat peak.toNat

/-- The searches of some code, from the points where control starts. -/
def Searched (pool : Pool) (b : Body) (result : Option Int) : Prop :=
  Search pool b.code (Array.replicate b.code.size none) 0 (entries b : List Point) result

theorem Searched.verdict {pool : Pool} {b : Body} {result : Option Int}
    (h : Searched pool b result) : Verdict pool b result :=
  Search.verdict h .start

/-- The analysis is one of the searches. -/
theorem exists_searched (pool : Pool) (b : Body) :
    ∃ result, Searched pool b result ∧ (greatest pool b).toOption = result.map cut := by
  have hsearch := search_run pool b.code (Array.replicate b.code.size none) 0 (entries b).reverse
  rw [Multiset.coe_eq_coe.mpr (entries b).reverse_perm] at hsearch
  refine ⟨_, hsearch, ?_⟩
  unfold greatest
  cases run pool b.code (Array.replicate b.code.size none) 0 (entries b).reverse with
  | error e => rfl
  | ok peak => rfl

end Reshape.StackDepth
