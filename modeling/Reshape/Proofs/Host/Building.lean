import Reshape.Proofs.Code.Edit
import Reshape.Proofs.Host.Instructions

/-!
# Building code call by call

A fragment is built by calls that each append one instruction, by branches that are patched once
their targets are known, and by filling up.  What was appended stays, but for the operands of the
branches, while the fragment and the pool go on growing.  So the code decodes into the instructions
that were asked for, in the order of the calls, and each of them says what it was asked to say.
-/

namespace Reshape.Building

open Host

/-! ## §1 What can be asked for -/

inductive FieldOperation
  | getField | putField | getStatic | putStatic
  deriving DecidableEq, Repr

def FieldOperation.opcode : FieldOperation → Opcode
  | getField => .getField
  | putField => .putField
  | getStatic => .getStatic
  | putStatic => .putStatic

inductive MethodOperation
  | invokeStatic | invokeSpecial
  deriving DecidableEq, Repr

def MethodOperation.opcode : MethodOperation → Opcode
  | invokeStatic => .invokeStatic
  | invokeSpecial => .invokeSpecial

/-- One instruction to be appended, a branch excepted. -/
inductive Request
  | op (opcode : Opcode) (sized : opcode.size? = some 1)
  | aload (index : UInt16)
  | pushInt (value : Int32)
  | pushZero (p : Primitive)
  | onField (operation : FieldOperation) (m : MemberRef)
  | onMethod (operation : MethodOperation) (m : MemberRef)
  | anewarray (element : String)
  deriving DecidableEq, Repr

namespace Request

def append : Request → Fragment → Interning Fragment
  | op opcode _, f => pure (f.op opcode)
  | aload index, f => pure (f.aload index)
  | pushInt value, f => f.pushInt value
  | pushZero p, f => pure (f.pushZero p)
  | onField operation m, f => f.onField operation.opcode m
  | onMethod operation m, f => f.onMethod operation.opcode m
  | anewarray element, f => f.anewarray element

/-- The instruction is what was asked for, read with the given pool. -/
def Shows (pool : Pool) (code : Array UInt8) (i : Instruction) : Request → Prop
  | op opcode _ => i.opcode = opcode
  | aload index => local? code i = some index
  | pushInt value => integer? pool code i = some value
  | pushZero p => pushed? i.opcode = some (.number (.initialOf (.primitive p)))
  | onField operation m => i.opcode = operation.opcode ∧ member? pool code i = some m
  | onMethod operation m => i.opcode = operation.opcode ∧ member? pool code i = some m
  | anewarray element => i.opcode = .anewArray ∧ class? pool code i = some element

end Request

/-- A request that is granted lets the pool grow and the fragment get one more instruction, which
is the one that was asked for. -/
theorem Request.adds {r : Request} {f g : Fragment} {p q pool : Pool} (hp : p.Addressable)
    (hpool : Pool.Growth q pool) (h : r.append f p = .ok g q) :
    Pool.Growth p q ∧ Adds f g 4 fun code i => r.Shows pool code i := by
  cases r with
  | op opcode sized =>
      obtain ⟨rfl, rfl⟩ := state_pure_eq_ok.mp h
      exact ⟨.refl, (Adds.op sized fun _ _ => rfl).mono (by decide)⟩
  | aload index =>
      obtain ⟨rfl, rfl⟩ := state_pure_eq_ok.mp h
      exact ⟨.refl, .aload index⟩
  | pushInt value =>
      exact ⟨(f.grows_pushInt value).growth h, (Adds.pushInt hp hpool h).mono (by decide)⟩
  | pushZero t =>
      obtain ⟨rfl, rfl⟩ := state_pure_eq_ok.mp h
      refine ⟨.refl, Adds.mono (m := 1) ?_ (by decide)⟩
      cases t <;> exact .op rfl fun _ _ => rfl
  | onField operation m =>
      refine ⟨(f.grows_onField operation.opcode m).growth h, ?_⟩
      obtain ⟨index, p₁, hindex, h⟩ := state_bind_eq_ok.mp h
      obtain ⟨rfl, rfl⟩ := state_pure_eq_ok.mp h
      have hm := hpool.memberRef (Pool.memberRef_of_addFieldRef hp hindex)
      refine .mono (.op16 (by cases operation <;> rfl) fun code offset hoperand => ⟨rfl, ?_⟩)
        (by decide)
      simp [member?, hoperand, hm, Except.toOption]
  | onMethod operation m =>
      refine ⟨(f.grows_onMethod operation.opcode m).growth h, ?_⟩
      obtain ⟨index, p₁, hindex, h⟩ := state_bind_eq_ok.mp h
      obtain ⟨rfl, rfl⟩ := state_pure_eq_ok.mp h
      have hm := hpool.memberRef (Pool.memberRef_of_addMethodRef hp hindex)
      refine .mono (.op16 (by cases operation <;> rfl) fun code offset hoperand => ⟨rfl, ?_⟩)
        (by decide)
      simp [member?, hoperand, hm, Except.toOption]
  | anewarray element =>
      refine ⟨(f.grows_anewarray element).growth h, ?_⟩
      obtain ⟨index, p₁, hindex, h⟩ := state_bind_eq_ok.mp h
      obtain ⟨rfl, rfl⟩ := state_pure_eq_ok.mp h
      have hname := hpool.className (Pool.className_of_addClass hp hindex)
      refine .mono (.op16 rfl fun code offset hoperand => ⟨rfl, ?_⟩) (by decide)
      simp [class?, hoperand, hname, Except.toOption]

/-! ## §2 Calls -/

/-- A call on a fragment in the making. -/
inductive Call
  | append (request : Request)
  | branch (opcode : Opcode) (short : opcode.isShortBranch = true)
  | patch (position target : Nat)
  | padTo (alignment : Nat)
  deriving DecidableEq, Repr

/-- A fragment in the making, the pool of its class and where its branches are, the last one
first. -/
structure State where
  fragment : Fragment
  pool : Pool
  branches : List Nat
  deriving DecidableEq, Repr

def State.start (pool : Pool) : State := ⟨.empty, pool, []⟩

/-- The state after a call, unless it fails.  Only what `branch` has given can be patched. -/
def Call.run (s : State) : Call → Option State
  | append request =>
    match request.append s.fragment s.pool with
    | .ok fragment pool => some { s with fragment, pool }
    | .error _ _ => none
  | branch opcode _ =>
    some { s with fragment := s.fragment.branch opcode, branches := s.fragment.size :: s.branches }
  | patch position target =>
    if position ∈ s.branches then
      (s.fragment.patch position target).toOption.map fun fragment => { s with fragment }
    else none
  | padTo alignment =>
    (s.fragment.padTo alignment).toOption.map fun fragment => { s with fragment }

/-- The size that no array reaches: half of the address space. -/
def allocationLimit : Nat := 0x8000000000000000

/-- The calls one after the other.  A call for which the code would have to grow beyond all arrays
does not return. -/
def State.run (s : State) : List Call → Option State
  | [] => some s
  | c :: calls => (c.run s).bind fun t =>
    if t.fragment.size < allocationLimit then t.run calls else none

/-- The target that the call gives to the branch at a position. -/
def Call.target? (position : Nat) : Call → Option Nat
  | patch at' target => if at' = position then some target else none
  | _ => none

theorem Call.target?_patch (position at' target : Nat) :
    (Call.patch at' target).target? position = if at' = position then some target else none := rfl

/-- The target that the branch at a position has in the end. -/
def patchedTo (position : Nat) : List Call → Option Nat
  | [] => none
  | c :: calls => (patchedTo position calls).or (c.target? position)

/-- The instructions from an offset on are those of the calls, each in its place. -/
inductive Listed (pool : Pool) (code : Array UInt8) (target : Nat → Option Nat) :
    Nat → List Call → List Instruction → Prop
  | nil {offset : Nat} : Listed pool code target offset [] []
  | append {offset : Nat} {request : Request} {calls : List Call} {i : Instruction}
      {is : List Instruction} (start : i.offset = offset) (shows : request.Shows pool code i)
      (behind : Listed pool code target i.next calls is) :
      Listed pool code target offset (.append request :: calls) (i :: is)
  | branch {offset t : Nat} {opcode : Opcode} {short : opcode.isShortBranch = true}
      {calls : List Call} {i : Instruction} {is : List Instruction} (start : i.offset = offset)
      (shows : i.opcode = opcode) (patched : target offset = some t)
      (leads : i.jumpTargets code = .ok [t]) (behind : Listed pool code target i.next calls is) :
      Listed pool code target offset (.branch opcode short :: calls) (i :: is)
  | patch {offset position t : Nat} {calls : List Call} {is : List Instruction}
      (behind : Listed pool code target offset calls is) :
      Listed pool code target offset (.patch position t :: calls) is
  /-- As many operations that do nothing as it takes to the next multiple. -/
  | padTo {offset alignment n : Nat} {calls : List Call} {is : List Instruction}
      (least : n < alignment) (aligned : (offset + n) % alignment = 0)
      (behind : Listed pool code target (offset + n) calls is) :
      Listed pool code target offset (.padTo alignment :: calls)
        (Instruction.row offset (List.replicate n .nop) ++ is)

/-! ## §3 One call -/

/-- What a call does that succeeds. -/
inductive Took (s : State) : Call → State → Prop
  | append {request : Request} {fragment : Fragment} {pool : Pool}
      (granted : request.append s.fragment s.pool = .ok fragment pool) :
      Took s (.append request) { s with fragment, pool }
  | branch {opcode : Opcode} {short : opcode.isShortBranch = true} :
      Took s (.branch opcode short)
        { s with fragment := s.fragment.branch opcode, branches := s.fragment.size :: s.branches }
  | patch {position target : Nat} {fragment : Fragment} (known : position ∈ s.branches)
      (patched : s.fragment.patch position target = .ok fragment) :
      Took s (.patch position target) { s with fragment }
  | padTo {alignment : Nat} (pos : 0 < alignment) :
      Took s (.padTo alignment) { s with
        fragment := s.fragment.fillTo (Fragment.alignedSize s.fragment.size alignment) }

theorem took_of_run {s t : State} {c : Call} (h : c.run s = some t) : Took s c t := by
  cases c with
  | append request =>
      unfold Call.run at h
      dsimp only at h
      split at h
      · next granted =>
        cases h
        exact .append granted
      · cases h
  | branch opcode short =>
      cases h
      exact .branch
  | patch position target =>
      unfold Call.run at h
      dsimp only at h
      split at h
      · next known =>
        obtain ⟨fragment, hpatch, rfl⟩ := Option.map_eq_some_iff.mp h
        exact .patch known (eq_ok_of_toOption hpatch)
      · cases h
  | padTo alignment =>
      obtain ⟨fragment, hpad, rfl⟩ := Option.map_eq_some_iff.mp h
      have hpad := eq_ok_of_toOption hpad
      unfold Fragment.padTo at hpad
      split at hpad
      · cases hpad
      · next hpos =>
        cases hpad
        exact .padTo (Nat.pos_of_ne_zero hpos)

/-- The branches lie in the fragment, none within another. -/
structure State.Sound (s : State) : Prop where
  addressable : s.pool.Addressable
  fits : ∀ p ∈ s.branches, p + 3 ≤ s.fragment.size
  apart : s.branches.Pairwise fun p q => q + 3 ≤ p

/-- A byte that belongs to no operand of a branch. -/
def State.Fixed (s : State) (k : Nat) : Prop :=
  k < s.fragment.size ∧ ∀ p ∈ s.branches, k ≤ p ∨ p + 3 ≤ k

/-- What comes later keeps all fixed bytes. -/
structure Continues (s t : State) : Prop where
  growth : Pool.Growth s.pool t.pool
  size_le : s.fragment.size ≤ t.fragment.size
  branches : ∀ p ∈ s.branches, p ∈ t.branches
  fixed : ∀ k, s.Fixed k → t.Fixed k ∧ t.fragment.code[k]? = s.fragment.code[k]?

theorem Continues.refl (s : State) : Continues s s :=
  ⟨.refl, Nat.le_refl _, fun _ h => h, fun _ h => ⟨h, rfl⟩⟩

theorem Continues.trans {s t u : State} (h : Continues s t) (h' : Continues t u) :
    Continues s u := by
  refine ⟨h.growth.trans h'.growth, Nat.le_trans h.size_le h'.size_le,
    fun p hp => h'.branches p (h.branches p hp), fun k hk => ?_⟩
  obtain ⟨hfixed, hbyte⟩ := h.fixed k hk
  obtain ⟨hfixed', hbyte'⟩ := h'.fixed k hfixed
  exact ⟨hfixed', hbyte'.trans hbyte⟩

section Frame

variable {s t : State} {c : Call}

/-- What is put behind the fragment keeps all that is there. -/
theorem Continues.of_append {bytes : Bytes} (growth : Pool.Growth s.pool t.pool)
    (hcode : t.fragment.code.toList = s.fragment.code.toList ++ bytes)
    (hold : ∀ p ∈ s.branches, p ∈ t.branches)
    (hnew : ∀ p ∈ t.branches, p ∈ s.branches ∨ s.fragment.size ≤ p) : Continues s t := by
  have hle : s.fragment.size ≤ t.fragment.size := by
    rw [Fragment.size_of_append hcode]
    exact Nat.le_add_right _ _
  refine ⟨growth, hle, hold, fun k hk => ⟨⟨Nat.lt_of_lt_of_le hk.1 hle, fun p hp => ?_⟩, ?_⟩⟩
  · rcases hnew p hp with hp | hp
    · exact hk.2 p hp
    · exact .inl (Nat.le_trans (Nat.le_of_lt hk.1) hp)
  · exact Fragment.getElem?_of_append hcode hk.1

/-- **One call keeps what is fixed.** -/
theorem Took.continues (h : Took s c t) (hs : s.Sound) : Continues s t := by
  cases h with
  | append granted =>
      obtain ⟨growth, bytes, hcode, -⟩ := Request.adds hs.addressable .refl granted
      exact .of_append growth hcode (fun _ hp => hp) fun _ hp => .inl hp
  | branch =>
      refine .of_append .refl (Fragment.toList_op16 _ s.fragment 0)
        (fun _ hp => List.mem_cons_of_mem _ hp) fun p hp => ?_
      rcases List.mem_cons.mp hp with rfl | hp
      · exact .inr (Nat.le_refl _)
      · exact .inl hp
  | patch known patched =>
      have hsize := Fragment.size_of_patch patched
      refine ⟨.refl, Nat.le_of_eq hsize.symm, fun _ hp => hp, fun k hk => ⟨⟨?_, hk.2⟩, ?_⟩⟩
      · rw [hsize]
        exact hk.1
      · exact Fragment.patch_outside patched (hk.2 _ known)
  | padTo pos =>
      exact .of_append .refl (s.fragment.toList_fillTo _) (fun _ hp => hp) fun _ hp => .inl hp

theorem Took.sound (h : Took s c t) (hs : s.Sound) : t.Sound := by
  have hcontinues := h.continues hs
  have haddressable := hcontinues.growth.addressable hs.addressable
  have hle := hcontinues.size_le
  have hfits (p : Nat) (hp : p ∈ s.branches) : p + 3 ≤ t.fragment.size :=
    Nat.le_trans (hs.fits p hp) hle
  cases h with
  | append granted => exact ⟨haddressable, hfits, hs.apart⟩
  | @branch opcode short =>
      refine ⟨haddressable, fun p hp => ?_, List.pairwise_cons.mpr ⟨hs.fits, hs.apart⟩⟩
      rcases List.mem_cons.mp hp with rfl | hp
      · exact Nat.le_of_eq (Fragment.size_branch opcode s.fragment).symm
      · exact hfits p hp
  | patch known patched => exact ⟨haddressable, hfits, hs.apart⟩
  | padTo pos => exact ⟨haddressable, hfits, hs.apart⟩

/-- Two branches lie apart. -/
theorem State.Sound.apart_of_ne (hs : s.Sound) {p q : Nat} (hp : p ∈ s.branches)
    (hq : q ∈ s.branches) (hne : p ≠ q) : p + 3 ≤ q ∨ q + 3 ≤ p := by
  have hapart := hs.apart
  generalize s.branches = branches at hp hq hapart
  induction hapart with
  | nil => cases hp
  | cons hfirst _ ih =>
      rcases List.mem_cons.mp hp with heq | hp'
      · rcases List.mem_cons.mp hq with heq' | hq'
        · exact absurd (heq.trans heq'.symm) hne
        · exact .inr (heq ▸ hfirst q hq')
      · rcases List.mem_cons.mp hq with heq' | hq'
        · exact .inl (heq' ▸ hfirst p hp')
        · exact ih hp' hq'

/-- The operand of a branch stays unless the branch is patched. -/
theorem Took.operand_kept (h : Took s c t) (hs : s.Sound) {p k : Nat} (hp : p ∈ s.branches)
    (hother : c.target? p = none) (hlow : p < k) (hhigh : k < p + 3) :
    t.fragment.code[k]? = s.fragment.code[k]? := by
  have hk : k < s.fragment.size := Nat.lt_of_lt_of_le hhigh (hs.fits p hp)
  cases h with
  | append granted =>
      obtain ⟨-, bytes, hcode, -⟩ := Request.adds hs.addressable .refl granted
      exact Fragment.getElem?_of_append hcode hk
  | branch => exact Fragment.getElem?_of_append (Fragment.toList_op16 _ s.fragment 0) hk
  | @patch position target fragment known patched =>
      have hne : position ≠ p := by
        rintro rfl
        rw [Call.target?_patch, if_pos rfl] at hother
        cases hother
      have hapart := hs.apart_of_ne known hp hne
      exact Fragment.patch_outside patched (by omega)
  | padTo pos => exact Fragment.getElem?_of_append (s.fragment.toList_fillTo _) hk

end Frame

/-! ## §4 Branches -/

/-- The branch at a position holds the distance to a target. -/
structure State.Leads (s : State) (position target : Nat) : Prop where
  near : JumpWidth.short.Holds (Fragment.distance position target)
  stored : ∀ k < 2, s.fragment.code[position + 1 + k]? =
    (JumpWidth.short.store (Fragment.distance position target))[k]?

section Branches

variable {s t : State} {c : Call} {position target : Nat}

theorem Took.leads (h : Took s c t) (htarget : c.target? position = some target) :
    t.Leads position target := by
  cases h with
  | append granted => cases htarget
  | branch => cases htarget
  | @patch position' target' fragment known patched =>
      rw [Call.target?_patch] at htarget
      split at htarget
      · next heq =>
        cases htarget
        subst heq
        exact ⟨(Fragment.patch_eq_ok.mp patched).1, fun _ => Fragment.patch_inside patched⟩
      · cases htarget
  | padTo pos => cases htarget

theorem Took.leads_kept (h : Took s c t) (hs : s.Sound) (hposition : position ∈ s.branches)
    (hother : c.target? position = none) (hleads : s.Leads position target) :
    t.Leads position target := by
  refine ⟨hleads.near, fun k hk => ?_⟩
  rw [h.operand_kept hs hposition hother (by omega) (by omega), hleads.stored k hk]

end Branches

/-! ## §5 All calls -/

section Run

variable {s last : State} {c : Call} {calls : List Call}

theorem run_cons (h : s.run (c :: calls) = some last) :
    ∃ t, Took s c t ∧ t.fragment.size < allocationLimit ∧ t.run calls = some last := by
  obtain ⟨t, hstep, hrest⟩ := Option.bind_eq_some_iff.mp h
  split at hrest
  · next hsize => exact ⟨t, took_of_run hstep, hsize, hrest⟩
  · cases hrest

theorem size_of_run (hs : s.fragment.size < allocationLimit) (h : s.run calls = some last) :
    last.fragment.size < allocationLimit := by
  induction calls generalizing s with
  | nil =>
      cases h
      exact hs
  | cons c calls ih =>
      obtain ⟨t, -, hsize, hrest⟩ := run_cons h
      exact ih hsize hrest

/-- **All calls keep what is fixed.** -/
theorem continues_of_run (hs : s.Sound) (h : s.run calls = some last) : Continues s last := by
  induction calls generalizing s with
  | nil =>
      cases h
      exact .refl _
  | cons c calls ih =>
      obtain ⟨t, hstep, -, hrest⟩ := run_cons h
      exact (hstep.continues hs).trans (ih (hstep.sound hs) hrest)

/-- **A branch leads where it was patched to last.** -/
theorem leads_of_run (hs : s.Sound) {position : Nat} (hposition : position ∈ s.branches)
    (h : s.run calls = some last) :
    (∀ target, patchedTo position calls = some target → last.Leads position target) ∧
      (patchedTo position calls = none →
        ∀ target, s.Leads position target → last.Leads position target) := by
  induction calls generalizing s with
  | nil =>
      cases h
      exact ⟨nofun, fun _ _ hleads => hleads⟩
  | cons c calls ih =>
      obtain ⟨t, hstep, -, hrest⟩ := run_cons h
      obtain ⟨hlater, hnever⟩ :=
        ih (hstep.sound hs) ((hstep.continues hs).branches position hposition) hrest
      unfold patchedTo
      cases hpatched : patchedTo position calls with
      | some target => exact ⟨fun _ heq => hlater _ (hpatched.trans heq), nofun⟩
      | none =>
          rw [Option.none_or]
          constructor
          · intro target htarget
            exact hnever hpatched target (hstep.leads htarget)
          · intro hother target hleads
            exact hnever hpatched target (hstep.leads_kept hs hposition hother hleads)

/-- What one call has appended is there in the end. -/
theorem holds_of_continues {t : State} {bytes : Bytes} (hs : s.Sound)
    (hcode : t.fragment.code.toList = s.fragment.code.toList ++ bytes)
    (hbranches : t.branches = s.branches) (h : Continues t last) :
    Code.Holds last.fragment.code s.fragment.size bytes := by
  intro k hk
  have hfixed : t.Fixed (s.fragment.size + k) := by
    refine ⟨?_, fun p hp => ?_⟩
    · rw [Fragment.size_of_append hcode]
      exact Nat.add_lt_add_left hk _
    · have hfits := hs.fits p (hbranches ▸ hp)
      exact .inr (by omega)
  rw [(h.fixed _ hfixed).2, ← Array.getElem?_toList, hcode, List.getElem?_append_right]
  · rw [Array.length_toList]
    exact congrArg (bytes[·]?) (Nat.add_sub_cancel_left _ _)
  · exact Nat.le_add_right _ _

/-- The opcode of a branch is there in the end. -/
theorem opcode_of_continues {opcode : Opcode} (hs : s.Sound)
    (h : Continues { s with
      fragment := s.fragment.branch opcode, branches := s.fragment.size :: s.branches } last) :
    last.fragment.code[s.fragment.size]? = some opcode.byte := by
  have hcode : (s.fragment.branch opcode).code.toList = _ :=
    Fragment.toList_op16 opcode s.fragment 0
  have hfixed := (h.fixed s.fragment.size ⟨?_, fun p hp => ?_⟩).2
  · have hend : s.fragment.size = s.fragment.code.toList.length := Array.length_toList.symm
    rw [hfixed, ← Array.getElem?_toList, hcode, hend, List.getElem?_append_right (Nat.le_refl _),
      Nat.sub_self, List.getElem?_cons_zero]
  · show s.fragment.size < (s.fragment.branch opcode).size
    rw [Fragment.size_branch]
    omega
  · rcases List.mem_cons.mp hp with rfl | hp
    · exact .inl (Nat.le_refl _)
    · exact .inr (hs.fits p hp)

/-- A branch is an instruction of the code in the end. -/
theorem decode_of_continues {opcode : Opcode} (short : opcode.isShortBranch = true) (hs : s.Sound)
    (h : Continues { s with
      fragment := s.fragment.branch opcode, branches := s.fragment.size :: s.branches } last) :
    Instruction.decode last.fragment.code s.fragment.size = .ok ⟨s.fragment.size, opcode, 3⟩ := by
  have hfits : s.fragment.size + 3 ≤ last.fragment.size := by
    rw [← Fragment.size_branch opcode]
    exact h.size_le
  refine Instruction.decode_eq_ok.mpr ⟨_, opcode_of_continues hs h, Opcode.ofByte?_byte opcode,
    ?_, rfl, hfits⟩
  simp only [Instruction.announcedLength, Opcode.size?_of_isShortBranch short, pure, Except.pure]

/-- A branch that holds the distance to a target in the code leads there. -/
theorem jumpTargets_of_leads {s : State} {opcode : Opcode} {position target : Nat}
    (short : opcode.isShortBranch = true) (hleads : s.Leads position target)
    (hsize : s.fragment.size < allocationLimit) (hposition : position < s.fragment.size)
    (htarget : target < s.fragment.size) :
    Instruction.jumpTargets s.fragment.code ⟨position, opcode, 3⟩ = .ok [target] := by
  have hoperands := Instruction.jumpOperands_eq_ok.mpr
    (.short short : Instruction.Jumps s.fragment.code ⟨position, opcode, 3⟩ _)
  have hrelative : JumpOperand.relative s.fragment.code ⟨position + 1, .short⟩ =
      .ok (Fragment.distance position target) :=
    JumpOperand.relative_of_store hleads.near hleads.stored
  have hdistance : Fragment.distance position target = target - position :=
    Fragment.distance_eq (Nat.lt_trans hposition hsize) (Nat.lt_trans htarget hsize)
  refine except_bind_eq_ok.mpr ⟨_, hoperands, ?_⟩
  refine except_mapM_eq_ok.mpr (.cons (Instruction.targetOf_eq_ok.mpr ?_) .nil)
  refine ⟨_, hrelative, ?_, htarget⟩
  rw [hdistance]
  show (position : Int) + (target - position) = target
  omega

/-- Only branches that are there are patched. -/
theorem Took.target?_eq_none {t : State} (h : Took s c t) (hs : s.Sound) {position : Nat}
    (hposition : s.fragment.size ≤ position) : c.target? position = none := by
  cases h with
  | append granted => rfl
  | branch => rfl
  | patch known patched =>
      have hfits := hs.fits _ known
      rw [Call.target?_patch, if_neg]
      omega
  | padTo pos => rfl

/-- **From every state on the code decodes as the calls that follow ask for.**  The targets are those
of the whole row of calls; of branches that are still to come, the calls that follow tell them. -/
theorem decodes_of_run {target : Nat → Option Nat} (hs : s.Sound) (h : s.run calls = some last)
    (hsize : last.fragment.size < allocationLimit)
    (htarget : ∀ p, s.fragment.size ≤ p → target p = patchedTo p calls)
    (hpatched : ∀ p ∈ last.branches, ∃ t ∈ target p, t < last.fragment.size) :
    ∃ is, Decodes last.fragment.code s.fragment.size is ∧
      Listed last.pool last.fragment.code target s.fragment.size calls is := by
  induction calls generalizing s with
  | nil =>
      cases h
      exact ⟨[], .nil (Nat.le_refl _), .nil⟩
  | cons c calls ih =>
      obtain ⟨t, hstep, -, hrest⟩ := run_cons h
      have hsound := hstep.sound hs
      have hlater := continues_of_run hsound hrest
      have hle := (hstep.continues hs).size_le
      have hopen := hstep.target?_eq_none hs (Nat.le_refl _)
      obtain ⟨is, hdecodes, hlisted⟩ := ih hsound hrest fun p hp => by
        rw [htarget p (Nat.le_trans hle hp), patchedTo,
          hstep.target?_eq_none hs (Nat.le_trans hle hp), Option.or_none]
      cases hstep with
      | @append request fragment pool granted =>
          obtain ⟨-, bytes, hcode, -, hsingle⟩ :=
            Request.adds hs.addressable hlater.growth granted
          obtain ⟨i, hdecode, hlength, hshows⟩ :=
            hsingle _ _ (holds_of_continues (t := { s with fragment, pool }) hs hcode rfl hlater)
          obtain ⟨hoffset, -, -⟩ := Instruction.decode_bounds hdecode
          have hnext : fragment.size = i.next := by
            rw [Fragment.size_of_append hcode, Instruction.next, hoffset, hlength]
          rw [hnext] at hdecodes hlisted
          exact ⟨i :: is, .cons hdecode hdecodes, .append hoffset hshows hlisted⟩
      | @branch opcode short =>
          obtain ⟨x, hx, hxlt⟩ := hpatched _ (hlater.branches _ List.mem_cons_self)
          have hgiven : patchedTo s.fragment.size calls = some x := by
            have hcons := (htarget _ (Nat.le_refl _)).symm.trans hx
            rwa [patchedTo, hopen, Option.or_none] at hcons
          have hleads := (leads_of_run hsound List.mem_cons_self hrest).1 x hgiven
          have hdecode := decode_of_continues short hs hlater
          obtain ⟨-, hpos, hfits⟩ := Instruction.decode_bounds hdecode
          have hbefore : s.fragment.size < last.fragment.size :=
            Nat.lt_of_lt_of_le (Nat.lt_add_of_pos_right hpos) hfits
          have hnext : (s.fragment.branch opcode).size = s.fragment.size + 3 :=
            Fragment.size_branch opcode s.fragment
          rw [hnext] at hdecodes hlisted
          exact ⟨_ :: is, .cons hdecode hdecodes, .branch rfl rfl hx
            (jumpTargets_of_leads short hleads hsize hbefore hxlt) hlisted⟩
      | patch known patched =>
          rw [Fragment.size_of_patch patched] at hdecodes hlisted
          exact ⟨is, hdecodes, .patch hlisted⟩
      | @padTo alignment pos =>
          have hcode := s.fragment.toList_fillTo (Fragment.alignedSize s.fragment.size alignment)
          have hholds := holds_of_continues (t := { s with fragment := _ }) hs hcode rfl hlater
          obtain ⟨hge, hlt, hmultiple⟩ := @Fragment.alignedSize_bounds s.fragment.size _ pos
          have hend := Fragment.size_of_append hcode
          rw [List.length_replicate] at hend
          dsimp only at hdecodes hlisted
          rw [hend] at hdecodes hlisted
          refine ⟨_, (PlainRow.nops _).decodes hholds ?_, .padTo (by omega) ?_ hlisted⟩
          · rwa [List.length_replicate]
          · rwa [Nat.add_sub_cancel' hge]

end Run

/-- **Code decodes as it was built**, whatever its pool held before, once all its branches are
patched to offsets in the code. -/
theorem decodes_as_called {initial : Pool} (room : initial.size ≤ Pool.maxSlots)
    {calls : List Call} {built : State} (hrun : (State.start initial).run calls = some built)
    (hpatched : ∀ position ∈ built.branches,
      ∃ target ∈ patchedTo position calls, target < built.fragment.size) :
    (decodeAll built.fragment.code).fault = none ∧
      Listed built.pool built.fragment.code (patchedTo · calls) 0 calls
        (decodeAll built.fragment.code).instructions := by
  have hs : (State.start initial).Sound :=
    ⟨Nat.le_trans room (by decide), fun _ hp => (by cases hp), .nil⟩
  have hstart : (State.start initial).fragment.size < allocationLimit := by
    show 0 < allocationLimit
    decide
  obtain ⟨is, hdecodes, hlisted⟩ :=
    decodes_of_run hs hrun (size_of_run hstart hrun) (fun _ _ => rfl) hpatched
  rw [decodeAll_of_decodes hdecodes]
  exact ⟨rfl, hlisted⟩

/-- A branch over a constant to the access of a field, which is at a multiple of four. -/
def guarded : List Call :=
  [.append (.aload 300), .branch .ifNonNull rfl, .append (.pushInt 40000),
    .append (.op .pop rfl), .padTo 4, .patch 4 12, .append (.onField .getField ⟨"A", "f", "I"⟩)]

def guardedBuilt : State where
  fragment := ⟨#[0xc4, 0x19, 0x01, 0x2c, 0xc7, 0, 8, 0x12, 1, 0x57, 0, 0, 0xb4, 0, 7]⟩
  pool := ⟨#[.unused, .integer 40000, .utf8 "A", .classRef 2, .utf8 "f", .utf8 "I",
    .nameAndType 4 5, .fieldRef 3 6]⟩
  branches := [4]

theorem decodes_as_called_guarded :
    (State.start .empty).run guarded = some guardedBuilt ∧
      (decodeAll guardedBuilt.fragment.code).fault = none ∧
      Listed guardedBuilt.pool guardedBuilt.fragment.code (patchedTo · guarded) 0 guarded
        (decodeAll guardedBuilt.fragment.code).instructions := by
  have hrun : (State.start .empty).run guarded = some guardedBuilt := by decide +kernel
  exact ⟨hrun, decodes_as_called (by decide) hrun (by decide)⟩

end Reshape.Building
