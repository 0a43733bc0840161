import Mathlib.Data.Fintype.Card
import Reshape.Proofs.Code.Edit
import Reshape.Proofs.Code.Path
import Reshape.Proofs.Code.StackDepth

/-!
# The limit of the stack field

The analysis counts depths without a bound and cuts the greatest one to the sixteen bits of its
field.  So the field is too small exactly if a depth is seen that it cannot hold.  An instruction
adds at most two slots, and none is reached with two depths; hence every depth up to a given one
needs code of its own, and only code of 32768 bytes or more comes that far.
-/

namespace Reshape.StackDepth

/-! ## §1 What one instruction adds -/

/-- If there is a result, it is at most two: no value takes more slots. -/
def AtMostTwo (x : Except FormatError Int) : Prop := ∀ amount, x = .ok amount → amount ≤ 2

namespace AtMostTwo

theorem pure {amount : Int} (h : amount ≤ 2) : AtMostTwo (Pure.pure amount) := by
  intro amount' h'
  rwa [← except_pure_eq_ok.mp h']

theorem throw (e : FormatError) : AtMostTwo (MonadExcept.throw e) := nofun

theorem bind {α : Type} {x : Except FormatError α} {f : α → Except FormatError Int}
    (hf : ∀ a, AtMostTwo (f a)) : AtMostTwo (x >>= f) := by
  intro amount h
  obtain ⟨a, -, h⟩ := except_bind_eq_ok.mp h
  exact hf a amount h

end AtMostTwo

theorem fixedChange?_le {op : Opcode} {amount : Int} (h : fixedChange? op = some amount) :
    amount + returnSlots op ≤ 2 := by
  cases op <;> cases h <;> decide

theorem returnSlots_of_fixedChange?_eq_none {op : Opcode} (h : fixedChange? op = none) :
    returnSlots op = 0 := by
  cases op <;> first | rfl | cases h

theorem fieldSlots_cases (descriptor : String) :
    fieldSlots descriptor = 1 ∨ fieldSlots descriptor = 2 := by
  unfold fieldSlots
  split
  · exact .inr rfl
  · exact .inl rfl

/-- The slots of all parameters together, however many they are. -/
def parameterTotal (m : MethodType) : Nat := m.parameters.foldl (fun n t => n + t.slots) 0

theorem toNat_parameterSlots (m : MethodType) :
    m.parameterSlots.toNat = parameterTotal m % 65536 := by
  suffices hfrom : ∀ (ts : List FieldType) (n : UInt16) (total : Nat), n.toNat = total % 65536 →
      (ts.foldl (fun n t => n + UInt16.ofNat t.slots) n).toNat =
        ts.foldl (fun n t => n + t.slots) total % 65536 from hfrom m.parameters 0 0 rfl
  intro ts
  induction ts with
  | nil => exact fun _ _ h => h
  | cons t ts ih =>
      intro n total h
      refine ih (n + UInt16.ofNat t.slots) (total + t.slots) ?_
      rw [UInt16.toNat_add, UInt16.toNat_ofNat', h]
      omega

/-- A call takes the slots of all its arguments, unless they are too many for sixteen bits. -/
theorem callChange_exact_iff {descriptor : String} {m : MethodType}
    (h : MethodType.ofDescriptor? descriptor = .ok m) (receiver : Int) :
    callChange descriptor receiver = .ok (m.resultSlots - parameterTotal m - receiver) ↔
      parameterTotal m < 65536 := by
  simp only [callChange, h, toNat_parameterSlots, Except.ok.injEq]
  omega

theorem resultSlots_le (m : MethodType) : m.resultSlots ≤ 2 := by
  have hslots (t : FieldType) : t.slots ≤ 2 := by
    cases t with
    | primitive p => cases p <;> decide
    | object name => exact Nat.le_succ 1
    | array element => exact Nat.le_succ 1
  unfold MethodType.resultSlots
  split
  · exact Nat.zero_le 2
  · exact hslots _

/-- A call leaves its result. -/
theorem atMostTwo_callChange (descriptor : String) {receiver : Int} (h : 0 ≤ receiver) :
    AtMostTwo (callChange descriptor receiver) := by
  unfold callChange
  split
  · next m _ =>
    have hresult := resultSlots_le m
    exact .pure (by omega)
  · exact .throw _

theorem atMostTwo_constantSlots (pool : Pool) (index : UInt16) :
    AtMostTwo (constantSlots pool index) := by
  refine .bind fun c => ?_
  split
  · exact .pure (by decide)
  · exact .pure (by decide)
  · refine .bind fun nat => .pure ?_
    rcases fieldSlots_cases nat.2 with h | h <;> omega
  · exact .pure (by decide)

theorem atMostTwo_widenedChange (code : Array UInt8) (position : Nat) :
    AtMostTwo (widenedChange code position) := by
  refine .bind fun byte => ?_
  split <;> first | exact .throw _ | exact .pure (by decide)

/-- **No instruction adds more than two slots**, not even where it jumps to. -/
theorem change_le {pool : Pool} {code : Array UInt8} {i : Instruction} {amount : Int}
    (h : change pool code i = .ok amount) : amount + returnSlots i.opcode ≤ 2 := by
  cases hfixed : fixedChange? i.opcode with
  | some fixed =>
      simp only [change, hfixed] at h
      cases h
      exact fixedChange?_le hfixed
  | none =>
      rw [returnSlots_of_fixedChange?_eq_none hfixed, Int.add_zero]
      suffices hall : AtMostTwo (change pool code i) from hall amount h
      have hfield (f : Int → Int) (hone : f 1 ≤ 2) (htwo : f 2 ≤ 2)
          (x : Except FormatError String) : AtMostTwo (do return f (fieldSlots (← x))) := by
        refine .bind fun descriptor => .pure ?_
        rcases fieldSlots_cases descriptor with h | h
        · rwa [h]
        · rwa [h]
      have hcall (receiver : Int) (hreceiver : 0 ≤ receiver) (x : Except FormatError String) :
          AtMostTwo (do callChange (← x) receiver) :=
        .bind fun descriptor => atMostTwo_callChange descriptor hreceiver
      simp only [change, hfixed]
      split
      · exact .bind fun byte => atMostTwo_constantSlots pool byte.toUInt16
      · exact .bind fun index => atMostTwo_constantSlots pool index
      · exact hfield id (by decide) (by decide) _
      · exact hfield (- ·) (by decide) (by decide) _
      · exact hfield (· - 1) (by decide) (by decide) _
      · exact hfield (- · - 1) (by decide) (by decide) _
      · exact hcall 1 (by decide) _
      · exact hcall 1 (by decide) _
      · exact hcall 1 (by decide) _
      · exact hcall 0 (by decide) _
      · exact .bind fun index => hcall 0 (by decide) _
      · exact .bind fun dimensions => .pure (by omega)
      · exact atMostTwo_widenedChange code _

/-! ## §2 Every depth needs code of its own -/

section Ladder

variable {pool : Pool} {b : Body} {p : Point}

/-- Below a point that is reached lies, for every lower step of two slots, another one. -/
theorem exists_rung (hp : Reaches pool b p) :
    ∀ k : Nat, 2 * (k : Int) ≤ p.depth → ∃ q, Reaches pool b q ∧ q.depth / 2 = k := by
  -- The first point above a step comes from one below it and is less than two slots further up.
  have hclimb {p q : Point} (hq : Reaches pool b q) (hstep : q.depth ≤ p.depth + 2)
      (ih : ∀ k : Nat, 2 * (k : Int) ≤ p.depth → ∃ q, Reaches pool b q ∧ q.depth / 2 = k)
      (k : Nat) (hk : 2 * (k : Int) ≤ q.depth) : ∃ q, Reaches pool b q ∧ q.depth / 2 = k := by
    by_cases hbelow : 2 * (k : Int) ≤ p.depth
    · exact ih k hbelow
    · exact ⟨q, hq, by omega⟩
  induction hp with
  | start nonempty =>
      intro k hk
      exact ⟨_, .start nonempty, by dsimp only at hk ⊢; omega⟩
  | handler mem =>
      intro k hk
      exact ⟨_, .handler mem, by dsimp only at hk ⊢; omega⟩
  | @falls p i amount reached decoded changes passes inside ih =>
      have hamount := change_le changes
      have hslots : 0 ≤ returnSlots i.opcode := returnSlots_nonneg i.opcode
      exact hclimb (.falls reached decoded changes passes inside) (by dsimp only; omega) ih
  | @jumps p i amount targets target reached decoded changes known mem ih =>
      have hamount := change_le changes
      exact hclimb (.jumps reached decoded changes known mem) (by dsimp only; omega) ih

/-- **A depth is bounded by the code**: two steps of the ladder start at different offsets. -/
theorem Consistent.depth_lt (hb : Consistent pool b) (hp : Reaches pool b p) :
    p.depth < 2 * b.code.size := by
  rcases lt_or_ge p.depth 0 with hneg | hnonneg
  · omega
  have hrung (k : Fin (p.depth / 2 + 1).toNat) :
      ∃ q, Reaches pool b q ∧ q.depth / 2 = (k : Nat) :=
    exists_rung hp k (by omega)
  choose rung hreached hrung using hrung
  have hinjective : Function.Injective fun k =>
      (⟨(rung k).offset, hb.inside _ (hreached k)⟩ : Fin b.code.size) := by
    intro k l hkl
    have hdepth := hb.unique _ _ (hreached k) (hreached l) (Fin.mk.inj hkl)
    have hk := hrung k
    have hl := hrung l
    exact Fin.ext (by omega)
  have hcard := Fintype.card_le_of_injective _ hinjective
  rw [Fintype.card_fin, Fintype.card_fin] at hcard
  omega

/-- What is seen on the way is less than three slots above the points. -/
theorem Consistent.sees_le (hb : Consistent pool b) {d : Int} (hd : Sees pool b d) :
    d ≤ 2 * b.code.size + 1 := by
  cases hd with
  | before reached =>
      have := hb.depth_lt reached
      omega
  | @after p i amount reached decoded changes =>
      have := hb.depth_lt reached
      have := change_le changes
      have := returnSlots_nonneg i.opcode
      omega
  | along reached decoded changes known mem =>
      have := hb.depth_lt reached
      have := change_le changes
      omega

end Ladder

/-! ## §3 The field -/

/-- The field is at least every depth that is seen. -/
def Bounds (pool : Pool) (b : Body) (field : UInt16) : Prop := ∀ d, Sees pool b d → d ≤ field.toNat

/-- No depth that is seen exceeds what the field can hold. -/
def Fits (pool : Pool) (b : Body) : Prop := ∀ d, Sees pool b d → d ≤ 65535

section Field

variable {pool : Pool} {b : Body} {m : UInt16}

theorem exists_peak (h : greatest pool b = .ok m) :
    ∃ peak, Consistent pool b ∧ IsPeak pool b peak ∧ m = cut peak := by
  obtain ⟨result, hsearched, hresult⟩ := exists_searched pool b
  rw [h] at hresult
  obtain ⟨peak, rfl, hcut⟩ := Option.map_eq_some_iff.mp hresult.symm
  exact ⟨peak, hsearched.verdict.1, hsearched.verdict.2, hcut.symm⟩

theorem le_limit (old depth : UInt16) : depth ≤ max old depth := by
  show depth ≤ if old ≤ depth then depth else old
  split
  · exact UInt16.le_refl depth
  · next h => exact (UInt16.le_total old depth).resolve_left h

/-- A field that is not below the result of the analysis holds all depths unless one of them is
too large for any field. -/
theorem bounds_iff_fits (h : greatest pool b = .ok m) {field : UInt16} (hm : m ≤ field) :
    Bounds pool b field ↔ Fits pool b := by
  constructor
  · intro hbounds d hd
    have hfield := hbounds d hd
    have hlt := field.toNat_lt
    omega
  · intro hfits d hd
    obtain ⟨peak, -, ⟨hseen, hgreatest⟩, rfl⟩ := exists_peak h
    have hpeak : peak ≤ 65535 := by
      rcases hseen with rfl | hseen
      · decide
      · exact hfits peak hseen
    have hd : d ≤ peak := hgreatest (.inr hd)
    have hzero : 0 ≤ peak := hgreatest (.inl rfl)
    have hsmall : peak.toNat < 65536 := by omega
    rw [cut, UInt16.le_iff_toNat_le, UInt16.toNat_ofNat_of_lt' hsmall] at hm
    omega

/-- Short code never comes to a depth that the field cannot hold. -/
theorem fits_of_small (h : greatest pool b = .ok m) (hsize : b.code.size ≤ 32767) :
    Fits pool b := by
  intro d hd
  obtain ⟨peak, hconsistent, -⟩ := exists_peak h
  have hle := hconsistent.sees_le hd
  omega

end Field

/-! ## §4 A tower of long constants -/

/-- A number of long constants, one on top of the other. -/
def constants (n : Nat) : Bytes := List.replicate n Opcode.lconst0.byte

/-- A body that pushes long constants and returns. -/
def tower (limit : UInt16) (n : Nat) : Body :=
  ⟨limit, 0, (constants n ++ [Opcode.returnVoid.byte]).toArray, [], []⟩

section Tower

variable {pool : Pool} {limit : UInt16} {n : Nat} {p : Point}

theorem size_tower : (tower limit n).code.size = n + 1 := by
  simp [tower, constants]

/-- The operation at an offset of the tower. -/
def storey (n k : Nat) : Opcode := if k < n then .lconst0 else .returnVoid

theorem decode_tower {k : Nat} (hk : k ≤ n) :
    Instruction.decode (tower limit n).code k = .ok ⟨k, storey n k, 1⟩ := by
  have hall : Code.Holds (tower limit n).code 0 (constants n ++ [Opcode.returnVoid.byte]) :=
    Code.Holds.self _
  rcases Nat.lt_or_eq_of_le hk with hlt | rfl
  · have hrow : Code.Holds (tower limit n).code k [Opcode.lconst0.byte] := by
      intro j hj
      obtain rfl : j = 0 := by simpa using hj
      have hfirst := hall.left k (by simpa [constants] using hlt)
      rw [Nat.zero_add, constants, List.getElem?_replicate, if_pos hlt] at hfirst
      exact hfirst
    rw [storey, if_pos hlt]
    exact hrow.decode_eq rfl
  · have hrow := hall.right
    rw [constants, List.length_replicate, Nat.zero_add] at hrow
    rw [storey, if_neg (Nat.lt_irrefl k)]
    exact hrow.decode_eq rfl

theorem change_tower {k : Nat} :
    change pool (tower limit n).code ⟨k, storey n k, 1⟩ = .ok (if k < n then 2 else 0) := by
  unfold storey
  split
  · rfl
  · rfl

theorem jumpTargets_tower {k : Nat} :
    Instruction.jumpTargets (tower limit n).code ⟨k, storey n k, 1⟩ = .ok [] := by
  unfold storey
  split
  · rfl
  · rfl

/-- At each offset of the tower lie twice as many slots. -/
theorem reaches_tower : Reaches pool (tower limit n) p ↔ p.offset ≤ n ∧ p.depth = 2 * p.offset := by
  constructor
  · intro h
    induction h with
    | start nonempty => exact ⟨Nat.zero_le n, rfl⟩
    | handler mem => cases mem
    | @falls p i amount reached decoded changes passes inside ih =>
        obtain ⟨hle, hdepth⟩ := ih
        cases (decode_tower hle).symm.trans decoded
        cases change_tower.symm.trans changes
        have hlt : p.offset < n := by
          by_contra htop
          rw [storey, if_neg htop] at passes
          cases passes
        rw [if_pos hlt]
        simp only [Instruction.next]
        omega
    | jumps reached decoded changes known mem ih =>
        cases (decode_tower ih.1).symm.trans decoded
        cases jumpTargets_tower.symm.trans known
        cases mem
  · obtain ⟨k, depth⟩ := p
    dsimp only
    rintro ⟨hle, rfl⟩
    induction k with
    | zero => exact .start (by simp [tower])
    | succ k ih =>
        have hlt : k < n := hle
        have hbelow := ih (Nat.le_of_lt hlt)
        have hchange : change pool (tower limit n).code ⟨k, storey n k, 1⟩ = .ok 2 := by
          rw [change_tower, if_pos hlt]
        have hpasses : (storey n k).endsFlow = false := by
          rw [storey, if_pos hlt]
          rfl
        have hnext : Reaches pool (tower limit n) ⟨k + 1, 2 * k + 2⟩ :=
          .falls hbelow (decode_tower (Nat.le_of_lt hlt)) hchange hpasses
            (by rw [size_tower]; exact Nat.succ_lt_succ hlt)
        rwa [show (2 * (k + 1 : Nat) : Int) = 2 * k + 2 by omega]

theorem consistent_tower : Consistent pool (tower limit n) where
  inside := by
    intro p hp
    rw [size_tower]
    exact Nat.lt_succ_of_le (reaches_tower.mp hp).1
  defined := by
    intro p hp
    obtain ⟨hle, hdepth⟩ := reaches_tower.mp hp
    refine ⟨_, _, [], decode_tower hle, change_tower, jumpTargets_tower, ?_⟩
    split <;> omega
  unique := by
    intro p q hp hq hoffset
    rw [(reaches_tower.mp hp).2, (reaches_tower.mp hq).2, hoffset]

theorem sees_top : Sees pool (tower limit n) (2 * n) :=
  .before (reaches_tower.mpr ⟨Nat.le_refl n, rfl⟩ : Reaches pool (tower limit n) ⟨n, 2 * n⟩)

theorem isPeak_tower : IsPeak pool (tower limit n) (2 * n) := by
  refine ⟨.inr sees_top, ?_⟩
  rintro d (rfl | hd)
  · omega
  · cases hd with
    | before reached =>
        have := reaches_tower.mp reached
        omega
    | after reached decoded changes =>
        obtain ⟨hle, hdepth⟩ := reaches_tower.mp reached
        cases (decode_tower hle).symm.trans decoded
        cases change_tower.symm.trans changes
        split <;> omega
    | along reached decoded changes known mem =>
        cases (decode_tower (reaches_tower.mp reached).1).symm.trans decoded
        cases jumpTargets_tower.symm.trans known
        cases mem

/-- The analysis finds the top of the tower and cuts it. -/
theorem greatest_tower : greatest pool (tower limit n) = .ok (cut (2 * n)) := by
  obtain ⟨result, hsearched, hresult⟩ := exists_searched pool (tower limit n)
  have hverdict := hsearched.verdict
  cases result with
  | none => exact (hverdict consistent_tower).elim
  | some peak =>
      rw [hverdict.2.unique isPeak_tower] at hresult
      exact eq_ok_of_toOption hresult

/-- A block of constants in front of a return builds the tower. -/
theorem splice_tower (hn : n < Body.maxCode) :
    (⟨0, (constants n).toArray, none⟩ : Insertion).splice (tower limit 0).code =
      .ok (tower limit n).code := by
  have hdecode : decodeAll (tower limit 0).code = ⟨[⟨0, .returnVoid, 1⟩], none⟩ :=
    decodeAll_of_decodes (.cons (decode_tower (Nat.le_refl 0)) (.nil (Nat.le_refl 1)))
  have hsize : ¬ Body.maxCode < (tower limit 0).code.size + (constants n).toArray.size := by
    rw [size_tower]
    simp only [constants, List.size_toArray, List.length_replicate]
    omega
  have hboundary : (!((0 : Nat) == (tower limit 0).code.size ||
      [(⟨0, .returnVoid, 1⟩ : Instruction)].any (·.offset == 0))) = false := rfl
  simp only [Insertion.splice, Insertion.instructions, hdecode]
  refine except_bind_eq_ok.mpr ⟨[⟨0, .returnVoid, 1⟩], rfl, ?_⟩
  simp only [hboundary, hsize, if_false, Bool.false_eq_true]
  refine except_bind_eq_ok.mpr ⟨[], rfl, congrArg Except.ok ?_⟩
  simp only [tower, List.append_toArray, List.extract_toArray]
  simp [constants]

theorem raiseMaxStack_tower : Insertion.raiseMaxStack ⟨tower limit n, pool⟩ =
    .ok () ⟨tower (max limit (cut (2 * n))) n, pool⟩ := by
  refine state_bind_eq_ok.mpr ⟨_, _, rfl, ?_⟩
  refine state_bind_eq_ok.mpr ⟨cut (2 * n), ⟨tower limit n, pool⟩, ?_, rfl⟩
  exact Editing.ofExcept_eq_ok.mpr ⟨mapError_eq_ok.mpr greatest_tower, rfl⟩

theorem run_tower (hn : n < Body.maxCode) :
    (⟨0, (constants n).toArray, none⟩ : Insertion).run [] ⟨tower limit 0, pool⟩ =
      .ok () ⟨tower (max limit (cut (2 * n))) n, pool⟩ := by
  refine state_bind_eq_ok.mpr ⟨_, _, rfl, ?_⟩
  refine state_bind_eq_ok.mpr ⟨_, _, Editing.ofExcept_eq_ok.mpr ⟨splice_tower hn, rfl⟩, ?_⟩
  exact state_bind_eq_ok.mpr ⟨_, _, rfl, state_bind_eq_ok.mpr ⟨false, _, rfl, raiseMaxStack_tower⟩⟩

end Tower

/-! ## §5 The limit and the paths -/

/-- **The limit that is written bounds every path exactly if no depth is too large for its field.**
So it is with the result of the analysis and with the limit that an insertion leaves behind, and
code of fewer than 32768 bytes is safe.  Otherwise the cut result is too small, and there is no
failure to tell of it. -/
theorem depth_bounded_iff_fits (pool : Pool) (b : Body) :
    (∀ m, greatest pool b = .ok m →
      (Bounds pool b m ↔ Fits pool b) ∧ (b.code.size ≤ 32767 → Bounds pool b m)) ∧
    ∀ (ins : Insertion) entry s, ins.run entry s = .ok () ⟨b, pool⟩ →
      (Bounds pool b b.maxStack ↔ Fits pool b) ∧
        (b.code.size ≤ 32767 → Bounds pool b b.maxStack) := by
  constructor
  · intro m h
    have hiff := bounds_iff_fits h (UInt16.le_refl m)
    exact ⟨hiff, fun hsize => hiff.mpr (fits_of_small h hsize)⟩
  · intro ins entry s h
    obtain ⟨done⟩ := Insertion.run_steps h
    obtain ⟨depth, hdepth, hlimit⟩ := done.measured
    have hiff : Bounds pool b b.maxStack ↔ Fits pool b :=
      bounds_iff_fits hdepth (hlimit ▸ le_limit s.body.maxStack depth)
    exact ⟨hiff, fun hsize => hiff.mpr (fits_of_small hdepth hsize)⟩

/-- With 32768 constants nothing is left of the depth, and the limit that an insertion writes for
them is zero as well. -/
theorem depth_bounded_iff_fits_tower :
    greatest .empty (tower 0 32768) = .ok 0 ∧ Sees .empty (tower 0 32768) 65536 ∧
      ¬ Bounds .empty (tower 0 32768) 0 ∧
      ∃ t : Edit, (⟨0, (constants 32768).toArray, none⟩ : Insertion).run [] ⟨tower 0 0, .empty⟩ =
        .ok () t ∧ t.body.maxStack = 0 ∧ ¬ Bounds t.pool t.body t.body.maxStack := by
  have hgreatest : greatest .empty (tower 0 32768) = .ok 0 := greatest_tower
  have hseen : Sees .empty (tower 0 32768) 65536 := sees_top
  have hfails : ¬ Fits .empty (tower 0 32768) := fun hfits => absurd (hfits 65536 hseen) (by decide)
  have hrun : (⟨0, (constants 32768).toArray, none⟩ : Insertion).run [] ⟨tower 0 0, .empty⟩ =
      .ok () ⟨tower 0 32768, .empty⟩ := run_tower (by decide)
  obtain ⟨hmeasure, hinsert⟩ := depth_bounded_iff_fits .empty (tower 0 32768)
  refine ⟨hgreatest, hseen, ?_, _, hrun, rfl, ?_⟩
  · rw [(hmeasure _ hgreatest).1]
    exact hfails
  · rw [(hinsert _ _ _ hrun).1]
    exact hfails

end Reshape.StackDepth
