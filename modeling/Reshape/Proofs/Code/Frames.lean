import Reshape.Proofs.Code.Relocation
import Reshape.Proofs.Frame.States

/-!
# Frames follow the code

A frame table is read as the states it describes, the states move with their instructions, and
the state behind the block goes to its place among them.  Moved states stay in order and within
the code, and so they are what the new table describes, however the frames had to be encoded anew.
-/

namespace Reshape

open FrameState

/-! ## §1 States that move -/

/-- A verification type that has followed the code. -/
inductive VerificationType.Follows (r : Relocation) : VerificationType → VerificationType → Prop
  | uninitialized {offset offset' : UInt16} (h : offset'.toNat = r.start offset.toNat) :
      Follows r (.uninitialized offset) (.uninitialized offset')
  | other {t : VerificationType} (h : ∀ offset, t ≠ .uninitialized offset) : Follows r t t

/-- A state that has followed the code. -/
structure FrameState.Follows (r : Relocation) (s s' : FrameState) : Prop where
  offset : s'.offset = r.start s.offset
  locals : List.Forall₂ (VerificationType.Follows r) s.locals s'.locals
  stack : List.Forall₂ (VerificationType.Follows r) s.stack s'.stack

/-- The state mentions no offset behind the end of the code. -/
structure FrameState.Inside (size : Nat) (s : FrameState) : Prop where
  offset : s.offset ≤ size
  locals : ∀ offset, .uninitialized offset ∈ s.locals → offset.toNat ≤ size
  stack : ∀ offset, .uninitialized offset ∈ s.stack → offset.toNat ≤ size

namespace Relocation

variable {r : Relocation} {size : Nat}

theorem follows_verificationType {t : VerificationType} (hsize : size + r.length < 65536)
    (h : ∀ offset, t = .uninitialized offset → offset.toNat ≤ size) :
    t.Follows r (r.verificationType t) := by
  cases t with
  | uninitialized offset =>
      have hle := h offset rfl
      exact .uninitialized (r.toNat_start16 (by omega))
  | _ => exact .other nofun

theorem follows_frameState {s : FrameState} (hsize : size + r.length < 65536)
    (h : s.Inside size) : s.Follows r (r.frameState s) := by
  refine ⟨rfl, ?_, ?_⟩
  · refine List.forall₂_map_right_iff.mpr (List.forall₂_same.mpr fun t ht => ?_)
    exact follows_verificationType hsize fun offset hoffset => h.locals offset (hoffset ▸ ht)
  · refine List.forall₂_map_right_iff.mpr (List.forall₂_same.mpr fun t ht => ?_)
    exact follows_verificationType hsize fun offset hoffset => h.stack offset (hoffset ▸ ht)

theorem follows_frameStates {states : List FrameState} (hsize : size + r.length < 65536)
    (h : ∀ s ∈ states, s.Inside size) :
    List.Forall₂ (FrameState.Follows r) states (states.map r.frameState) :=
  List.forall₂_map_right_iff.mpr
    (List.forall₂_same.mpr fun s hs => follows_frameState hsize (h s hs))

/-- States that move stay in order. -/
theorem increasing_map {states : List FrameState} (h : Increasing states) :
    Increasing (states.map r.frameState) := by
  refine List.pairwise_map.mpr (h.imp fun {s s'} hlt => ?_)
  show r.start s.offset < r.start s'.offset
  unfold start
  split <;> split <;> omega

end Relocation

/-! ## §2 The state behind the block -/

namespace Insertion

variable {ins : Insertion} {states : List FrameState}

/-- What becomes of the states of a table: they move, and the state behind the block is among them
if it is to be recorded and the position had no state yet. -/
inductive StatesFollow (ins : Insertion) (states : List FrameState) : List FrameState → Prop
  | moved {states' : List FrameState}
      (known : ins.join = none ∨ ∃ s ∈ states, s.offset = ins.position)
      (row : List.Forall₂ (FrameState.Follows ins.relocation) states states') :
      StatesFollow ins states states'
  | joined {locals : List VerificationType} {front back front' back' : List FrameState}
      (join : ins.join = some locals) (free : ∀ s ∈ states, s.offset ≠ ins.position)
      (split : states = front ++ back)
      (before : List.Forall₂ (FrameState.Follows ins.relocation) front front')
      (behind : List.Forall₂ (FrameState.Follows ins.relocation) back back') :
      StatesFollow ins states (front' ++ ⟨ins.joinOffset, locals, []⟩ :: back')

/-- A moved state lies before the end of the block if it lay before the position. -/
theorem start_lt_joinOffset (ins : Insertion) (offset : Nat) :
    ins.relocation.start offset < ins.joinOffset ↔ offset < ins.position := by
  have hstart := ins.start_cases offset
  unfold joinOffset
  omega

theorem start_eq_joinOffset (ins : Insertion) (offset : Nat) :
    ins.relocation.start offset = ins.joinOffset ↔ offset = ins.position := by
  have hstart := ins.start_cases offset
  unfold joinOffset
  omega

/-- In order, nothing behind the first state that is not before the position is before it. -/
theorem le_of_mem_dropWhile {position : Nat} (h : Increasing states) :
    ∀ s ∈ states.dropWhile (·.offset < position), position ≤ s.offset := by
  induction states with
  | nil => nofun
  | cons s rest ih =>
      obtain ⟨hfirst, hrest⟩ := List.pairwise_cons.mp h
      rw [List.dropWhile_cons]
      split
      · exact ih hrest
      · next hbefore =>
        have hle : position ≤ s.offset := by simpa using hbefore
        intro s' hs'
        rcases List.mem_cons.mp hs' with rfl | hs'
        · exact hle
        · exact Nat.le_of_lt (Nat.lt_of_le_of_lt hle (hfirst s' hs'))

theorem addJoin_of_known (h : ins.join = none ∨ ∃ s ∈ states, s.offset = ins.position) :
    ins.addJoin (states.map ins.relocation.frameState) =
      states.map ins.relocation.frameState := by
  unfold addJoin joinState?
  rcases h with hnone | ⟨s, hs, hoffset⟩
  · rw [hnone]
    rfl
  · cases ins.join with
    | none => rfl
    | some locals =>
        refine if_pos (List.any_eq_true.mpr ⟨_, List.mem_map_of_mem hs, ?_⟩)
        rw [beq_iff_eq]
        exact (ins.start_eq_joinOffset s.offset).mpr hoffset

theorem addJoin_of_free {locals : List VerificationType} (hjoin : ins.join = some locals)
    (hfree : ∀ s ∈ states, s.offset ≠ ins.position) :
    ins.addJoin (states.map ins.relocation.frameState) =
      (states.takeWhile (·.offset < ins.position)).map ins.relocation.frameState ++
        ⟨ins.joinOffset, locals, []⟩ ::
          (states.dropWhile (·.offset < ins.position)).map ins.relocation.frameState := by
  have hbefore : (fun s : FrameState => decide (s.offset < ins.joinOffset)) ∘
      ins.relocation.frameState = fun s => decide (s.offset < ins.position) := by
    funext s
    exact decide_eq_decide.mpr (ins.start_lt_joinOffset s.offset)
  unfold addJoin joinState?
  rw [hjoin]
  dsimp only [Option.map_some]
  rw [if_neg, List.takeWhile_map, List.dropWhile_map, hbefore]
  rw [List.any_eq_true]
  rintro ⟨s', hs', hoffset⟩
  obtain ⟨s, hs, rfl⟩ := List.mem_map.mp hs'
  exact hfree s hs ((ins.start_eq_joinOffset s.offset).mp (beq_iff_eq.mp hoffset))

/-- Where the position has no state, the row is cut there and the new state goes between. -/
theorem exists_cut {locals : List VerificationType} (hstates : Increasing states)
    (hjoin : ins.join = some locals) (hfree : ∀ s ∈ states, s.offset ≠ ins.position) :
    ∃ front back, states = front ++ back ∧ (∀ s ∈ front, s.offset < ins.position) ∧
      (∀ s ∈ back, ins.position < s.offset) ∧
      ins.addJoin (states.map ins.relocation.frameState) =
        front.map ins.relocation.frameState ++
          ⟨ins.joinOffset, locals, []⟩ :: back.map ins.relocation.frameState := by
  refine ⟨_, _, List.takeWhile_append_dropWhile.symm, ?_, ?_, addJoin_of_free hjoin hfree⟩
  · intro s hs
    simpa using List.all_eq_true.mp List.all_takeWhile s hs
  · intro s hs
    have hmem : s ∈ states := (List.dropWhile_sublist _).subset hs
    exact Nat.lt_of_le_of_ne (le_of_mem_dropWhile hstates s hs) (hfree s hmem).symm

/-- The row with the new state is in order. -/
theorem increasing_joined {front back : List FrameState} {locals : List VerificationType}
    (h : Increasing (front ++ back)) (hbefore : ∀ s ∈ front, s.offset < ins.position)
    (hbehind : ∀ s ∈ back, ins.position < s.offset) :
    Increasing (front.map ins.relocation.frameState ++
      ⟨ins.joinOffset, locals, []⟩ :: back.map ins.relocation.frameState) := by
  have hrow : Increasing ((front ++ back).map ins.relocation.frameState) :=
    Relocation.increasing_map h
  rw [List.map_append] at hrow
  obtain ⟨hfront, hback, hacross⟩ := List.pairwise_append.mp hrow
  refine List.pairwise_append.mpr ⟨hfront, List.pairwise_cons.mpr ⟨?_, hback⟩, ?_⟩
  · intro s' hs'
    obtain ⟨s, hs, rfl⟩ := List.mem_map.mp hs'
    have hstart := ins.start_cases s.offset
    have hlt := hbehind s hs
    show ins.position + ins.block.size < ins.relocation.start s.offset
    omega
  · intro s' hs' j hj
    rcases List.mem_cons.mp hj with rfl | hj
    · obtain ⟨s, hs, rfl⟩ := List.mem_map.mp hs'
      exact (ins.start_lt_joinOffset s.offset).mpr (hbefore s hs)
    · exact hacross s' hs' j hj

/-- **The states of a table follow the code.**  They are in order again, and none lies behind the
end of the code. -/
theorem addJoin_follow {size : Nat} (hsize : size + ins.block.size < 65536)
    (hposition : ins.position ≤ size) (hstates : Increasing states)
    (inside : ∀ s ∈ states, s.Inside size) :
    Increasing (ins.addJoin (states.map ins.relocation.frameState)) ∧
      (∀ s ∈ ins.addJoin (states.map ins.relocation.frameState),
        s.offset ≤ size + ins.block.size) ∧
      ins.StatesFollow states (ins.addJoin (states.map ins.relocation.frameState)) := by
  have hmoved : ∀ s' ∈ states.map ins.relocation.frameState,
      s'.offset ≤ size + ins.block.size := by
    intro s' hs'
    obtain ⟨s, hs, rfl⟩ := List.mem_map.mp hs'
    have hstart := ins.start_cases s.offset
    have := (inside s hs).offset
    show ins.relocation.start s.offset ≤ _
    omega
  by_cases hknown : ins.join = none ∨ ∃ s ∈ states, s.offset = ins.position
  · rw [addJoin_of_known hknown]
    exact ⟨Relocation.increasing_map hstates, hmoved,
      .moved hknown (Relocation.follows_frameStates hsize inside)⟩
  · rw [not_or] at hknown
    obtain ⟨locals, hjoin⟩ := Option.ne_none_iff_exists'.mp hknown.1
    have hfree : ∀ s ∈ states, s.offset ≠ ins.position :=
      fun s hs hoffset => hknown.2 ⟨s, hs, hoffset⟩
    obtain ⟨front, back, rfl, hbefore, hbehind, hrow⟩ := exists_cut hstates hjoin hfree
    rw [List.forall_mem_append] at inside
    rw [List.map_append, List.forall_mem_append] at hmoved
    rw [hrow]
    refine ⟨increasing_joined hstates hbefore hbehind, ?_, .joined hjoin hfree rfl
      (Relocation.follows_frameStates hsize inside.1)
      (Relocation.follows_frameStates hsize inside.2)⟩
    refine List.forall_mem_append.mpr ⟨hmoved.1, List.forall_mem_cons.mpr ⟨?_, hmoved.2⟩⟩
    show ins.position + ins.block.size ≤ _
    omega

/-! ## §3 The table -/

/-- What an insertion makes of a frame table. -/
theorem frames_ok {entry : List VerificationType} {payload payload' : Bytes}
    (h : ins.frames entry payload = .ok payload') :
    ∃ states, Describes payload entry states ∧
      Frame.encodeAll (compress (ins.addJoin (states.map ins.relocation.frameState)) entry) =
        .ok payload' := by
  obtain ⟨frames, hframes, h⟩ := except_bind_eq_ok.mp h
  rw [mapError_eq_ok] at hframes
  obtain ⟨states, hstates, h⟩ := except_bind_eq_ok.mp h
  rw [mapError_eq_ok] at hstates
  exact ⟨states, ⟨frames, hframes, hstates⟩, h⟩

theorem Adjusts.frames {pool : Pool} {entry : List VerificationType} {a a' : Attribute}
    (h : ins.Adjusts pool entry a a') (hmap : IsMap pool a) :
    ins.frames entry a.payload = .ok a'.payload := by
  obtain ⟨name, hname, hpayload⟩ := h.payload
  cases hname.symm.trans hmap
  rwa [payload_frames] at hpayload

end Insertion

/-- No state that a frame table describes mentions an offset behind the end of the code. -/
def Body.FramesInside (body : Body) (pool : Pool) (entry : List VerificationType) : Prop :=
  ∀ a ∈ body.attributes, Insertion.IsMap pool a → ∀ states, Describes a.payload entry states →
    ∀ s ∈ states, s.Inside body.code.size

namespace Insertion

/-- **Frames follow the code.**  Let no state of a frame table mention an offset behind the end of
the code.  If the insertion succeeds, each frame table is found in its row again and describes,
from the same locals on entry, the old states in their order with all offsets moved, and the state
behind the block, if that is to be recorded and its offset had none.  Where there was no frame table
at all, one with just that state is appended, or none if there is nothing to record. -/
theorem frames_follow_code (ins : Insertion) (entry : List VerificationType) (body : Body)
    (pool : Pool) (edit : Edit) (hpool : ins.join = none ∨ pool.Addressable)
    (inside : body.FramesInside pool entry) (hrun : ins.run entry ⟨body, pool⟩ = .ok () edit) :
    ∃ attributes added, edit.body.attributes = attributes ++ added ∧
      List.Forall₂ (fun a a' => a'.name = a.name ∧ (IsMap pool a → IsMap edit.pool a' ∧
          ∃ states states', Describes a.payload entry states ∧
            Describes a'.payload entry states' ∧ Increasing states' ∧
            ins.StatesFollow states states'))
        body.attributes attributes ∧
      ((∃ a ∈ body.attributes, IsMap pool a) ∧ added = [] ∨
        (∀ a ∈ body.attributes, ¬ IsMap pool a) ∧
          (ins.join = none ∧ added = [] ∨
            ∃ locals a, ins.join = some locals ∧ added = [a] ∧ IsMap edit.pool a ∧
              Describes a.payload entry [⟨ins.joinOffset, locals, []⟩])) := by
  obtain ⟨done⟩ := run_steps hrun
  obtain ⟨t⟩ := splice_ok done.spliced
  have hsize : body.code.size + ins.block.size < 65536 := Nat.lt_succ_of_le t.small
  have hposition : ins.position ≤ body.code.size := t.position_le
  obtain ⟨hrow, hadded⟩ := done.attributes hpool
  have hfollow : List.Forall₂ (fun a a' => a'.name = a.name ∧ (IsMap pool a →
      IsMap edit.pool a' ∧ ∃ states states', Describes a.payload entry states ∧
        Describes a'.payload entry states' ∧ Increasing states' ∧
        ins.StatesFollow states states')) body.attributes done.adjusted := by
    rw [List.forall₂_iff_zip] at hrow ⊢
    refine ⟨hrow.1, fun {a a'} hmem => ?_⟩
    have hadjusts := hrow.2 hmem
    refine ⟨hadjusts.name, fun hmap => ⟨?_, ?_⟩⟩
    · unfold IsMap
      rw [hadjusts.name]
      exact done.joined.growth.utf8 hmap
    · obtain ⟨states, hstates, hencode⟩ := frames_ok (hadjusts.frames hmap)
      obtain ⟨hincreasing, hsmall, hstatesFollow⟩ := addJoin_follow hsize hposition
        hstates.increasing (inside a (List.of_mem_zip hmem).1 hmap states hstates)
      refine ⟨states, _, hstates, describes_of_encode hincreasing ?_ hencode, hincreasing,
        hstatesFollow⟩
      exact fun s hs => Nat.lt_of_le_of_lt (hsmall s hs) hsize
  rcases hadded with ⟨hattributes, hmap | hnone⟩ |
    ⟨hnone, join, a, hjoin, hmap, hencode, hattributes⟩
  · exact ⟨done.adjusted, [], by rw [hattributes, List.append_nil], hfollow, .inl ⟨hmap, rfl⟩⟩
  · refine ⟨done.adjusted, [], by rw [hattributes, List.append_nil], hfollow, ?_⟩
    by_cases hmap : ∃ a ∈ body.attributes, IsMap pool a
    · exact .inl ⟨hmap, rfl⟩
    · exact .inr ⟨fun a ha h => hmap ⟨a, ha, h⟩, .inl ⟨hnone, rfl⟩⟩
  · obtain ⟨locals, hlocals, rfl⟩ := Option.map_eq_some_iff.mp hjoin
    refine ⟨done.adjusted, [a], hattributes, hfollow, .inr ⟨hnone, .inr ⟨locals, a, hlocals, rfl,
      hmap, describes_of_encode (List.pairwise_singleton _ _) ?_ hencode⟩⟩⟩
    intro s hs
    rw [List.mem_singleton.mp hs]
    show ins.position + ins.block.size < 65536
    omega

/-- A branch over an operation that does nothing, with a frame at its target. -/
def branchBody : Body := ⟨1, 0, #[0x03, 0x99, 0, 4, 0, 0xb1], [], [⟨1, [0, 1, 5]⟩]⟩

def branchNames : Pool := ⟨#[.unused, .utf8 Attribute.stackMapTableName]⟩

/-- A jump to its own end, behind the branch. -/
def behindBranch : Insertion := ⟨4, #[0xa7, 0, 3], some []⟩

theorem describes_branchBody : Describes [0, 1, 5] [] [⟨5, [], []⟩] := by
  refine describes_of_encode (List.pairwise_singleton _ _) ?_ rfl
  decide

theorem framesInside_branchBody : branchBody.FramesInside branchNames [] := by
  intro a ha _ states hstates s hs
  rw [List.mem_singleton.mp ha] at hstates
  rw [hstates.unique describes_branchBody, List.mem_singleton] at hs
  rw [hs]
  exact ⟨by decide, nofun, nofun⟩

theorem frames_follow_code_branchBody :
    ∃ edit, behindBranch.run [] ⟨branchBody, branchNames⟩ = .ok () edit ∧
      ∃ a ∈ edit.body.attributes, ∃ states, Describes a.payload [] states ∧
        Increasing states ∧ behindBranch.StatesFollow [⟨5, [], []⟩] states := by
  obtain ⟨⟨⟩, edit, hrun, -⟩ := accepts_eq_true.mp (show accepts (fun _ _ => true)
    (behindBranch.run [] ⟨branchBody, branchNames⟩) = true by decide +kernel)
  obtain ⟨attributes, added, hattributes, hrow, -⟩ := frames_follow_code behindBranch []
    branchBody branchNames edit (.inr (by decide : 2 ≤ 65536)) framesInside_branchBody hrun
  obtain ⟨a, ha, -, hmoved⟩ := exists_right_of_forall₂ hrow (List.mem_singleton_self _)
  obtain ⟨-, states, states', hstates, hstates', hincreasing, hfollow⟩ := hmoved rfl
  rw [hstates.unique describes_branchBody] at hfollow
  refine ⟨edit, hrun, a, ?_, states', hstates', hincreasing, hfollow⟩
  rw [hattributes]
  exact List.mem_append_left added ha

end Insertion

end Reshape
