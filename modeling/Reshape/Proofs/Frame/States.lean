import Reshape.Proofs.Frame.Stored

/-!
# States are read back

The change between two views is found so that applying it to the first view gives the second, and
so that a frame can hold it.  As long as each offset is within reach of the one before, the frames
of a row of states therefore give the row again; and the states of any frames lie in order.
-/

namespace Reshape

namespace FrameState

/-! ## §1 One change -/

variable {before locals stack : List VerificationType}

/-- The kinds of change that are found for two views. -/
theorem changeFrom_cases (before locals stack : List VerificationType) :
    (stack = [] ∧ locals = before ∧ changeFrom before locals stack = .same) ∨
    (∃ item, stack = [item] ∧ locals = before ∧
      changeFrom before locals stack = .sameOneItem item) ∨
    (∃ lost, stack = [] ∧ before = locals ++ lost ∧ 1 ≤ lost.length ∧ lost.length ≤ 3 ∧
      changeFrom before locals stack = .chop (UInt8.ofNat lost.length)) ∨
    (∃ added, stack = [] ∧ locals = before ++ added ∧ 1 ≤ added.length ∧ added.length ≤ 3 ∧
      changeFrom before locals stack = .append added) ∨
    changeFrom before locals stack = .full locals stack := by
  unfold changeFrom
  match stack with
  | [] =>
      dsimp only
      by_cases hsame : locals = before
      · subst hsame
        exact .inl ⟨rfl, rfl, if_pos (beq_self_eq_true locals)⟩
      rw [if_neg (by simpa using hsame)]
      split
      · next hchop =>
        simp only [Bool.and_eq_true, decide_eq_true_eq, List.isPrefixOf_iff_prefix] at hchop
        obtain ⟨⟨hshorter, hthree⟩, lost, rfl⟩ := hchop
        rw [List.length_append, Nat.add_sub_cancel_left] at hthree ⊢
        rw [List.length_append] at hshorter
        exact .inr (.inr (.inl ⟨lost, rfl, rfl, by omega, hthree, rfl⟩))
      · split
        · next happend =>
          simp only [Bool.and_eq_true, decide_eq_true_eq, List.isPrefixOf_iff_prefix] at happend
          obtain ⟨⟨hlonger, hthree⟩, added, rfl⟩ := happend
          rw [List.length_append, Nat.add_sub_cancel_left] at hthree
          rw [List.length_append] at hlonger
          exact .inr (.inr (.inr (.inl ⟨added, rfl, rfl, by omega, hthree,
            congrArg FrameChange.append List.drop_left⟩)))
        · exact .inr (.inr (.inr (.inr rfl)))
  | [item] =>
      dsimp only
      by_cases hsame : locals = before
      · subst hsame
        exact .inr (.inl ⟨item, rfl, rfl, if_pos (beq_self_eq_true locals)⟩)
      · rw [if_neg (by simpa using hsame)]
        exact .inr (.inr (.inr (.inr rfl)))
  | item :: item' :: rest => exact .inr (.inr (.inr (.inr rfl)))

/-- **The change found for two views leads from one to the other.** -/
theorem apply_changeFrom (index : Nat) :
    apply index before (changeFrom before locals stack) = .ok (locals, stack) := by
  rcases changeFrom_cases before locals stack with ⟨rfl, rfl, h⟩ | ⟨item, rfl, rfl, h⟩ |
    ⟨lost, rfl, rfl, hone, hthree, h⟩ | ⟨added, rfl, rfl, -, -, h⟩ | h
  · rw [h, apply]
  · rw [h, apply]
  · have hcount : (UInt8.ofNat lost.length).toNat = lost.length :=
      UInt8.toNat_ofNat_of_lt' (show lost.length < 256 by omega)
    rw [h, apply, hcount, if_pos (by rw [List.length_append]; omega), List.length_append,
      Nat.add_sub_cancel, List.take_left]
  · rw [h, apply]
  · rw [h, apply]

theorem storable_changeFrom : (changeFrom before locals stack).Storable := by
  rcases changeFrom_cases before locals stack with ⟨rfl, rfl, h⟩ | ⟨item, rfl, rfl, h⟩ |
    ⟨lost, rfl, rfl, hone, hthree, h⟩ | ⟨added, rfl, rfl, hone, hthree, h⟩ | h
  · rw [h]
    exact trivial
  · rw [h]
    exact trivial
  · have hcount : (UInt8.ofNat lost.length).toNat = lost.length :=
      UInt8.toNat_ofNat_of_lt' (show lost.length < 256 by omega)
    rw [h]
    show 1 ≤ (UInt8.ofNat lost.length).toNat ∧ (UInt8.ofNat lost.length).toNat ≤ 3
    rw [hcount]
    exact ⟨hone, hthree⟩
  · rw [h]
    exact ⟨hone, hthree⟩
  · rw [h]
    exact trivial

/-! ## §2 Rows of frames and states -/

theorem compressFrom_eq (states : List FrameState) : ∀ (base : Nat)
    (before : List VerificationType) (done : List Frame),
      compressFrom base before done states =
        done.reverse ++ compressFrom base before [] states := by
  induction states with
  | nil =>
      intro base before done
      rw [compressFrom, compressFrom, List.reverse_nil, List.append_nil]
  | cons s rest ih =>
      intro base before done
      rw [compressFrom, compressFrom, ih, ih _ _ [_], List.reverse_cons, List.append_assoc]
      rfl

theorem compressFrom_cons (base : Nat) (before : List VerificationType) (s : FrameState)
    (rest : List FrameState) :
    compressFrom base before [] (s :: rest) =
      ⟨UInt16.ofNat (s.offset - base), changeFrom before s.locals s.stack⟩ ::
        compressFrom (s.offset + 1) s.locals [] rest := by
  rw [compressFrom, compressFrom_eq]
  rfl

theorem storable_of_compressFrom (states : List FrameState) : ∀ (base : Nat)
    (before : List VerificationType), ∀ f ∈ compressFrom base before [] states,
      f.change.Storable := by
  induction states with
  | nil =>
      intro base before f hf
      cases hf
  | cons s rest ih =>
      intro base before f hf
      rw [compressFrom_cons] at hf
      rcases List.mem_cons.mp hf with rfl | hf
      · exact storable_changeFrom
      · exact ih _ _ f hf

/-- Each offset can be reached by one delta from the one before. -/
def Spaced (base : Nat) : List FrameState → Prop
  | [] => True
  | s :: rest => base ≤ s.offset ∧ s.offset - base < 65536 ∧ Spaced (s.offset + 1) rest

theorem expandFrom_compressFrom (states : List FrameState) : ∀ (index base : Nat)
    (before : List VerificationType) (done : List FrameState), Spaced base states →
      expandFrom index base before done (compressFrom base before [] states) =
        .ok (done.reverse ++ states) := by
  induction states with
  | nil =>
      intro index base before done _
      rw [compressFrom, List.reverse_nil, expandFrom, List.append_nil]
  | cons s rest ih =>
      intro index base before done hspaced
      obtain ⟨hbase, hdelta, hrest⟩ := hspaced
      have hoffset : base + (UInt16.ofNat (s.offset - base)).toNat = s.offset := by
        rw [UInt16.toNat_ofNat_of_lt' hdelta]
        omega
      rw [compressFrom_cons, expandFrom, apply_changeFrom]
      dsimp only
      rw [hoffset, ih _ _ _ _ hrest, List.reverse_cons, List.append_assoc]
      rfl

/-- The states of frames lie in order, and none before the base. -/
theorem expandFrom_ok (frames : List Frame) : ∀ {index base : Nat}
    {locals : List VerificationType} {done states : List FrameState},
      expandFrom index base locals done frames = .ok states →
        ∃ added, states = done.reverse ++ added ∧ (∀ s ∈ added, base ≤ s.offset) ∧
          added.Pairwise fun s s' => s.offset < s'.offset := by
  induction frames with
  | nil =>
      intro index base locals done states h
      cases h
      exact ⟨[], (List.append_nil _).symm, nofun, .nil⟩
  | cons f rest ih =>
      intro index base locals done states h
      unfold expandFrom at h
      split at h
      · cases h
      · next locals' stack happly =>
        obtain ⟨added, rfl, hbase, hpairs⟩ := ih h
        refine ⟨⟨base + f.delta.toNat, locals', stack⟩ :: added, ?_, ?_, ?_⟩
        · rw [List.reverse_cons, List.append_assoc]
          rfl
        · intro s hs
          rcases List.mem_cons.mp hs with rfl | hs
          · exact Nat.le_add_right _ _
          · have := hbase s hs
            omega
        · exact List.pairwise_cons.mpr ⟨fun s hs => hbase s hs, hpairs⟩

/-! ## §3 Stored tables -/

/-- The states lie one behind the other. -/
def Increasing (states : List FrameState) : Prop :=
  states.Pairwise fun s s' => s.offset < s'.offset

theorem Increasing.spaced {states : List FrameState} : ∀ {base : Nat}, Increasing states →
    (∀ s ∈ states, base ≤ s.offset ∧ s.offset < 65536) → Spaced base states := by
  induction states with
  | nil =>
      intro base _ _
      exact trivial
  | cons s rest ih =>
      intro base hpairs hbounds
      obtain ⟨hfirst, hrest⟩ := List.pairwise_cons.mp hpairs
      obtain ⟨hbase, hlast⟩ := hbounds s List.mem_cons_self
      refine ⟨hbase, by omega, ih hrest ?_⟩
      intro s' hs'
      exact ⟨hfirst s' hs', (hbounds s' (List.mem_cons_of_mem s hs')).2⟩

/-- The payload of a frame table stands for the states, seen from the locals on entry. -/
def Describes (payload : Bytes) (entry : List VerificationType) (states : List FrameState) : Prop :=
  ∃ frames, Frame.parseAll payload = .ok frames ∧ expand frames entry = .ok states

variable {payload : Bytes} {entry : List VerificationType} {states states' : List FrameState}

theorem Describes.unique (h : Describes payload entry states)
    (h' : Describes payload entry states') : states = states' := by
  obtain ⟨frames, hframes, hstates⟩ := h
  obtain ⟨frames', hframes', hstates'⟩ := h'
  cases hframes.symm.trans hframes'
  exact Except.ok.inj (hstates.symm.trans hstates')

theorem Describes.increasing (h : Describes payload entry states) : Increasing states := by
  obtain ⟨frames, -, hstates⟩ := h
  obtain ⟨added, rfl, -, hpairs⟩ := expandFrom_ok frames hstates
  exact hpairs

/-- **States that are stored are read back.** -/
theorem describes_of_encode (hincreasing : Increasing states)
    (hsmall : ∀ s ∈ states, s.offset < 65536)
    (h : Frame.encodeAll (compress states entry) = .ok payload) :
    Describes payload entry states := by
  refine ⟨compress states entry, ?_, ?_⟩
  · exact Frame.parseAll_of_encodeAll (storable_of_compressFrom states 0 entry) h
  · have hspaced : Spaced 0 states :=
      hincreasing.spaced fun s hs => ⟨Nat.zero_le _, hsmall s hs⟩
    exact expandFrom_compressFrom states 0 0 entry [] hspaced

end FrameState

end Reshape
