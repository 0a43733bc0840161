import Mathlib.Algebra.Order.BigOperators.Group.List
import Mathlib.Algebra.Order.Group.Nat
import Reshape.Proofs.Frame.Canonical
import Reshape.Proofs.Frame.States

/-!
# Compressed frames

Compressing states loses nothing as long as each offset is within reach of the one before, and only
then.  It also wastes nothing.  A change that leads from one view to the next is either the one that
is found for the two, or it gives everything anew, which never takes fewer bytes; and which of the
two is taken makes no difference to the frames behind it.  So the compressed table is a shortest one
of all that can be read and stand for the same states.
-/

namespace Reshape

namespace FrameState

/-! ## §1 States within reach -/

/-- The offsets go up, and a delta of sixteen bits leads to each of them from the one before. -/
structure WithinReach (states : List FrameState) : Prop where
  increasing : Increasing states
  first : ∀ s ∈ states.head?, s.offset ≤ 65535
  steps : states.IsChain fun s s' => s'.offset - s.offset - 1 ≤ 65535

/-- Increasing offsets need only be compared with the next one. -/
theorem increasing_cons_cons {s s' : FrameState} {rest : List FrameState} :
    Increasing (s :: s' :: rest) ↔ s.offset < s'.offset ∧ Increasing (s' :: rest) := by
  constructor
  · intro h
    obtain ⟨hfirst, hrest⟩ := List.pairwise_cons.mp h
    exact ⟨hfirst s' List.mem_cons_self, hrest⟩
  · rintro ⟨hnext, hrest⟩
    refine List.pairwise_cons.mpr ⟨fun t ht => ?_, hrest⟩
    rcases List.mem_cons.mp ht with rfl | ht
    · exact hnext
    · exact Nat.lt_trans hnext ((List.pairwise_cons.mp hrest).1 t ht)

theorem spaced_cons_iff {rest : List FrameState} : ∀ {base : Nat} {s : FrameState},
    Spaced base (s :: rest) ↔ base ≤ s.offset ∧ s.offset - base ≤ 65535 ∧
      Increasing (s :: rest) ∧
        (s :: rest).IsChain fun s s' => s'.offset - s.offset - 1 ≤ 65535 := by
  induction rest with
  | nil =>
      intro base s
      simp only [Spaced, Increasing, List.pairwise_singleton, List.IsChain.singleton, and_true]
      omega
  | cons s' rest ih =>
      intro base s
      rw [Spaced, ih, increasing_cons_cons, List.isChain_cons_cons]
      constructor
      · rintro ⟨hbase, hdelta, hnext, hstep, hincreasing, hsteps⟩
        exact ⟨hbase, by omega, ⟨hnext, hincreasing⟩, by omega, hsteps⟩
      · rintro ⟨hbase, hdelta, ⟨hnext, hincreasing⟩, hstep, hsteps⟩
        exact ⟨hbase, by omega, hnext, by omega, hincreasing, hsteps⟩

theorem spaced_iff_withinReach {states : List FrameState} :
    Spaced 0 states ↔ WithinReach states := by
  cases states with
  | nil => exact ⟨fun _ => ⟨.nil, nofun, .nil⟩, fun _ => trivial⟩
  | cons s rest =>
      rw [spaced_cons_iff]
      constructor
      · rintro ⟨-, hfirst, hincreasing, hsteps⟩
        refine ⟨hincreasing, fun t ht => ?_, hsteps⟩
        cases ht
        exact hfirst
      · rintro ⟨hincreasing, hfirst, hsteps⟩
        exact ⟨Nat.zero_le _, hfirst s rfl, hincreasing, hsteps⟩

end FrameState

/-! ## §2 The size of a frame -/

namespace Frame

/-- The bytes of a tag and a delta, which a small delta is part of. -/
def headSize (delta : UInt16) : Nat := if delta ≤ maxTagDelta then 1 else 3

/-- The number of bytes that a frame takes. -/
def size (f : Frame) : Nat :=
  match f.change with
  | .same => headSize f.delta
  | .sameOneItem item => headSize f.delta + item.encode.length
  | .chop _ => 3
  | .append locals => 3 + (locals.flatMap VerificationType.encode).length
  | .full locals stack =>
    7 + (locals.flatMap VerificationType.encode).length +
      (stack.flatMap VerificationType.encode).length

theorem headSize_le (delta : UInt16) : headSize delta ≤ 3 := by
  unfold headSize
  split <;> decide

/-- The numbers of locals and stack items fit their fields. -/
def Countable (f : Frame) : Prop :=
  match f.change with
  | .full locals stack => locals.length < 65536 ∧ stack.length < 65536
  | _ => True

theorem encode_countable (table : Table) {items : List VerificationType}
    (h : items.length < 65536) : ∃ bs, table.encode VerificationType.encode items = .ok bs ∧
      bs.length = 2 + (items.flatMap VerificationType.encode).length := by
  refine ⟨_, Table.encode_eq_ok.mpr ⟨h, rfl⟩, ?_⟩
  rw [List.length_append, BigEndian.length_u16]

/-- A frame with such numbers can be stored, and takes as many bytes as it should. -/
theorem encode_size {f : Frame} (h : f.Countable) :
    ∃ bs, f.encode = .ok bs ∧ bs.length = f.size := by
  obtain ⟨delta, change⟩ := f
  have hdelta : (BigEndian.u16 delta).length = 2 := BigEndian.length_u16 delta
  cases change with
  | same =>
      refine ⟨_, rfl, ?_⟩
      simp only [size, headSize]
      split <;> simp [hdelta]
  | sameOneItem item =>
      refine ⟨_, rfl, ?_⟩
      simp only [size, headSize, List.length_append]
      split <;> simp [hdelta]
  | chop count => exact ⟨_, rfl, by simp [size, hdelta]⟩
  | append locals =>
      refine ⟨_, rfl, ?_⟩
      simp only [size, List.cons_append, List.length_cons, List.length_append, hdelta]
      omega
  | full locals stack =>
      obtain ⟨ls, hls, hlocals⟩ := encode_countable .frameLocals h.1
      obtain ⟨ss, hss, hstack⟩ := encode_countable .frameStack h.2
      refine ⟨255 :: BigEndian.u16 delta ++ ls ++ ss, ?_, ?_⟩
      · exact except_bind_eq_ok.mpr ⟨ls, hls, except_bind_eq_ok.mpr ⟨ss, hss, rfl⟩⟩
      · simp only [size, List.cons_append, List.length_cons, List.length_append, hdelta, hlocals,
          hstack]
        omega

/-- A table of such frames can be stored, behind the number of its frames. -/
theorem encodeAll_size {frames : List Frame} (hcount : frames.length < 65536)
    (h : ∀ f ∈ frames, f.Countable) :
    ∃ bs, encodeAll frames = .ok bs ∧ bs.length = 2 + (frames.map size).sum := by
  obtain ⟨bss, hbss, hlength⟩ : ∃ bss, List.Forall₂ (fun f bs => f.encode = .ok bs) frames bss ∧
      bss.flatten.length = (frames.map size).sum := by
    clear hcount
    induction frames with
    | nil => exact ⟨[], .nil, rfl⟩
    | cons f frames ih =>
        obtain ⟨bs, hbs, hsize⟩ := encode_size (h f List.mem_cons_self)
        obtain ⟨bss, hbss, hsizes⟩ := ih fun g hg => h g (List.mem_cons_of_mem f hg)
        refine ⟨bs :: bss, .cons hbs hbss, ?_⟩
        rw [List.flatten_cons, List.length_append, hsize, hsizes, List.map_cons, List.sum_cons]
  refine ⟨_, encodeAll_eq_ok.mpr ⟨bss, hcount, rfl, hbss⟩, ?_⟩
  rw [List.length_append, hlength, BigEndian.length_u16]

/-! ## §3 What a readable table takes -/

theorem Form.countable {f : Frame} {bs : Bytes} (h : Form f bs) : f.Countable := by
  cases h with
  | full delta hlocals hstack =>
      exact ⟨(Table.encode_eq_ok.mp hlocals).1, (Table.encode_eq_ok.mp hstack).1⟩
  | same | sameExtended | oneItem | oneItemExtended | chop | append => trivial

/-- **A frame that was read took at least its size.** -/
theorem Form.size_le {f : Frame} {bs : Bytes} (h : Form f bs) : f.size ≤ bs.length := by
  obtain ⟨stored, hstored, hsize⟩ := encode_size h.countable
  obtain ⟨new, hnew, hshort⟩ := h.shortened
  obtain rfl : stored = new := Except.ok.inj (hstored.symm.trans hnew)
  exact hsize ▸ hshort.length_le

/-- What is known of the frames of a payload. -/
theorem parseAll_ok {payload : Bytes} {frames : List Frame} (h : parseAll payload = .ok frames) :
    (∀ f ∈ frames, f.change.Storable ∧ f.Countable) ∧ frames.length < 65536 ∧
      2 + (frames.map size).sum ≤ payload.length := by
  obtain ⟨bss, hcount, rfl, hrow⟩ := parseAll_eq_ok.mp h
  refine ⟨fun f hf => ?_, hcount, ?_⟩
  · obtain ⟨bs, -, hform⟩ := exists_right_of_forall₂ hrow hf
    exact ⟨hform.storable, hform.countable⟩
  · rw [List.length_append, List.length_flatten, BigEndian.length_u16]
    refine Nat.add_le_add_left (List.Forall₂.sum_le_sum ?_) 2
    rw [List.forall₂_map_left_iff, List.forall₂_map_right_iff]
    exact hrow.imp fun _ _ hform => hform.size_le

end Frame

/-! ## §4 No other change is smaller -/

namespace FrameState

variable {before locals stack : List VerificationType}

/-- A change that leads from one view to another is the one that is found for them, or it gives
everything anew. -/
theorem changeFrom_of_apply {index : Nat} {change : FrameChange} (hstorable : change.Storable)
    (h : apply index before change = .ok (locals, stack)) :
    changeFrom before locals stack = change ∨ change = .full locals stack := by
  cases change with
  | same =>
      cases h
      exact .inl (if_pos (beq_self_eq_true before))
  | sameOneItem item =>
      cases h
      exact .inl (if_pos (beq_self_eq_true before))
  | chop count =>
      obtain ⟨hone, hthree⟩ : 1 ≤ count.toNat ∧ count.toNat ≤ 3 := hstorable
      rw [apply] at h
      split at h
      · next hcount =>
        cases h
        have hlength : (before.take (before.length - count.toNat)).length =
            before.length - count.toNat := by
          rw [List.length_take]
          omega
        have hsame : ¬ (before.take (before.length - count.toNat) == before) = true := by
          rw [beq_iff_eq]
          intro heq
          have := congrArg List.length heq
          omega
        have hlost : before.length - (before.length - count.toNat) = count.toNat := by omega
        left
        simp only [changeFrom]
        rw [if_neg hsame, hlength, hlost, UInt8.ofNat_toNat, if_pos]
        simp only [Bool.and_eq_true, decide_eq_true_eq, List.isPrefixOf_iff_prefix]
        exact ⟨⟨by omega, hthree⟩, List.take_prefix _ before⟩
      · cases h
  | append added =>
      obtain ⟨hone, hthree⟩ : 1 ≤ added.length ∧ added.length ≤ 3 := hstorable
      cases h
      have hsame : ¬ (before ++ added == before) = true := by
        rw [beq_iff_eq]
        intro heq
        have := congrArg List.length heq
        rw [List.length_append] at this
        omega
      left
      simp only [changeFrom]
      rw [if_neg hsame, if_neg, if_pos, List.drop_left]
      · simp only [Bool.and_eq_true, decide_eq_true_eq, List.isPrefixOf_iff_prefix,
          List.length_append]
        exact ⟨⟨by omega, by omega⟩, List.prefix_append before added⟩
      · simp only [Bool.and_eq_true, decide_eq_true_eq, List.length_append]
        omega
  | full locals' stack' =>
      cases h
      exact .inr rfl

/-- The frame can stand for the other one: it takes no more bytes, and it can be stored if the other
one can. -/
structure Replaces (g f : Frame) : Prop where
  size_le : g.size ≤ f.size
  countable : f.Countable → g.Countable

theorem replaces_full (delta : UInt16) :
    Replaces ⟨delta, changeFrom before locals stack⟩ ⟨delta, .full locals stack⟩ := by
  have hhead := Frame.headSize_le delta
  rcases changeFrom_cases before locals stack with ⟨rfl, rfl, h⟩ | ⟨item, rfl, rfl, h⟩ |
    ⟨lost, rfl, rfl, -, -, h⟩ | ⟨added, rfl, rfl, -, -, h⟩ | h
  · rw [h]
    refine ⟨?_, fun _ => trivial⟩
    simp only [Frame.size]
    omega
  · rw [h]
    refine ⟨?_, fun _ => trivial⟩
    simp only [Frame.size, List.flatMap_singleton]
    omega
  · rw [h]
    refine ⟨?_, fun _ => trivial⟩
    simp only [Frame.size]
    omega
  · rw [h]
    refine ⟨?_, fun _ => trivial⟩
    simp only [Frame.size, List.flatMap_append, List.length_append]
    omega
  · rw [h]
    exact ⟨Nat.le_refl _, id⟩

/-- **The change that is found is a smallest one.** -/
theorem replaces_of_apply {index : Nat} {change : FrameChange} (delta : UInt16)
    (hstorable : change.Storable) (h : apply index before change = .ok (locals, stack)) :
    Replaces ⟨delta, changeFrom before locals stack⟩ ⟨delta, change⟩ := by
  rcases changeFrom_of_apply hstorable h with hsame | rfl
  · rw [hsame]
    exact ⟨Nat.le_refl _, id⟩
  · exact replaces_full delta

/-- The states of frames are within reach, and the frames that are found for them can stand for
those they came from, one by one. -/
theorem recompressed (frames : List Frame) : ∀ {index base : Nat}
    {before : List VerificationType} {done states : List FrameState},
      (∀ f ∈ frames, f.change.Storable) → expandFrom index base before done frames = .ok states →
        ∃ added, states = done.reverse ++ added ∧ Spaced base added ∧
          List.Forall₂ Replaces (compressFrom base before [] added) frames := by
  induction frames with
  | nil =>
      intro index base before done states _ h
      cases h
      exact ⟨[], (List.append_nil _).symm, trivial, .nil⟩
  | cons f rest ih =>
      intro index base before done states hstorable h
      unfold expandFrom at h
      split at h
      · cases h
      · next locals stack happly =>
        obtain ⟨added, rfl, hspaced, hrow⟩ :=
          ih (fun g hg => hstorable g (List.mem_cons_of_mem f hg)) h
        refine ⟨⟨base + f.delta.toNat, locals, stack⟩ :: added, ?_, ?_, ?_⟩
        · rw [List.reverse_cons, List.append_assoc]
          rfl
        · have hdelta := f.delta.toNat_lt
          exact ⟨Nat.le_add_right _ _, by dsimp only; omega, hspaced⟩
        · rw [compressFrom_cons]
          dsimp only
          rw [Nat.add_sub_cancel_left, UInt16.ofNat_toNat]
          exact .cons (replaces_of_apply f.delta (hstorable f List.mem_cons_self) happly) hrow

/-! ## §5 Compressing -/

/-- **Compressing loses nothing** of states that are within reach of each other, and of no others,
and its frames take away or add from one to three locals. -/
theorem compress_lossless (states : List FrameState) (entry : List VerificationType) :
    (expand (compress states entry) entry = .ok states ↔ WithinReach states) ∧
      ∀ f ∈ compress states entry, f.change.Storable := by
  have hstorable : ∀ f ∈ compress states entry, f.change.Storable :=
    storable_of_compressFrom states 0 entry
  refine ⟨?_, hstorable⟩
  rw [← spaced_iff_withinReach]
  constructor
  · intro h
    obtain ⟨added, hadded, hspaced, -⟩ := recompressed _ hstorable h
    rwa [hadded]
  · exact expandFrom_compressFrom states 0 0 entry []

/-- All five kinds of changes, and a delta that is too large for a tag. -/
theorem compress_lossless_changes :
    let states : List FrameState := [⟨0, [.integer], []⟩, ⟨4, [.integer], [.null]⟩,
      ⟨9, [.integer, .long, .top], []⟩, ⟨74, [.integer, .long], []⟩, ⟨80, [.float], [.null]⟩]
    compress states [.integer] = [⟨0, .same⟩, ⟨3, .sameOneItem .null⟩, ⟨4, .append [.long, .top]⟩,
        ⟨64, .chop 1⟩, ⟨5, .full [.float] [.null]⟩] ∧
      expand (compress states [.integer]) [.integer] = .ok states := by
  intro states
  have hreach : WithinReach states := by
    refine ⟨?_, ?_, ?_⟩
    · unfold Increasing
      decide
    · rintro s ⟨⟩
      decide
    · decide
  exact ⟨by decide, (compress_lossless states [.integer]).1.mpr hreach⟩

/-- The states of frames that can be read are within reach, and the frames that are found for them
can be stored, in no more bytes than the frames they came from. -/
theorem compress_le {payload : Bytes} {frames : List Frame} {states : List FrameState}
    {entry : List VerificationType} (hread : Frame.parseAll payload = .ok frames)
    (hexpand : expand frames entry = .ok states) :
    Spaced 0 states ∧ ∃ shortest, Frame.encodeAll (compress states entry) = .ok shortest ∧
      shortest.length ≤ 2 + (frames.map Frame.size).sum := by
  obtain ⟨hkept, hcount, -⟩ := Frame.parseAll_ok hread
  obtain ⟨_, rfl, hspaced, hrow⟩ := recompressed frames (fun f hf => (hkept f hf).1) hexpand
  refine ⟨hspaced, ?_⟩
  have hsizes : ((compress states entry).map Frame.size).sum ≤ (frames.map Frame.size).sum := by
    refine List.Forall₂.sum_le_sum ?_
    rw [List.forall₂_map_left_iff, List.forall₂_map_right_iff]
    exact hrow.imp fun _ _ hreplaces => hreplaces.size_le
  have hcountable : ∀ g ∈ compress states entry, g.Countable := fun g hg => by
    obtain ⟨f, hf, hreplaces⟩ := exists_right_of_forall₂ hrow hg
    exact hreplaces.countable (hkept f hf).2
  obtain ⟨shortest, hshortest, hlength⟩ :=
    Frame.encodeAll_size (hrow.length_eq ▸ hcount) hcountable
  exact ⟨shortest, hshortest, hlength.trans_le (Nat.add_le_add_left hsizes 2)⟩

/-- **A compressed table is a shortest one.**  The states of any frames that can be read are
compressed to frames that can be stored, in no more bytes than the frames they came from, and in no
more bytes than any payload that stands for the same states. -/
theorem compress_shortest {payload : Bytes} {frames : List Frame} {states : List FrameState}
    {entry : List VerificationType} (hread : Frame.parseAll payload = .ok frames)
    (hexpand : expand frames entry = .ok states) :
    ∃ shortest stored, Frame.encodeAll (compress states entry) = .ok shortest ∧
      Frame.encodeAll frames = .ok stored ∧ shortest.length ≤ stored.length ∧
      Describes shortest entry states ∧
      ∀ other, Describes other entry states → shortest.length ≤ other.length := by
  obtain ⟨hkept, hcount, -⟩ := Frame.parseAll_ok hread
  obtain ⟨hspaced, shortest, hshortest, hle⟩ := compress_le hread hexpand
  obtain ⟨stored, hstored, hlength⟩ := Frame.encodeAll_size hcount fun f hf => (hkept f hf).2
  refine ⟨shortest, stored, hshortest, hstored, hle.trans hlength.ge, ?_, ?_⟩
  · have hback := Frame.parseAll_of_encodeAll (storable_of_compressFrom states 0 entry) hshortest
    exact ⟨_, hback, expandFrom_compressFrom states 0 0 entry [] hspaced⟩
  · rintro other ⟨frames', hread', hexpand'⟩
    obtain ⟨-, shortest', hshortest', hle'⟩ := compress_le hread' hexpand'
    obtain rfl : shortest = shortest' := Except.ok.inj (hshortest.symm.trans hshortest')
    exact hle'.trans (Frame.parseAll_ok hread').2.2

/-- A frame that gives everything anew and one with a delta of its own, neither of which had to. -/
theorem compress_shortest_unchanged :
    let states : List FrameState := [⟨0, [.integer], []⟩, ⟨1, [.integer], []⟩]
    Frame.parseAll [0, 2, 255, 0, 0, 0, 1, 1, 0, 0, 251, 0, 0] =
        .ok [⟨0, .full [.integer] []⟩, ⟨0, .same⟩] ∧
      Frame.encodeAll (compress states [.integer]) = .ok [0, 2, 0, 0] ∧
      ∃ shortest stored, Frame.encodeAll (compress states [.integer]) = .ok shortest ∧
        Frame.encodeAll [⟨0, .full [.integer] []⟩, ⟨0, .same⟩] = .ok stored ∧
        shortest.length ≤ stored.length ∧ Describes shortest [.integer] states ∧
        ∀ other, Describes other [.integer] states → shortest.length ≤ other.length :=
  have hread : Frame.parseAll [0, 2, 255, 0, 0, 0, 1, 1, 0, 0, 251, 0, 0] =
      .ok [⟨0, .full [.integer] []⟩, ⟨0, .same⟩] := rfl
  ⟨hread, rfl, compress_shortest hread rfl⟩

end FrameState

end Reshape
