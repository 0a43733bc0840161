import Reshape.Proofs.Frame.Stored
import Reshape.Proofs.Pool.Found

/-!
# What stored frames look like

A frame has one stored form, but for a delta that would fit into the tag and stands behind it
nevertheless.  So frames that were read can be stored again, and a table of them only changes where
it has such a frame, which then takes fewer bytes.
-/

namespace Reshape.Frame

/-! ## §1 The bytes of each frame -/

/-- The bytes of each of the `missing` frames that the data begins with. -/
def piecesFrom (missing : Nat) (data : Bytes) : List Bytes :=
  match missing with
  | 0 => []
  | missing + 1 =>
    match read ⟨0, data⟩ with
    | .ok _ c => data.take c.position :: piecesFrom missing c.rest
    | .error _ _ => []

/-- The bytes of each frame of a payload, whose first two bytes give their number. -/
def pieces (payload : Bytes) : List Bytes :=
  piecesFrom (BigEndian.value (payload.take 2)) (payload.drop 2)

theorem piecesFrom_flatten {fs : List Frame} {bss : List Bytes} (h : List.Forall₂ Form fs bss) :
    piecesFrom fs.length bss.flatten = bss := by
  induction h with
  | nil => rfl
  | @cons f bs fs bss hform hrow ih =>
      have hread := hform.reads 0 bss.flatten
      rw [Nat.zero_add] at hread
      rw [List.length_cons, List.flatten_cons, piecesFrom]
      simp only [hread, List.take_left, ih]

theorem pieces_of_row {fs : List Frame} {bss : List Bytes} (h : List.Forall₂ Form fs bss)
    (hlength : fs.length < 65536) :
    pieces (BigEndian.u16 (UInt16.ofNat fs.length) ++ bss.flatten) = bss := by
  have htwo : (BigEndian.u16 (UInt16.ofNat fs.length)).length = 2 := BigEndian.length_u16 _
  unfold pieces
  rw [List.take_left' htwo, List.drop_left' htwo, BigEndian.value_u16,
    UInt16.toNat_ofNat_of_lt' hlength]
  exact piecesFrom_flatten h

/-- A frame whose delta would fit into its tag, but stands behind it: the tag is that of a frame
with the same locals and with one stack item or none, and with a delta of its own. -/
def Overlong (bs : Bytes) : Prop :=
  (bs.head? = some 247 ∨ bs.head? = some 251) ∧ BigEndian.value ((bs.drop 1).take 2) ≤ 63

instance : DecidablePred Overlong := fun _ => inferInstanceAs (Decidable (_ ∧ _))

theorem not_overlong {tag : UInt8} (hone : tag ≠ 247) (hsame : tag ≠ 251) (rest : Bytes) :
    ¬ Overlong (tag :: rest) := by
  rintro ⟨h | h, -⟩
  · exact hone (Option.some.inj h)
  · exact hsame (Option.some.inj h)

theorem overlong_iff {tag : UInt8} (htag : tag = 247 ∨ tag = 251) (delta : UInt16) (rest : Bytes) :
    Overlong (tag :: (BigEndian.u16 delta ++ rest)) ↔ delta ≤ maxTagDelta := by
  have hdelta : (BigEndian.u16 delta ++ rest).take 2 = BigEndian.u16 delta :=
    List.take_left' (BigEndian.length_u16 delta)
  unfold Overlong
  rw [List.drop_one, List.tail_cons, hdelta, BigEndian.value_u16, UInt16.le_iff_toNat_le]
  exact and_iff_right (htag.imp (congrArg some) (congrArg some))

/-! ## §2 Storing again -/

/-- A delta behind the tag moves into it if there is room. -/
theorem shortened_head {tag : UInt8} (htag : tag = 247 ∨ tag = 251) (delta : UInt16) (small : UInt8)
    (behind : Bytes) :
    Pool.Shortened (¬ Overlong (tag :: (BigEndian.u16 delta ++ behind)))
      (tag :: (BigEndian.u16 delta ++ behind))
      ((if delta ≤ maxTagDelta then [small] else tag :: BigEndian.u16 delta) ++ behind) := by
  rw [overlong_iff htag]
  by_cases hdelta : delta ≤ maxTagDelta
  · rw [if_pos hdelta]
    refine .inr ⟨not_not_intro hdelta, ?_⟩
    simp only [List.length_append, List.length_cons, List.length_nil, BigEndian.length_u16]
    omega
  · rw [if_neg hdelta, List.cons_append]
    exact .refl hdelta _

/-- **A frame that was read can be stored**, and takes fewer bytes if it was too long. -/
theorem Form.shortened {f : Frame} {bs : Bytes} (h : Form f bs) :
    ∃ new, f.encode = .ok new ∧ Pool.Shortened (¬ Overlong bs) bs new := by
  have hsmall {delta : UInt8} (h : delta.toNat ≤ 63) : delta.toUInt16 ≤ maxTagDelta :=
    UInt16.le_iff_toNat_le.mpr (by rwa [UInt8.toNat_toUInt16])
  have hbelow {tag : UInt8} (h : tag.toNat < 128) (rest : Bytes) : ¬ Overlong (tag :: rest) := by
    apply not_overlong <;> rintro rfl <;> exact absurd h (by decide)
  cases h with
  | @same delta small =>
      refine ⟨[delta], ?_, .refl (hbelow (by omega) []) _⟩
      simp only [encode, if_pos (hsmall small), UInt8.toUInt8_toUInt16]
  | sameExtended delta =>
      have hshort := shortened_head (.inr rfl) delta delta.toUInt8 []
      rw [List.append_nil, List.append_nil] at hshort
      exact ⟨_, rfl, hshort⟩
  | @oneItem delta small item =>
      have htag := toNat_tag small
      refine ⟨(64 + delta) :: item.encode, ?_, .refl (hbelow (by omega) _) _⟩
      simp only [encode, if_pos (hsmall small), UInt8.toUInt8_toUInt16, List.singleton_append]
  | oneItemExtended delta item =>
      exact ⟨_, rfl, shortened_head (.inl rfl) delta (64 + delta.toUInt8) item.encode⟩
  | @chop delta count room =>
      refine ⟨_, rfl, .refl ?_ _⟩
      rcases FrameChange.chop_cases room with rfl | rfl | rfl <;>
        exact not_overlong (by decide) (by decide) _
  | @append delta locals room =>
      refine ⟨_, rfl, .refl ?_ _⟩
      rcases FrameChange.append_cases room with hlength | hlength | hlength <;> rw [hlength] <;>
        exact not_overlong (by decide) (by decide) _
  | full delta hlocals hstack =>
      refine ⟨_, ?_, .refl (not_overlong (by decide) (by decide) _) _⟩
      exact except_bind_eq_ok.mpr ⟨_, hlocals, except_bind_eq_ok.mpr ⟨_, hstack, rfl⟩⟩

/-- The frames of a row one by one. -/
theorem shortened_row {fs : List Frame} {bss : List Bytes} (h : List.Forall₂ Form fs bss) :
    ∃ new, List.Forall₂ (fun f bs => f.encode = .ok bs) fs new ∧
      Pool.Shortened (∀ bs ∈ bss, ¬ Overlong bs) bss.flatten new.flatten := by
  induction h with
  | nil => exact ⟨[], .nil, .refl nofun []⟩
  | @cons f bs fs bss hform hrow ih =>
      obtain ⟨own, hown, hshort⟩ := hform.shortened
      obtain ⟨new, hnew, hshorts⟩ := ih
      refine ⟨own :: new, .cons hown hnew, ?_⟩
      rw [List.forall_mem_cons]
      exact hshort.append hshorts

/-- **Frames and their bytes.**  Frames that take away or add from one to three locals are read back
from what is written of them.  The other way round, frames that can be read can be stored, never in
more bytes than they were read from, and in the very same bytes if and only if none of these frames
has a small delta behind its tag. -/
theorem frames_exact (frames : List Frame) (payload : Bytes) :
    ((∀ f ∈ frames, f.change.Storable) → encodeAll frames = .ok payload →
        parseAll payload = .ok frames) ∧
      (parseAll payload = .ok frames → ∃ stored, encodeAll frames = .ok stored ∧
        stored.length ≤ payload.length ∧
        (stored = payload ↔ ∀ bs ∈ pieces payload, ¬ Overlong bs)) := by
  refine ⟨fun hstorable => parseAll_of_encodeAll hstorable, fun h => ?_⟩
  obtain ⟨bss, hlength, rfl, hrow⟩ := parseAll_eq_ok.mp h
  obtain ⟨new, hnew, hshort⟩ := shortened_row hrow
  refine ⟨_, encodeAll_eq_ok.mpr ⟨new, hlength, rfl, hnew⟩, ?_, ?_⟩
  · rw [List.length_append, List.length_append]
    exact Nat.add_le_add_left hshort.length_le _
  · rw [List.append_cancel_left_eq, pieces_of_row hrow hlength]
    exact hshort.eq_iff

/-- Of three frames the second one has a small delta behind its tag. -/
theorem frames_exact_overlong :
    parseAll [0, 3, 251, 0, 64, 251, 0, 5, 67, 5] =
        .ok [⟨64, .same⟩, ⟨5, .same⟩, ⟨3, .sameOneItem .null⟩] ∧
      pieces [0, 3, 251, 0, 64, 251, 0, 5, 67, 5] = [[251, 0, 64], [251, 0, 5], [67, 5]] ∧
      ∃ stored, encodeAll [⟨64, .same⟩, ⟨5, .same⟩, ⟨3, .sameOneItem .null⟩] = .ok stored ∧
        stored.length ≤ 10 ∧ stored ≠ [0, 3, 251, 0, 64, 251, 0, 5, 67, 5] ∧
        parseAll stored = .ok [⟨64, .same⟩, ⟨5, .same⟩, ⟨3, .sameOneItem .null⟩] := by
  have hread : parseAll [0, 3, 251, 0, 64, 251, 0, 5, 67, 5] =
      .ok [⟨64, .same⟩, ⟨5, .same⟩, ⟨3, .sameOneItem .null⟩] := rfl
  obtain ⟨stored, hstored, hle, hsame⟩ := (frames_exact _ _).2 hread
  refine ⟨hread, rfl, stored, hstored, hle, ?_, (frames_exact _ stored).1 ?_ hstored⟩
  · rw [Ne, hsame]
    decide
  · intro f hf
    simp only [List.mem_cons, List.not_mem_nil, or_false] at hf
    rcases hf with rfl | rfl | rfl <;> trivial

end Reshape.Frame
