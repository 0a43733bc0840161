import Reshape.Frame.State
import Reshape.Proofs.Bytes.Whole

/-!
# Frames are read back

Each verification type has a tag of its own, and each frame a tag that tells its kind.  The tags
leave room for one to three locals taken away or added, so frames that keep to this are read back
from what was written.  A reader takes a little more than is ever written: a small delta may stand
behind the tag, although there is room for it in the tag.
-/

namespace Reshape

/-! ## §1 Verification types -/

namespace VerificationType

theorem reads_encode (t : VerificationType) : Reads VerificationType.read t.encode t := by
  cases t with
  | top => exact .bind (.u8 0) (.pure _)
  | integer => exact .bind (.u8 1) (.pure _)
  | float => exact .bind (.u8 2) (.pure _)
  | double => exact .bind (.u8 3) (.pure _)
  | long => exact .bind (.u8 4) (.pure _)
  | null => exact .bind (.u8 5) (.pure _)
  | uninitializedThis => exact .bind (.u8 6) (.pure _)
  | object constant => exact .bind (.u8 7) (.last _ (.u16 constant))
  | uninitialized offset => exact .bind (.u8 8) (.last _ (.u16 offset))

theorem finds_read : Finds VerificationType.read fun t bs => bs = t.encode := by
  refine .bind .u8 fun tag bs hbs => ?_
  subst hbs
  have htag {n : Nat} (h : tag.toNat = n) : tag = UInt8.ofNat n := by
    rw [← h, UInt8.ofNat_toNat]
  split
  · next h => exact .pure (by rw [htag h]; rfl)
  · next h => exact .pure (by rw [htag h]; rfl)
  · next h => exact .pure (by rw [htag h]; rfl)
  · next h => exact .pure (by rw [htag h]; rfl)
  · next h => exact .pure (by rw [htag h]; rfl)
  · next h => exact .pure (by rw [htag h]; rfl)
  · next h => exact .pure (by rw [htag h]; rfl)
  · next h => exact .last .u16 fun constant cs hcs => by rw [htag h, hcs]; rfl
  · next h => exact .last .u16 fun offset cs hcs => by rw [htag h, hcs]; rfl
  · exact .throw _

end VerificationType

/-! ## §2 The forms of a frame -/

/-- The tags have room for the change. -/
def FrameChange.Storable : FrameChange → Prop
  | .chop count => 1 ≤ count.toNat ∧ count.toNat ≤ 3
  | .append locals => 1 ≤ locals.length ∧ locals.length ≤ 3
  | _ => True

theorem FrameChange.chop_cases {count : UInt8} (h : (chop count).Storable) :
    count = 1 ∨ count = 2 ∨ count = 3 := by
  obtain ⟨hone, hthree⟩ : 1 ≤ count.toNat ∧ count.toNat ≤ 3 := h
  simp only [← UInt8.toNat_inj]
  show count.toNat = 1 ∨ count.toNat = 2 ∨ count.toNat = 3
  omega

theorem FrameChange.append_cases {locals : List VerificationType} (h : (append locals).Storable) :
    locals.length = 1 ∨ locals.length = 2 ∨ locals.length = 3 := by
  obtain ⟨hone, hthree⟩ : 1 ≤ locals.length ∧ locals.length ≤ 3 := h
  omega

namespace Frame

/-- The bytes of which a frame can be read.  Two kinds have a form with a small delta in the tag, and
one for any delta. -/
inductive Form : Frame → Bytes → Prop
  | same {delta : UInt8} (small : delta.toNat ≤ 63) : Form ⟨delta.toUInt16, .same⟩ [delta]
  | sameExtended (delta : UInt16) : Form ⟨delta, .same⟩ (251 :: BigEndian.u16 delta)
  | oneItem {delta : UInt8} (small : delta.toNat ≤ 63) (item : VerificationType) :
      Form ⟨delta.toUInt16, .sameOneItem item⟩ ((64 + delta) :: item.encode)
  | oneItemExtended (delta : UInt16) (item : VerificationType) :
      Form ⟨delta, .sameOneItem item⟩ (247 :: (BigEndian.u16 delta ++ item.encode))
  | chop (delta : UInt16) {count : UInt8} (room : (FrameChange.chop count).Storable) :
      Form ⟨delta, .chop count⟩ ((251 - count) :: BigEndian.u16 delta)
  | append (delta : UInt16) {locals : List VerificationType}
      (room : (FrameChange.append locals).Storable) :
      Form ⟨delta, .append locals⟩ ((251 + UInt8.ofNat locals.length) ::
        (BigEndian.u16 delta ++ locals.flatMap VerificationType.encode))
  | full (delta : UInt16) {locals stack : List VerificationType} {ls ss : Bytes}
      (hlocals : Table.frameLocals.encode VerificationType.encode locals = .ok ls)
      (hstack : Table.frameStack.encode VerificationType.encode stack = .ok ss) :
      Form ⟨delta, .full locals stack⟩ (255 :: (BigEndian.u16 delta ++ (ls ++ ss)))

/-- A small delta and a tag above it. -/
theorem toNat_tag {delta : UInt8} (h : delta.toNat ≤ 63) : (64 + delta).toNat = 64 + delta.toNat := by
  rw [UInt8.toNat_add]
  show (64 + delta.toNat) % 256 = _
  omega

/-- **A frame is read from its forms.** -/
theorem Form.reads {f : Frame} {bs : Bytes} (h : Form f bs) : Reads read bs f := by
  cases h with
  | @same delta small =>
      have htag : delta < 64 := UInt8.lt_iff_toNat_lt.mpr (Nat.lt_succ_of_le small)
      refine .bind (.u8 delta) ?_
      rw [if_pos htag]
      exact .pure _
  | sameExtended delta => exact .bind (.u8 251) (.last _ (.u16 delta))
  | @oneItem delta small item =>
      have hpast : ¬ 64 + delta < 64 := by
        rw [UInt8.lt_iff_toNat_lt, toNat_tag small]
        exact Nat.not_lt.mpr (Nat.le_add_right 64 _)
      have hbefore : 64 + delta < 128 := by
        rw [UInt8.lt_iff_toNat_lt, toNat_tag small]
        show _ < 128
        omega
      have hdelta : 64 + delta - 64 = delta := by
        rw [UInt8.add_comm, UInt8.add_sub_cancel]
      refine .bind (.u8 (64 + delta)) ?_
      rw [if_neg hpast, if_pos hbefore, hdelta]
      exact .last _ item.reads_encode
  | oneItemExtended delta item =>
      exact .bind (.u8 247) (.bind (.u16 delta) (.last _ item.reads_encode))
  | @chop delta count room =>
      rcases FrameChange.chop_cases room with rfl | rfl | rfl
      · exact .bind (.u8 250) (.last _ (.u16 delta))
      · exact .bind (.u8 249) (.last _ (.u16 delta))
      · exact .bind (.u8 248) (.last _ (.u16 delta))
  | @append delta locals room =>
      have hrow := Reads.times fun t (_ : t ∈ locals) => t.reads_encode
      rcases FrameChange.append_cases room with hlength | hlength | hlength <;>
        rw [hlength] at hrow ⊢
      · exact .bind (.u8 252) (.bind (.u16 delta) (.last _ hrow))
      · exact .bind (.u8 253) (.bind (.u16 delta) (.last _ hrow))
      · exact .bind (.u8 254) (.bind (.u16 delta) (.last _ hrow))
  | full delta hlocals hstack =>
      have hls := Table.reads_encode (fun t _ => t.reads_encode) hlocals
      have hss := Table.reads_encode (fun t _ => t.reads_encode) hstack
      exact .bind (.u8 255) (.bind (.u16 delta) (.bind hls (.last _ hss)))

/-- **Whatever is read as a frame has one of its forms.** -/
theorem finds_form : Finds read Form := by
  refine .bind .u8 fun tag bs hbs => ?_
  subst hbs
  simp only [UInt8.lt_iff_toNat_lt, ← UInt8.toNat_inj, UInt8.reduceToNat, List.singleton_append]
  by_cases hsame : tag.toNat < 64
  · rw [if_pos hsame]
    exact .pure (.same (Nat.le_of_lt_succ hsame))
  rw [if_neg hsame]
  by_cases hone : tag.toNat < 128
  · rw [if_pos hone]
    have hdelta : (tag - 64 : UInt8).toNat = tag.toNat - 64 :=
      UInt8.toNat_sub_of_le _ _ (UInt8.le_iff_toNat_le.mpr (Nat.le_of_not_lt hsame))
    have htag : 64 + (tag - 64) = tag := by rw [UInt8.add_comm, UInt8.sub_add_cancel]
    refine .last VerificationType.finds_read fun item bs hbs => ?_
    have hform := @Form.oneItem (tag - 64) (by omega) item
    rwa [htag, ← hbs] at hform
  rw [if_neg hone]
  by_cases hunknown : tag.toNat < 247
  · rw [if_pos hunknown]
    exact .throw _
  rw [if_neg hunknown]
  refine .bind .u16 fun delta ds hds => ?_
  subst hds
  by_cases hlong : tag.toNat = 247
  · rw [if_pos hlong]
    obtain rfl : tag = 247 := UInt8.toNat_inj.mp hlong
    exact .last VerificationType.finds_read fun item bs hbs => hbs ▸ .oneItemExtended delta item
  rw [if_neg hlong]
  by_cases hchop : tag.toNat < 251
  · rw [if_pos hchop]
    have hcount : (251 - tag : UInt8).toNat = 251 - tag.toNat :=
      UInt8.toNat_sub_of_le _ _ (UInt8.le_iff_toNat_le.mpr (Nat.le_of_lt hchop))
    have htag : 251 - (251 - tag) = tag := by grind
    have hroom : (FrameChange.chop (251 - tag)).Storable := by
      constructor <;> omega
    have hform := Form.chop delta hroom
    rw [htag] at hform
    exact .pure (by rwa [List.append_nil])
  rw [if_neg hchop]
  by_cases hsame' : tag.toNat = 251
  · rw [if_pos hsame']
    obtain rfl : tag = 251 := UInt8.toNat_inj.mp hsame'
    exact .pure (by rw [List.append_nil]; exact .sameExtended delta)
  rw [if_neg hsame']
  by_cases happend : tag.toNat < 255
  · rw [if_pos happend]
    have hcount : (tag - 251 : UInt8).toNat = tag.toNat - 251 :=
      UInt8.toNat_sub_of_le _ _ (UInt8.le_iff_toNat_le.mpr (Nat.le_of_not_lt hchop))
    refine .last (Finds.times VerificationType.finds_read _) fun locals bs hrow => ?_
    obtain ⟨hlength, rfl⟩ := hrow
    have htag : 251 + UInt8.ofNat locals.length = tag := by
      rw [hlength, UInt8.ofNat_toNat, UInt8.add_comm, UInt8.sub_add_cancel]
    have hroom : (FrameChange.append locals).Storable := by
      constructor <;> omega
    have hform := Form.append delta hroom
    rwa [htag] at hform
  · rw [if_neg happend]
    obtain rfl : tag = 255 := by
      have hlt := tag.toNat_lt
      apply UInt8.toNat_inj.mp
      show tag.toNat = 255
      omega
    have hfinds (table : Table) : Finds (Reader.counted VerificationType.read)
        fun ts bs => table.encode VerificationType.encode ts = .ok bs :=
      Table.finds_encode VerificationType.finds_read
    refine .bind (hfinds .frameLocals) fun locals ls hls => ?_
    exact .last (hfinds .frameStack) fun stack ss hss => .full delta hls hss

theorem Form.storable {f : Frame} {bs : Bytes} (h : Form f bs) : f.change.Storable := by
  cases h with
  | chop delta room => exact room
  | append delta room => exact room
  | same | sameExtended | oneItem | oneItemExtended | full => trivial

/-- A delta that is part of a tag. -/
theorem exists_of_le_maxTagDelta {delta : UInt16} (h : delta ≤ maxTagDelta) :
    ∃ small : UInt8, small.toNat ≤ 63 ∧ delta = small.toUInt16 := by
  have hdelta : delta.toNat ≤ 63 := UInt16.le_iff_toNat_le.mp h
  have hsmall : delta.toUInt8.toNat = delta.toNat := by
    rw [UInt16.toNat_toUInt8]
    omega
  refine ⟨delta.toUInt8, by omega, UInt16.toNat_inj.mp ?_⟩
  rw [UInt8.toNat_toUInt16, hsmall]

/-- What is written for a frame is a form of it. -/
theorem form_of_encode {f : Frame} (hf : f.change.Storable) {bs : Bytes} (h : f.encode = .ok bs) :
    Form f bs := by
  obtain ⟨delta, change⟩ := f
  cases change with
  | same =>
      cases h
      by_cases hdelta : delta ≤ maxTagDelta
      · obtain ⟨small, hsmall, rfl⟩ := exists_of_le_maxTagDelta hdelta
        rw [if_pos hdelta, UInt8.toUInt8_toUInt16]
        exact .same hsmall
      · rw [if_neg hdelta]
        exact .sameExtended delta
  | sameOneItem item =>
      cases h
      by_cases hdelta : delta ≤ maxTagDelta
      · obtain ⟨small, hsmall, rfl⟩ := exists_of_le_maxTagDelta hdelta
        rw [if_pos hdelta, UInt8.toUInt8_toUInt16]
        exact .oneItem hsmall item
      · rw [if_neg hdelta]
        exact .oneItemExtended delta item
  | chop count =>
      cases h
      exact .chop delta hf
  | append locals =>
      cases h
      exact .append delta hf
  | full locals stack =>
      obtain ⟨ls, hls, h⟩ := except_bind_eq_ok.mp h
      obtain ⟨ss, hss, h⟩ := except_bind_eq_ok.mp h
      cases except_pure_eq_ok.mp h
      rw [List.cons_append, List.cons_append, List.append_assoc]
      exact .full delta hls hss

/-! ## §3 Tables of frames -/

/-- **What a table of frames is read from**: their number, and forms of them one behind the other. -/
theorem parseAll_eq_ok {payload : Bytes} {fs : List Frame} :
    parseAll payload = .ok fs ↔ ∃ bss, fs.length < 65536 ∧
      payload = BigEndian.u16 (UInt16.ofNat fs.length) ++ bss.flatten ∧
      List.Forall₂ Form fs bss := by
  constructor
  · intro h
    obtain ⟨bss, hcount, hpayload, hrow⟩ := (Finds.counted finds_form).runOn_ending h
    exact ⟨bss, hcount, hpayload, hrow⟩
  · rintro ⟨bss, hlength, rfl, hrow⟩
    exact (Reads.counted (hrow.flip.imp fun _ _ => Form.reads) hlength).runOn_ending

/-- What is written of frames. -/
theorem encodeAll_eq_ok {bs : Bytes} {fs : List Frame} :
    encodeAll fs = .ok bs ↔ ∃ bss, fs.length < 65536 ∧
      bs = BigEndian.u16 (UInt16.ofNat fs.length) ++ bss.flatten ∧
      List.Forall₂ (fun f bs => f.encode = .ok bs) fs bss :=
  Table.rows_eq_ok

/-- A table of frames is read back. -/
theorem parseAll_of_encodeAll {fs : List Frame} (hfs : ∀ f ∈ fs, f.change.Storable) {bs : Bytes}
    (h : encodeAll fs = .ok bs) : parseAll bs = .ok fs := by
  obtain ⟨bss, hlength, rfl, hrow⟩ := encodeAll_eq_ok.mp h
  have hstored := (List.forall₂_and_left _ _).mpr ⟨hfs, hrow⟩
  exact parseAll_eq_ok.mpr
    ⟨bss, hlength, rfl, hstored.imp fun _ _ hf => form_of_encode hf.1 hf.2⟩

end Frame

end Reshape
