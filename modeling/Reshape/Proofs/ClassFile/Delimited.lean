import Reshape.Proofs.ClassFile.Stored

/-!
# Class files tell where they end

Every reader of the format takes words, and as many bytes or items as a word in front of them counts.
So what is read of a class file is told by the bytes it is read of, and no class file is the front of
another one.
-/

namespace Reshape

/-! ## §1 The parts of a class file -/

namespace Constant

/-- Two indices in a row, as most constants that refer to others have them. -/
theorem delimited_pair (make : UInt16 → UInt16 → Constant) :
    Delimited (do return make (← Reader.u16) (← Reader.u16) : Reader FormatError Constant) :=
  .bind .u16 fun a => .map (make a) .u16

/-- The tag decides how many bytes follow it, or of which word their number is. -/
theorem delimited_content (index : Nat) (tag : UInt8) : Delimited (content index tag) := by
  unfold content
  split
  case h_1 => exact .bind .prefixed16 fun payload => .map utf8 (.ofExcept _)
  case h_2 => exact .map integer .i32
  case h_3 => exact .map float .u32
  case h_4 => exact .map long .i64
  case h_5 => exact .map double .u64
  case h_12 => exact .bind .u8 fun kind => .map (methodHandle kind) .u16
  case h_18 => exact .throw _
  case h_8 | h_9 | h_10 | h_11 | h_14 | h_15 => exact delimited_pair _
  case h_6 | h_7 | h_13 | h_16 | h_17 => exact .map _ .u16

theorem delimited_read (index : Nat) : Delimited (Constant.read index) :=
  .bind .u8 fun tag => delimited_content index tag

end Constant

namespace Pool

theorem delimited_readUpTo (count : Nat) (p : Pool) : Delimited (readUpTo count p) := by
  fun_induction readUpTo count p with
  | case1 p _ ih =>
      refine .bind (Constant.delimited_read p.size) fun c => ?_
      split
      · exact ih c
      · exact .throw _
  | case2 p _ => exact .pure p

theorem delimited_read : Delimited Pool.read :=
  .bind .u16 fun count => delimited_readUpTo count.toNat empty

end Pool

theorem Attribute.delimited_readAll : Delimited Attribute.readAll :=
  .counted (.bind .u16 fun name => .map (Attribute.mk name) .prefixed32)

theorem Member.delimited_read {carrier : Carrier} :
    Delimited (Member.read : Reader FormatError (Member carrier)) :=
  .bind .u16 fun access => .bind .u16 fun name => .bind .u16 fun descriptor =>
    .map (Member.mk ⟨access⟩ name descriptor) Attribute.delimited_readAll

namespace ClassFile

/-! ## §2 The class -/

theorem delimited_behindMagic : Delimited behindMagic :=
  .bind .u16 fun _ => .bind .u16 fun _ => .bind Pool.delimited_read fun _ => .bind .u16 fun _ =>
  .bind .u16 fun _ => .bind .u16 fun _ => .bind (.counted .u16) fun _ =>
  .bind (.counted Member.delimited_read) fun _ =>
  .bind (.counted Member.delimited_read) fun _ => .map _ Attribute.delimited_readAll

theorem delimited_content : Delimited content := by
  refine .bind .u32 fun word => ?_
  by_cases hword : word = magic
  · rw [if_pos hword]
    exact delimited_behindMagic
  · rw [if_neg hword]
    exact .throw _

/-- **No class file is the front of another one.**  Data that is a class file is none with more bytes
behind it, whose number is then reported, and no part from its front is one: reading comes to the end
of the data, and asks for no more bytes than were cut off. -/
theorem self_delimiting {data : Bytes} {c : ClassFile} (h : parse data = .ok c) :
    (∀ more, more ≠ [] → parse (data ++ more) = .error (.trailingBytes .classFile more.length)) ∧
    ∀ front behind, data = front ++ behind → behind ≠ [] → ∃ position wanted,
      parse front = .error (.read (.unexpectedEnd position wanted)) ∧
      0 < wanted ∧ wanted ≤ behind.length := by
  simp only [parse, reader_eq] at h ⊢
  exact delimited_content.runOn_ending h

/-- A class of the name A with one field, which has an attribute. -/
def oneField : Bytes :=
  [0xCA, 0xFE, 0xBA, 0xBE, 0, 0, 0, 52, 0, 4, 1, 0, 1, 0x41, 7, 0, 1, 1, 0, 1, 0x49, 0, 0x21, 0, 2, 0, 0,
    0, 0, 0, 1, 0, 1, 0, 1, 0, 3, 0, 1, 0, 3, 0, 0, 0, 2, 8, 9, 0, 0, 0, 0]

/-- It is no class file with two bytes more, nor if it ends within the field's attribute. -/
theorem self_delimiting_oneField :
    (∃ c, parse oneField = .ok c) ∧
      parse (oneField ++ [0, 0]) = .error (.trailingBytes .classFile 2) ∧
      ∃ position wanted, parse (oneField.take 46) = .error (.read (.unexpectedEnd position wanted)) ∧
        0 < wanted ∧ wanted ≤ 5 := by
  have hread : (parse oneField).toOption.isSome = true := by decide +kernel
  obtain ⟨c, hc⟩ := Option.isSome_iff_exists.mp hread
  have hparse := eq_ok_of_toOption hc
  obtain ⟨hmore, hcut⟩ := self_delimiting hparse
  exact ⟨⟨c, hparse⟩, hmore [0, 0] (by decide), hcut _ (oneField.drop 46) rfl (by decide)⟩

end ClassFile

end Reshape
