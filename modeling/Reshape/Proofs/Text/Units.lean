import Reshape.Proofs.Text.Groups

/-!
# Which bytes are a text

Bytes are a text if they fall into groups of one, two or three, told apart by their lead bytes, and if
the code units of these groups are well-formed UTF-16.  No byte of a group is zero, and none is `F0` or
above.  A unit may have groups of several lengths; the text is encoded in the shortest of them, so it
takes fewer bytes than it was read from unless these were shortest already.
-/

namespace Reshape.ModifiedUtf8

/-! ## §1 Units are put together -/

/-- In well-formed UTF-16 a high surrogate stands in front of each low one, and nowhere else. -/
inductive WellFormed : List Nat → Prop
  | nil : WellFormed []
  | single {u : Nat} {us : List Nat} (hu : u < 0xD800 ∨ 0xDFFF < u) (rest : WellFormed us) :
      WellFormed (u :: us)
  | pair {u v : Nat} {us : List Nat} (high : 0xD800 ≤ u ∧ u ≤ 0xDBFF)
      (low : 0xDC00 ≤ v ∧ v ≤ 0xDFFF) (rest : WellFormed us) : WellFormed (u :: v :: us)

theorem isHighSurrogate_iff {u : Nat} : isHighSurrogate u = true ↔ 0xD800 ≤ u ∧ u ≤ 0xDBFF := by
  rw [isHighSurrogate, Bool.and_eq_true, decide_eq_true_eq, decide_eq_true_eq]
  omega

theorem isLowSurrogate_iff {u : Nat} : isLowSurrogate u = true ↔ 0xDC00 ≤ u ∧ u ≤ 0xDFFF := by
  rw [isLowSurrogate, Bool.and_eq_true, decide_eq_true_eq, decide_eq_true_eq]
  omega

theorem WellFormed.exists_chars {us : List Nat} (h : WellFormed us) :
    ∀ done, ∃ cs, charsAfter done us = some cs := by
  induction h with
  | nil => exact fun done => ⟨_, rfl⟩
  | @single u us hu _ ih =>
      intro done
      have hhigh : ¬ isHighSurrogate u = true := by
        rw [isHighSurrogate_iff]
        omega
      have hlow : ¬ isLowSurrogate u = true := by
        rw [isLowSurrogate_iff]
        omega
      rw [charsAfter.eq_def]
      simp only [if_neg hhigh, if_neg hlow]
      exact ih _
  | @pair u v us high low _ ih =>
      intro done
      rw [charsAfter.eq_def]
      simp only [if_pos (isHighSurrogate_iff.mpr high), if_pos (isLowSurrogate_iff.mpr low)]
      exact ih _

theorem wellFormed_of_charsAfter {done cs : List Char} {us : List Nat}
    (h : charsAfter done us = some cs) : WellFormed us := by
  fun_induction charsAfter done us with
  | case1 => exact .nil
  | case2 done u hu v us hv c ih =>
      exact .pair (isHighSurrogate_iff.mp hu) (isLowSurrogate_iff.mp hv) (ih h)
  | case6 done u us hhigh hlow ih =>
      rw [isHighSurrogate_iff] at hhigh
      rw [isLowSurrogate_iff] at hlow
      exact .single (by omega) (ih h)
  | _ => cases h

/-- **Well-formed units are those of a text.** -/
theorem wellFormed_iff {us : List Nat} (hus : ∀ u ∈ us, u < 0x10000) :
    WellFormed us ↔ ∃ text : String, us = text.toList.flatMap unitsOf := by
  constructor
  · intro h
    obtain ⟨cs, hcs⟩ := h.exists_chars []
    obtain ⟨new, -, hunits⟩ := units_of_charsAfter hus hcs
    exact ⟨String.ofList new, by rw [String.toList_ofList, hunits]⟩
  · rintro ⟨text, rfl⟩
    exact wellFormed_of_charsAfter (charsAfter_units text.toList [])

/-! ## §2 Bytes that are a text -/

/-- No byte of a group is zero, and none could lead a group of four. -/
theorem IsGroup.byte_bounds {u : Nat} {g : Bytes} (h : IsGroup u g) :
    ∀ b ∈ g, 0 < b.toNat ∧ b.toNat < 0xF0 := by
  have hcontinues {b : UInt8} (h : Continues b) : 0 < b.toNat ∧ b.toNat < 0xF0 := by
    unfold Continues at h
    omega
  cases h with
  | one lead =>
      rw [List.forall_mem_singleton]
      omega
  | two lead hb =>
      rw [List.forall_mem_cons, List.forall_mem_singleton]
      exact ⟨by omega, hcontinues hb⟩
  | three lead hb hc =>
      rw [List.forall_mem_cons, List.forall_mem_cons, List.forall_mem_singleton]
      exact ⟨by omega, hcontinues hb, hcontinues hc⟩

/-- **Bytes and texts.**  Every text is read back from what it is encoded in, which has no zero byte and
none of `F0` or above.  Exactly the bytes are decoded that fall into groups with well-formed UTF-16 as
their units, and these are the units of the text.  The text is encoded in the same bytes if and only if
each group is the shortest of its unit, and in fewer bytes otherwise. -/
theorem coding_exact :
    (∀ text : String, decode (encode text) = .ok text ∧
      ∀ b ∈ encode text, b ≠ 0 ∧ b.toNat < 0xF0) ∧
    (∀ bs : Bytes, (∃ text, decode bs = .ok text) ↔
      ∃ units groups, Splits bs units groups ∧ WellFormed units) ∧
    ∀ (bs : Bytes) (text : String) (units : List Nat) (groups : List Bytes),
      decode bs = .ok text → Splits bs units groups →
        units = text.toList.flatMap unitsOf ∧
        (encode text = bs ↔ List.Forall₂ Minimal units groups) ∧
        (¬ List.Forall₂ Minimal units groups → (encode text).length < bs.length) := by
  refine ⟨fun text => ⟨decode_of_encode text, fun b hb => ?_⟩, fun bs => ?_,
    fun bs text units groups h hsplits => ?_⟩
  · obtain ⟨groups, hsplits⟩ := decode_eq_ok.mp (decode_of_encode text)
    rw [← hsplits.flatten_eq] at hb
    obtain ⟨g, hg, hb⟩ := List.mem_flatten.mp hb
    obtain ⟨u, -, hgroup⟩ := exists_left_of_forall₂ hsplits.grouped hg
    obtain ⟨hpos, hlt⟩ := hgroup.byte_bounds b hb
    exact ⟨byte_ne_zero hpos, hlt⟩
  · constructor
    · rintro ⟨text, h⟩
      obtain ⟨groups, hsplits⟩ := decode_eq_ok.mp h
      exact ⟨_, groups, hsplits, (wellFormed_iff hsplits.lt).mpr ⟨text, rfl⟩⟩
    · rintro ⟨units, groups, hsplits, hunits⟩
      obtain ⟨text, rfl⟩ := (wellFormed_iff hsplits.lt).mp hunits
      exact ⟨text, decode_eq_ok.mpr ⟨groups, hsplits⟩⟩
  · have hexact := encode_eq_iff h hsplits
    refine ⟨units_eq_of_splits h hsplits, hexact, fun hlong => ?_⟩
    by_contra hlength
    exact hlong (hexact.mp (eq_encode_of_length_le h (Nat.le_of_not_lt hlength)).symm)

/-- A letter in two bytes, a supplementary character and a zero. -/
def letterInTwo : Bytes := [0xC1, 0x81, 0xED, 0xA0, 0xBD, 0xED, 0xB8, 0x80, 0xC0, 0x80]

/-- The letter could have a group of one byte, so it is encoded in fewer bytes. -/
theorem coding_exact_letterInTwo :
    decode letterInTwo = .ok "A😀\x00" ∧
      Splits letterInTwo [0x41, 0xD83D, 0xDE00, 0]
        [[0xC1, 0x81], [0xED, 0xA0, 0xBD], [0xED, 0xB8, 0x80], [0xC0, 0x80]] ∧
      encode "A😀\x00" ≠ letterInTwo ∧ (encode "A😀\x00").length < letterInTwo.length ∧
      decode (encode "A😀\x00") = .ok "A😀\x00" := by
  obtain ⟨hback, -, hexact⟩ := coding_exact
  have hdecode : decode letterInTwo = .ok "A😀\x00" := eq_ok_of_toOption (by decide +kernel)
  have hsplits : Splits letterInTwo [0x41, 0xD83D, 0xDE00, 0]
      [[0xC1, 0x81], [0xED, 0xA0, 0xBD], [0xED, 0xB8, 0x80], [0xC0, 0x80]] := by
    have htwo {u : Nat} {a b : UInt8} (h : u < 0x800 ∧
        [a, b] = [UInt8.ofNat (0xC0 + u / 64), UInt8.ofNat (0x80 + u % 64)]) : IsGroup u [a, b] :=
      isGroup_iff.mpr (.inr (.inl h))
    have hthree {u : Nat} {a b c : UInt8} (h : u < 0x10000 ∧ [a, b, c] =
        [UInt8.ofNat (0xE0 + u / 4096), UInt8.ofNat (0x80 + u / 64 % 64),
          UInt8.ofNat (0x80 + u % 64)]) : IsGroup u [a, b, c] :=
      isGroup_iff.mpr (.inr (.inr h))
    exact ⟨rfl, .cons (htwo (by decide)) (.cons (hthree (by decide))
      (.cons (hthree (by decide)) (.cons (htwo (by decide)) .nil)))⟩
  have hlong : ¬ List.Forall₂ Minimal [0x41, 0xD83D, 0xDE00, 0]
      [[0xC1, 0x81], [0xED, 0xA0, 0xBD], [0xED, 0xB8, 0x80], [0xC0, 0x80]] := by
    intro h
    have hshort : IsGroup 0x41 [0x41] := .one (a := 0x41) (by decide)
    exact absurd ((List.forall₂_cons.mp h).1 _ hshort) (by decide)
  obtain ⟨-, hsame, hfewer⟩ := hexact _ _ _ _ hdecode hsplits
  exact ⟨hdecode, hsplits, fun h => hlong (hsame.mp h), hfewer hlong, (hback _).1⟩

end Reshape.ModifiedUtf8
