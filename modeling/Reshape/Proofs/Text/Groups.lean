import Reshape.Proofs.Results
import Reshape.Proofs.Text.ModifiedUtf8

/-!
# Shortest forms in modified UTF-8

A code unit has a group of one byte, of two and of three, as far as it fits them, and decoding takes
every one.  Encoding uses the shortest.  So a text that was decoded is encoded in no more bytes than it
had, and in the same bytes exactly if each unit had the shortest of its groups.
-/

namespace Reshape.ModifiedUtf8

/-- The bytes fall into groups that stand for the code units. -/
structure Splits (bs : Bytes) (units : List Nat) (groups : List Bytes) : Prop where
  flatten_eq : groups.flatten = bs
  grouped : List.Forall₂ IsGroup units groups

/-- No group of the unit has fewer bytes. -/
def Minimal (u : Nat) (g : Bytes) : Prop := ∀ g', IsGroup u g' → g.length ≤ g'.length

/-- Each code unit has the shortest of its groups. -/
def Shortest (bs : Bytes) : Prop :=
  ∃ units groups, Splits bs units groups ∧ List.Forall₂ Minimal units groups

/-! ## §1 What was decoded -/

theorem Splits.lt {bs : Bytes} {units : List Nat} {groups : List Bytes}
    (h : Splits bs units groups) : ∀ u ∈ units, u < 0x10000 := by
  intro u hu
  obtain ⟨g, -, hg⟩ := exists_right_of_forall₂ h.grouped hu
  exact hg.lt

theorem Splits.cons {g bs : Bytes} {u : Nat} {units : List Nat} {groups : List Bytes}
    (hg : IsGroup u g) (h : Splits bs units groups) :
    Splits (g ++ bs) (u :: units) (g :: groups) :=
  ⟨by rw [List.flatten_cons, h.flatten_eq], .cons hg h.grouped⟩

/-- Decoded units stood there one after the other, each in one of its groups. -/
theorem splits_of_unitsAfter {position : Nat} {done us : List Nat} {bs : Bytes}
    (h : unitsAfter position done bs = .ok us) :
    ∃ units groups, us = done.reverse ++ units ∧ Splits bs units groups := by
  have hfront {done : List Nat} {u : Nat} {g rest : Bytes} (hg : IsGroup u g)
      (h : ∃ units groups, us = (u :: done).reverse ++ units ∧ Splits rest units groups) :
      ∃ units groups, us = done.reverse ++ units ∧ Splits (g ++ rest) units groups := by
    obtain ⟨units, groups, rfl, hsplits⟩ := h
    exact ⟨u :: units, g :: groups, by simp, hsplits.cons hg⟩
  fun_induction unitsAfter position done bs with
  | case1 position done =>
      cases h
      exact ⟨[], [], by simp, rfl, .nil⟩
  | case3 position done a bs h0 h1 ih =>
      have hpos : a.toNat ≠ 0 := fun hzero => h0 (UInt8.toNat_inj.mp hzero)
      exact hfront (.one (by omega)) (ih h)
  | case4 position done a h0 h1 h2 b bs x hx ih =>
      obtain ⟨hb, hlast⟩ := continuation?_eq_some.mp hx
      have hgroup := IsGroup.two (a := a) (by omega) hb
      rw [← hlast] at hgroup
      exact hfront hgroup (ih h)
  | case7 position done a h0 h1 h2 h3 b c bs x y hy hx ih =>
      obtain ⟨hb, hmiddle⟩ := continuation?_eq_some.mp hx
      obtain ⟨hc, hlast⟩ := continuation?_eq_some.mp hy
      have hgroup := IsGroup.three (a := a) (by omega) hb hc
      rw [← hmiddle, ← hlast] at hgroup
      exact hfront hgroup (ih h)
  | _ => cases h

/-- The units that are decoded are those of the groups, which cannot be told apart in two ways. -/
theorem unitsAfter_eq_ok {bs : Bytes} {units : List Nat} :
    unitsAfter 0 [] bs = .ok units ↔ ∃ groups, Splits bs units groups := by
  constructor
  · intro h
    obtain ⟨_, groups, rfl, hsplits⟩ := splits_of_unitsAfter h
    exact ⟨groups, hsplits⟩
  · rintro ⟨groups, rfl, hgroups⟩
    exact unitsAfter_flatten hgroups 0 []

theorem toNat_ofNat_char {n : Nat} (h : n < 0xD800 ∨ 0xDFFF < n ∧ n < 0x110000) :
    (Char.ofNat n).toNat = n := by
  have hvalid : n.isValidChar := h
  rw [Char.ofNat, dif_pos hvalid]
  rfl

theorem unitsOf_single {u : Nat} (hu : u < 0x10000) (hhigh : ¬ isHighSurrogate u = true)
    (hlow : ¬ isLowSurrogate u = true) : unitsOf (Char.ofNat u) = [u] := by
  simp only [isHighSurrogate, isLowSurrogate, Bool.and_eq_true, decide_eq_true_eq] at hhigh hlow
  rw [unitsOf, toNat_ofNat_char (by omega), if_pos hu]

theorem unitsOf_pair {u v : Nat} (hu : isHighSurrogate u = true) (hv : isLowSurrogate v = true) :
    unitsOf (Char.ofNat (0x10000 + (u - 0xD800) * 0x400 + (v - 0xDC00))) = [u, v] := by
  simp only [isHighSurrogate, isLowSurrogate, Bool.and_eq_true, decide_eq_true_eq] at hu hv
  generalize hn : 0x10000 + (u - 0xD800) * 0x400 + (v - 0xDC00) = n
  rw [unitsOf, toNat_ofNat_char (by omega), if_neg (by omega),
    show 0xD800 + (n - 0x10000) / 0x400 = u by omega,
    show 0xDC00 + (n - 0x10000) % 0x400 = v by omega]

/-- The characters that units were put together to have just these units. -/
theorem units_of_charsAfter {done cs : List Char} {us : List Nat}
    (hus : ∀ u ∈ us, u < 0x10000) (h : charsAfter done us = some cs) :
    ∃ new, cs = done.reverse ++ new ∧ us = new.flatMap unitsOf := by
  have hfront {done : List Char} {c : Char} {units rest : List Nat} (hc : unitsOf c = units)
      (h : ∃ new, cs = (c :: done).reverse ++ new ∧ rest = new.flatMap unitsOf) :
      ∃ new, cs = done.reverse ++ new ∧ units ++ rest = new.flatMap unitsOf := by
    obtain ⟨new, rfl, rfl⟩ := h
    exact ⟨c :: new, by simp, by rw [List.flatMap_cons, hc]⟩
  fun_induction charsAfter done us with
  | case1 done =>
      cases h
      exact ⟨[], by simp, rfl⟩
  | case2 done u hu v us hv c ih =>
      rw [List.forall_mem_cons, List.forall_mem_cons] at hus
      exact hfront (unitsOf_pair hu hv) (ih hus.2.2 h)
  | case6 done u us hhigh hlow ih =>
      rw [List.forall_mem_cons] at hus
      exact hfront (unitsOf_single hus.1 hhigh hlow) (ih hus.2 h)
  | _ => cases h

/-- **The text that is decoded has just the units of the groups.** -/
theorem decode_eq_ok {bs : Bytes} {text : String} :
    decode bs = .ok text ↔ ∃ groups, Splits bs (text.toList.flatMap unitsOf) groups := by
  constructor
  · intro h
    unfold decode at h
    split at h
    · cases h
    · next units hunits =>
      obtain ⟨groups, hsplits⟩ := unitsAfter_eq_ok.mp hunits
      split at h
      · next cs hcs =>
        cases h
        obtain ⟨new, rfl, rfl⟩ := units_of_charsAfter hsplits.lt hcs
        rw [String.toList_ofList]
        exact ⟨groups, hsplits⟩
      · cases h
  · intro h
    simp only [decode, unitsAfter_eq_ok.mpr h, charsAfter_units, List.reverse_nil, List.nil_append,
      String.ofList_toList]

/-! ## §2 Encoding again -/

/-- The group that encoding writes is the shortest one, and the only one of its length. -/
theorem IsGroup.group_le {u : Nat} {g : Bytes} (h : IsGroup u g) :
    (group u).length ≤ g.length ∧ (g.length = (group u).length → g = group u) := by
  unfold group
  obtain ⟨hone, rfl⟩ | ⟨htwo, rfl⟩ | ⟨hthree, rfl⟩ := isGroup_iff.mp h
  · rw [if_pos hone]
    exact ⟨Nat.le_refl _, fun _ => rfl⟩
  · by_cases hone : 0 < u ∧ u < 0x80
    · rw [if_pos hone]
      exact ⟨by simp, by simp⟩
    · rw [if_neg hone, if_pos htwo]
      exact ⟨Nat.le_refl _, fun _ => rfl⟩
  · by_cases hone : 0 < u ∧ u < 0x80
    · rw [if_pos hone]
      exact ⟨by simp, by simp⟩
    · rw [if_neg hone]
      by_cases htwo : u < 0x800
      · rw [if_pos htwo]
        exact ⟨by simp, by simp⟩
      · rw [if_neg htwo]
        exact ⟨Nat.le_refl _, fun _ => rfl⟩

theorem minimal_iff {u : Nat} {g : Bytes} (h : IsGroup u g) : Minimal u g ↔ g = group u := by
  constructor
  · intro hleast
    exact h.group_le.2 (Nat.le_antisymm (hleast (group u) (isGroup_group h.lt)) h.group_le.1)
  · rintro rfl g' hg'
    exact hg'.group_le.1

/-- What is written for some units takes no more bytes than any groups of them, and as many only where
it is these groups. -/
theorem length_flatMap_group_le {units : List Nat} {groups : List Bytes}
    (h : List.Forall₂ IsGroup units groups) :
    (units.flatMap group).length ≤ groups.flatten.length ∧
      (groups.flatten.length = (units.flatMap group).length →
        groups.flatten = units.flatMap group) := by
  induction h with
  | nil => exact ⟨Nat.le_refl _, fun _ => rfl⟩
  | @cons u g units groups hg _ ih =>
      obtain ⟨hle, heq⟩ := hg.group_le
      rw [List.flatMap_cons, List.flatten_cons, List.length_append, List.length_append]
      refine ⟨Nat.add_le_add hle ih.1, fun hlength => ?_⟩
      rw [heq (by omega), ih.2 (by omega)]

/-- Groups are the ones that are written if and only if each of them is as short as it can be. -/
theorem flatten_eq_iff {units : List Nat} {groups : List Bytes}
    (h : List.Forall₂ IsGroup units groups) :
    units.flatMap group = groups.flatten ↔ List.Forall₂ Minimal units groups := by
  induction h with
  | nil => exact iff_of_true rfl .nil
  | @cons u g units groups hg hrest ih =>
      have hle := hg.group_le
      have hle' := (length_flatMap_group_le hrest).1
      rw [List.flatMap_cons, List.flatten_cons, List.forall₂_cons, minimal_iff hg, ← ih]
      constructor
      · intro heq
        have hlength := congrArg List.length heq
        rw [List.length_append, List.length_append] at hlength
        have hfirst := hle.2 (by omega)
        rw [← hfirst] at heq
        exact ⟨hfirst, List.append_cancel_left heq⟩
      · rintro ⟨hfirst, heq⟩
        rw [← hfirst, heq]

section Decoded

variable {bs : Bytes} {text : String} (h : decode bs = .ok text)
include h

/-- The text leaves no choice of the units. -/
theorem units_eq_of_splits {units : List Nat} {groups : List Bytes}
    (hsplits : Splits bs units groups) : units = text.toList.flatMap unitsOf := by
  have hread := unitsAfter_eq_ok.mpr ⟨groups, hsplits⟩
  rw [unitsAfter_eq_ok.mpr (decode_eq_ok.mp h)] at hread
  exact (Except.ok.inj hread).symm

/-- The text is encoded in the bytes it was read from if each of their groups is shortest. -/
theorem encode_eq_iff {units : List Nat} {groups : List Bytes} (hsplits : Splits bs units groups) :
    encode text = bs ↔ List.Forall₂ Minimal units groups := by
  rw [← flatten_eq_iff hsplits.grouped, hsplits.flatten_eq, units_eq_of_splits h hsplits, encode_eq]

theorem length_encode_le : (encode text).length ≤ bs.length := by
  obtain ⟨groups, rfl, hgroups⟩ := decode_eq_ok.mp h
  rw [encode_eq]
  exact (length_flatMap_group_le hgroups).1

theorem eq_encode_of_length_le (hlength : bs.length ≤ (encode text).length) :
    bs = encode text := by
  have hle := length_encode_le h
  obtain ⟨groups, rfl, hgroups⟩ := decode_eq_ok.mp h
  rw [encode_eq] at hlength hle ⊢
  exact (length_flatMap_group_le hgroups).2 (Nat.le_antisymm hlength hle)

/-- **The shortest form of a text is the encoded one.** -/
theorem shortest_iff : Shortest bs ↔ bs = encode text := by
  constructor
  · rintro ⟨units, groups, hsplits, hminimal⟩
    exact ((encode_eq_iff h hsplits).mpr hminimal).symm
  · intro heq
    obtain ⟨groups, hsplits⟩ := decode_eq_ok.mp h
    exact ⟨_, groups, hsplits, (encode_eq_iff h hsplits).mp heq.symm⟩

end Decoded

end Reshape.ModifiedUtf8
