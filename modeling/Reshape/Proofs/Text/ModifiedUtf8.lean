import Mathlib.Data.List.Forall2
import Reshape.Text.ModifiedUtf8

/-!
# Modified UTF-8 is read back

Bytes fall into groups of one, two or three, told apart by their lead bytes, and each group stands for
a code unit.  Encoding goes from characters over code units to groups, and decoding undoes the two
steps one after the other.  Each step is read back one item at a time, whatever follows the item.
-/

namespace Reshape.ModifiedUtf8

/-! ## §1 Groups -/

/-- A continuation byte. -/
def Continues (b : UInt8) : Prop := 0x80 ≤ b.toNat ∧ b.toNat ≤ 0xBF

/-- The groups of bytes that stand for a code unit.  A continuation byte has six bits of it. -/
inductive IsGroup : Nat → Bytes → Prop
  | one {a : UInt8} (lead : 0x01 ≤ a.toNat ∧ a.toNat ≤ 0x7F) : IsGroup a.toNat [a]
  | two {a b : UInt8} (lead : 0xC0 ≤ a.toNat ∧ a.toNat ≤ 0xDF) (hb : Continues b) :
      IsGroup ((a.toNat - 0xC0) * 64 + (b.toNat - 0x80)) [a, b]
  | three {a b c : UInt8} (lead : 0xE0 ≤ a.toNat ∧ a.toNat ≤ 0xEF) (hb : Continues b)
      (hc : Continues c) :
      IsGroup ((a.toNat - 0xE0) * 4096 + (b.toNat - 0x80) * 64 + (c.toNat - 0x80)) [a, b, c]

theorem IsGroup.lt {u : Nat} {g : Bytes} (h : IsGroup u g) : u < 0x10000 := by
  cases h with
  | one lead => omega
  | two lead hb =>
      unfold Continues at hb
      omega
  | three lead hb hc =>
      unfold Continues at hb hc
      omega

theorem toNat_ofNat_byte {n : Nat} (h : n < 256) : (UInt8.ofNat n).toNat = n :=
  UInt8.toNat_ofNat_of_lt' h

theorem byte_ne_zero {a : UInt8} (h : 0 < a.toNat) : a ≠ 0 := by
  rintro rfl
  exact absurd h (by decide)

/-- A unit has a group of one byte, of two and of three, as far as it fits them. -/
theorem isGroup_iff {u : Nat} {g : Bytes} : IsGroup u g ↔
    (0 < u ∧ u < 0x80) ∧ g = [UInt8.ofNat u] ∨
    u < 0x800 ∧ g = [UInt8.ofNat (0xC0 + u / 64), UInt8.ofNat (0x80 + u % 64)] ∨
    u < 0x10000 ∧ g = [UInt8.ofNat (0xE0 + u / 4096), UInt8.ofNat (0x80 + u / 64 % 64),
      UInt8.ofNat (0x80 + u % 64)] := by
  have hcontinues {n : Nat} (h : n < 64) : Continues (UInt8.ofNat (0x80 + n)) := by
    rw [Continues, toNat_ofNat_byte (by omega)]
    omega
  constructor
  · intro h
    cases h with
    | @one a lead => exact .inl ⟨by omega, by rw [UInt8.ofNat_toNat]⟩
    | @two a b lead hb =>
        obtain ⟨hlow, hhigh⟩ := hb
        refine .inr (.inl ⟨by omega, ?_⟩)
        rw [show 0xC0 + ((a.toNat - 0xC0) * 64 + (b.toNat - 0x80)) / 64 = a.toNat by omega,
          show 0x80 + ((a.toNat - 0xC0) * 64 + (b.toNat - 0x80)) % 64 = b.toNat by omega,
          UInt8.ofNat_toNat, UInt8.ofNat_toNat]
    | @three a b c lead hb hc =>
        obtain ⟨hlow, hhigh⟩ := hb
        obtain ⟨hlow', hhigh'⟩ := hc
        refine .inr (.inr ⟨by omega, ?_⟩)
        generalize hu : (a.toNat - 0xE0) * 4096 + (b.toNat - 0x80) * 64 + (c.toNat - 0x80) = u
        rw [show 0xE0 + u / 4096 = a.toNat by omega, show 0x80 + u / 64 % 64 = b.toNat by omega,
          show 0x80 + u % 64 = c.toNat by omega, UInt8.ofNat_toNat, UInt8.ofNat_toNat,
          UInt8.ofNat_toNat]
  · rintro (⟨hone, rfl⟩ | ⟨htwo, rfl⟩ | ⟨hthree, rfl⟩)
    · have hlead := toNat_ofNat_byte (show u < 256 by omega)
      have hgroup := IsGroup.one (a := UInt8.ofNat u) (by omega)
      rwa [hlead] at hgroup
    · have hlead := toNat_ofNat_byte (show 0xC0 + u / 64 < 256 by omega)
      have hlast := toNat_ofNat_byte (show 0x80 + u % 64 < 256 by omega)
      have hgroup := IsGroup.two (a := UInt8.ofNat (0xC0 + u / 64)) (by omega)
        (hcontinues (show u % 64 < 64 by omega))
      rwa [hlead, hlast, show (0xC0 + u / 64 - 0xC0) * 64 + (0x80 + u % 64 - 0x80) = u by omega]
        at hgroup
    · have hlead := toNat_ofNat_byte (show 0xE0 + u / 4096 < 256 by omega)
      have hmiddle := toNat_ofNat_byte (show 0x80 + u / 64 % 64 < 256 by omega)
      have hlast := toNat_ofNat_byte (show 0x80 + u % 64 < 256 by omega)
      have hgroup := IsGroup.three (a := UInt8.ofNat (0xE0 + u / 4096)) (by omega)
        (hcontinues (show u / 64 % 64 < 64 by omega)) (hcontinues (show u % 64 < 64 by omega))
      rwa [hlead, hmiddle, hlast, show (0xE0 + u / 4096 - 0xE0) * 4096 +
        (0x80 + u / 64 % 64 - 0x80) * 64 + (0x80 + u % 64 - 0x80) = u by omega] at hgroup

/-- What is written for a unit is a group of it. -/
theorem isGroup_group {u : Nat} (hu : u < 0x10000) : IsGroup u (group u) := by
  unfold group
  by_cases hone : 0 < u ∧ u < 0x80
  · rw [if_pos hone]
    exact isGroup_iff.mpr (.inl ⟨hone, rfl⟩)
  · rw [if_neg hone]
    by_cases htwo : u < 0x800
    · rw [if_pos htwo]
      exact isGroup_iff.mpr (.inr (.inl ⟨htwo, rfl⟩))
    · rw [if_neg htwo]
      exact isGroup_iff.mpr (.inr (.inr ⟨hu, rfl⟩))

/-! ## §2 Groups are decoded -/

theorem continuation?_eq_some {b : UInt8} {x : Nat} :
    continuation? b = some x ↔ Continues b ∧ x = b.toNat - 0x80 := by
  unfold continuation? Continues
  by_cases hb : 0x80 ≤ b.toNat ∧ b.toNat < 0xC0
  · rw [if_pos hb, Option.some.injEq]
    omega
  · rw [if_neg hb]
    exact iff_of_false nofun (by omega)

section Steps

variable {position : Nat} {done : List Nat} {a b c : UInt8} {x y : Nat} {bs : Bytes}

theorem unitsAfter_one (h0 : 0 < a.toNat) (h : a.toNat < 0x80) :
    unitsAfter position done (a :: bs) = unitsAfter (position + 1) (a.toNat :: done) bs := by
  rw [unitsAfter.eq_def]
  simp only [byte_ne_zero h0, h, if_true, if_false]

theorem unitsAfter_two (ha : 0xC0 ≤ a.toNat ∧ a.toNat < 0xE0) (hb : continuation? b = some x) :
    unitsAfter position done (a :: b :: bs) =
      unitsAfter (position + 2) (((a.toNat - 0xC0) * 64 + x) :: done) bs := by
  rw [unitsAfter.eq_def]
  simp only [byte_ne_zero (Nat.lt_of_lt_of_le (by decide) ha.1), if_false]
  rw [if_neg (by omega), if_pos ha, hb]

theorem unitsAfter_three (ha : 0xE0 ≤ a.toNat ∧ a.toNat < 0xF0) (hb : continuation? b = some x)
    (hc : continuation? c = some y) :
    unitsAfter position done (a :: b :: c :: bs) =
      unitsAfter (position + 3) (((a.toNat - 0xE0) * 4096 + x * 64 + y) :: done) bs := by
  rw [unitsAfter.eq_def]
  simp only [byte_ne_zero (Nat.lt_of_lt_of_le (by decide) ha.1), if_false]
  rw [if_neg (by omega), if_neg (by omega), if_pos ha, hb, hc]

end Steps

theorem IsGroup.unitsAfter_append {u : Nat} {g : Bytes} (h : IsGroup u g) (position : Nat)
    (done : List Nat) (bs : Bytes) :
    unitsAfter position done (g ++ bs) = unitsAfter (position + g.length) (u :: done) bs := by
  cases h with
  | one lead => exact unitsAfter_one lead.1 (by omega)
  | two lead hb => exact unitsAfter_two (by omega) (continuation?_eq_some.mpr ⟨hb, rfl⟩)
  | three lead hb hc =>
      exact unitsAfter_three (by omega) (continuation?_eq_some.mpr ⟨hb, rfl⟩)
        (continuation?_eq_some.mpr ⟨hc, rfl⟩)

theorem unitsAfter_flatten {units : List Nat} {groups : List Bytes}
    (h : List.Forall₂ IsGroup units groups) : ∀ position done,
      unitsAfter position done groups.flatten = .ok (done.reverse ++ units) := by
  induction h with
  | nil =>
      intro position done
      rw [List.append_nil]
      rfl
  | @cons u g units groups hg _ ih =>
      intro position done
      rw [List.flatten_cons, hg.unitsAfter_append, ih, List.reverse_cons, List.append_assoc,
        List.singleton_append]

/-! ## §3 Characters -/

/-- The numbers of characters leave out the surrogates. -/
theorem toNat_char (c : Char) :
    c.toNat < 0xD800 ∨ 0xDFFF < c.toNat ∧ c.toNat < 0x110000 := c.valid

theorem unitsOf_lt {c : Char} {u : Nat} (h : u ∈ unitsOf c) : u < 0x10000 := by
  have hc := toNat_char c
  unfold unitsOf at h
  split at h <;> simp at h <;> omega

theorem charsAfter_unitsOf (c : Char) (done : List Char) (us : List Nat) :
    charsAfter done (unitsOf c ++ us) = charsAfter (c :: done) us := by
  have hc := toNat_char c
  unfold unitsOf
  split
  · next h =>
    have hhigh : isHighSurrogate c.toNat = false := by simp [isHighSurrogate]; omega
    have hlow : isLowSurrogate c.toNat = false := by simp [isLowSurrogate]; omega
    rw [List.singleton_append, charsAfter.eq_def]
    simp only [hhigh, hlow, Bool.false_eq_true, if_false, Char.ofNat_toNat]
  · next h =>
    have hhigh : isHighSurrogate (0xD800 + (c.toNat - 0x10000) / 0x400) = true := by
      simp [isHighSurrogate]; omega
    have hlow : isLowSurrogate (0xDC00 + (c.toNat - 0x10000) % 0x400) = true := by
      simp [isLowSurrogate]; omega
    have hback : 0x10000 + (0xD800 + (c.toNat - 0x10000) / 0x400 - 0xD800) * 0x400 +
        (0xDC00 + (c.toNat - 0x10000) % 0x400 - 0xDC00) = c.toNat := by omega
    rw [List.cons_append, List.singleton_append, charsAfter.eq_def]
    simp only [hhigh, hlow, if_true, hback, Char.ofNat_toNat]

theorem charsAfter_units (cs : List Char) :
    ∀ done, charsAfter done (cs.flatMap unitsOf) = some (done.reverse ++ cs) := by
  induction cs with
  | nil =>
      intro done
      simp [charsAfter]
  | cons c cs ih =>
      intro done
      rw [List.flatMap_cons, charsAfter_unitsOf, ih]
      simp

theorem encode_eq (text : String) :
    encode text = (text.toList.flatMap unitsOf).flatMap group := by
  rw [encode, List.flatMap_assoc]

/-- Decoding gives back what was encoded. -/
theorem decode_of_encode (text : String) : decode (encode text) = .ok text := by
  have hgroups : List.Forall₂ IsGroup (text.toList.flatMap unitsOf)
      ((text.toList.flatMap unitsOf).map group) := by
    rw [List.forall₂_map_right_iff, List.forall₂_same]
    intro u hu
    obtain ⟨c, -, hc⟩ := List.mem_flatMap.mp hu
    exact isGroup_group (unitsOf_lt hc)
  have hunits := unitsAfter_flatten hgroups 0 []
  rw [← List.flatMap_def, ← encode_eq, List.reverse_nil, List.nil_append] at hunits
  simp only [decode, hunits, charsAfter_units, List.reverse_nil, List.nil_append,
    String.ofList_toList]

end Reshape.ModifiedUtf8
