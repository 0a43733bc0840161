import Mathlib.Data.List.NodupEquivFin
import Reshape.Attribute.Annotations
import Reshape.Frame.State
import Reshape.Proofs.Results

/-!
# How a pool grows

Whatever is interned, a pool only gets longer: constants are added one at a time at its end, each
of them new to the pool and none past the limit.  `Pool.Growth` says just this, and everything
else follows from it, above all that an index keeps the constant it denotes.  `Interning.Grows`
says of an action that it does nothing else to the pool, whether or not it succeeds.
-/

namespace Reshape

namespace Pool

/-! ## §1 Growth -/

inductive Growth (p : Pool) : Pool → Prop
  | refl : Growth p p
  | push {q : Pool} {c : Constant} (grown : Growth p q) (used : c ≠ .unused)
      (fresh : q.find? c = none) (fits : q.size + c.slots ≤ maxSlots) : Growth p (q.push c)

theorem find?_eq_none_iff {p : Pool} {c : Constant} :
    p.find? c = none ↔ c ∉ p.slots.toList := by
  unfold find?
  rw [Option.map_eq_none_iff, Array.findIdx?_eq_none_iff]
  constructor
  · intro h hmem
    simpa using h c (Array.mem_toList_iff.mp hmem)
  · intro h d hd
    rw [beq_eq_false_iff_ne]
    rintro rfl
    exact h (Array.mem_toList_iff.mpr hd)

theorem Growth.trans {p q r : Pool} (hpq : Growth p q) (hqr : Growth q r) : Growth p r := by
  induction hqr with
  | refl => exact hpq
  | push _ used fresh fits ih => exact .push ih used fresh fits

/-- The slots that a constant takes. -/
def spread (c : Constant) : List Constant := if c.isWide then [c, .unused] else [c]

theorem toList_push (p : Pool) (c : Constant) :
    (p.push c).slots.toList = p.slots.toList ++ spread c := by
  unfold push spread
  split <;> simp

theorem mem_push {p : Pool} {c d : Constant} (h : d ∈ (p.push c).slots.toList) :
    d ∈ p.slots.toList ∨ d = .unused ∨ d = c := by
  rw [toList_push, List.mem_append] at h
  refine h.imp_right fun hd => ?_
  unfold spread at hd
  split at hd
  · rcases List.mem_pair.mp hd with rfl | rfl
    · exact .inr rfl
    · exact .inl rfl
  · exact .inr (List.mem_singleton.mp hd)

theorem length_spread (c : Constant) : (spread c).length = c.slots := by
  unfold spread Constant.slots
  split <;> rfl

theorem size_push (p : Pool) (c : Constant) : (p.push c).size = p.size + c.slots := by
  have h := congrArg List.length (toList_push p c)
  rw [List.length_append, length_spread] at h
  simpa [size] using h

/-- The earlier pool stands at the front of the later one. -/
theorem Growth.isPrefix {p q : Pool} (h : Growth p q) :
    p.slots.toList <+: q.slots.toList := by
  induction h with
  | refl => exact List.prefix_rfl
  | @push q c _ _ _ _ ih =>
      rw [toList_push]
      exact ih.trans (List.prefix_append _ _)

theorem Growth.mem {p q : Pool} (h : Growth p q) {c : Constant} (hc : c ∈ p.slots.toList) :
    c ∈ q.slots.toList :=
  h.isPrefix.subset hc

/-- A sixteen-bit index reaches every slot. -/
def Addressable (p : Pool) : Prop := p.size ≤ 65536

theorem Growth.addressable {p q : Pool} (h : Growth p q) (hp : p.Addressable) :
    q.Addressable := by
  cases h with
  | refl => exact hp
  | @push r c _ _ _ fits =>
      unfold Addressable
      rw [size_push]
      unfold maxSlots at fits
      omega

/-- A pool was no larger than what it has grown to. -/
theorem Growth.size_le {p q : Pool} (h : Growth p q) (hp : p.size ≤ maxSlots) :
    q.size ≤ maxSlots := by
  cases h with
  | refl => exact hp
  | push _ _ _ fits => rwa [size_push]

theorem Growth.addressable_of {p q : Pool} (h : Growth p q) (hq : q.Addressable) :
    p.Addressable := by
  have hlength := h.isPrefix.length_le
  rw [Array.length_toList, Array.length_toList] at hlength
  exact Nat.le_trans hlength hq

theorem slot_eq (p : Pool) (i : UInt16) :
    p.slot i = (p.slots.toList[i.toNat]?).getD .unused := by
  simp [slot, Array.getD_eq_getD_getElem?]

/-- An index that is within the pool denotes ever after what it did. -/
theorem Growth.slot_of_lt {p q : Pool} (h : Growth p q) {i : UInt16} (hi : i.toNat < p.size) :
    q.slot i = p.slot i := by
  obtain ⟨rest, hrest⟩ := h.isPrefix
  rw [slot_eq, slot_eq, ← hrest, List.getElem?_append_left hi]

/-- A slot that holds a constant holds it ever after. -/
theorem Growth.slot {p q : Pool} (h : Growth p q) {i : UInt16} (hi : p.slot i ≠ .unused) :
    q.slot i = p.slot i := by
  refine h.slot_of_lt ?_
  by_contra hlt
  rw [slot_eq, List.getElem?_eq_none (Nat.le_of_not_lt hlt)] at hi
  exact hi rfl

theorem getElem?_of_slot {p : Pool} {i : UInt16} {c : Constant} (hc : c ≠ .unused)
    (h : p.slot i = c) : p.slots.toList[i.toNat]? = some c := by
  rw [slot_eq] at h
  cases hget : p.slots.toList[i.toNat]? with
  | none =>
      rw [hget, Option.getD_none] at h
      exact absurd h.symm hc
  | some d =>
      rw [hget, Option.getD_some] at h
      rw [h]

theorem slot_eq_of_utf8 {p : Pool} {i : UInt16} {text : String} (h : p.utf8 i = .ok text) :
    p.slot i = .utf8 text := by
  unfold utf8 at h
  split at h
  · next hs =>
    cases h
    exact hs
  · cases h

/-! ### Constants that a pool has once -/

/-- A constant is added only if it is not there, so no second slot comes to hold it. -/
theorem Growth.count_le_one {p q : Pool} {c : Constant} (h : Growth p q) (hc : c ≠ .unused)
    (hp : p.slots.toList.count c ≤ 1) : q.slots.toList.count c ≤ 1 := by
  induction h with
  | refl => exact hp
  | @push q d _ _ fresh _ ih =>
      rw [toList_push, List.count_append]
      by_cases hd : d = c
      · subst hd
        rw [List.count_eq_zero.mpr (find?_eq_none_iff.mp fresh), Nat.zero_add]
        unfold spread
        split <;> simp [Ne.symm hc]
      · have hspread : (spread d).count c = 0 := by
          rw [List.count_eq_zero]
          unfold spread
          split <;> simp [Ne.symm hd, hc]
        rwa [hspread, Nat.add_zero]

/-- A constant that a pool has once has one place. -/
theorem eq_of_count_le_one {p : Pool} {c : Constant} (h : p.slots.toList.count c ≤ 1) {i j : Nat}
    (hi : p.slots.toList[i]? = some c) (hj : p.slots.toList[j]? = some c) : i = j := by
  have distinct {k l : Nat} (hkl : k < l) (hk : p.slots.toList[k]? = some c)
      (hl : p.slots.toList[l]? = some c) : False := by
    obtain ⟨hk', hk⟩ := List.getElem?_eq_some_iff.mp hk
    obtain ⟨hl', hl⟩ := List.getElem?_eq_some_iff.mp hl
    have htwice : List.Duplicate c p.slots.toList :=
      List.duplicate_iff_exists_distinct_get.mpr ⟨⟨k, hk'⟩, ⟨l, hl'⟩, hkl, hk.symm, hl.symm⟩
    have htwo := List.duplicate_iff_two_le_count.mp htwice
    omega
  rcases Nat.lt_trichotomy i j with hlt | heq | hlt
  · exact (distinct hlt hi hj).elim
  · exact heq
  · exact (distinct hlt hj hi).elim

/-! ## §2 Look-ups in a pool that has grown -/

theorem find?_eq (p : Pool) (c : Constant) :
    p.find? c = (p.slots.toList.findIdx? (· == c)).map UInt16.ofNat := by
  rw [find?, ← List.findIdx?_toArray, Array.toArray_toList]

/-- What is found is found ever after in the same place. -/
theorem Growth.find? {p q : Pool} (h : Growth p q) {c : Constant} {i : UInt16}
    (hi : p.find? c = some i) : q.find? c = some i := by
  obtain ⟨rest, hrest⟩ := h.isPrefix
  rw [find?_eq] at hi ⊢
  obtain ⟨k, hk, rfl⟩ := Option.map_eq_some_iff.mp hi
  rw [← hrest, List.findIdx?_append, hk]
  rfl

theorem Growth.utf8_of_lt {p q : Pool} (h : Growth p q) {i : UInt16} (hi : i.toNat < p.size) :
    q.utf8 i = p.utf8 i := by
  unfold Pool.utf8
  rw [h.slot_of_lt hi]

section LookUps

variable {p q : Pool} (h : Growth p q)
include h

theorem Growth.constant {i : UInt16} {c : Constant} (hi : p.constant i = .ok c) :
    q.constant i = .ok c := by
  unfold Pool.constant at hi ⊢
  cases hs : p.slot i <;> simp only [hs] at hi <;> try cases hi
  all_goals rw [h.slot (by simp [hs]), hs]

theorem Growth.utf8 {i : UInt16} {text : String} (hi : p.utf8 i = .ok text) :
    q.utf8 i = .ok text := by
  unfold Pool.utf8 at hi ⊢
  cases hs : p.slot i <;> simp only [hs] at hi <;> try cases hi
  rw [h.slot (by simp [hs]), hs]

theorem Growth.className {i : UInt16} {name : String} (hi : p.className i = .ok name) :
    q.className i = .ok name := by
  unfold Pool.className at hi ⊢
  cases hs : p.slot i <;> simp only [hs] at hi <;> try cases hi
  rw [h.slot (by simp [hs]), hs]
  exact h.utf8 hi

theorem Growth.integer {i : UInt16} {value : Int32} (hi : p.integer i = .ok value) :
    q.integer i = .ok value := by
  unfold Pool.integer at hi ⊢
  cases hs : p.slot i <;> simp only [hs] at hi <;> try cases hi
  rw [h.slot (by simp [hs]), hs]

theorem Growth.nameAndType {i : UInt16} {x : String × String}
    (hi : p.nameAndType i = .ok x) : q.nameAndType i = .ok x := by
  unfold Pool.nameAndType at hi ⊢
  cases hs : p.slot i <;> simp only [hs] at hi <;> try cases hi
  rw [h.slot (by simp [hs]), hs]
  obtain ⟨name, hname, hi⟩ := except_bind_eq_ok.mp hi
  obtain ⟨descriptor, hdescriptor, hi⟩ := except_bind_eq_ok.mp hi
  cases (except_pure_eq_ok.mp hi)
  simp only [h.utf8 hname, h.utf8 hdescriptor]
  rfl

theorem Growth.memberRef {i : UInt16} {m : MemberRef} (hi : p.memberRef i = .ok m) :
    q.memberRef i = .ok m := by
  unfold Pool.memberRef at hi ⊢
  cases hs : p.slot i <;> simp only [hs] at hi <;> try cases hi
  all_goals
    rw [h.slot (by simp [hs]), hs]
    obtain ⟨nat, hnat, hi⟩ := except_bind_eq_ok.mp hi
    obtain ⟨owner, howner, hi⟩ := except_bind_eq_ok.mp hi
    simp only [h.nameAndType hnat, h.className howner, bind, Except.bind]
    exact hi

end LookUps

end Pool

/-! ## §3 Actions -/

/-- Whatever comes of the action, the pool it leaves has grown from the one it was given. -/
def Interning.Grows {α : Type} (x : Interning α) : Prop :=
  ∀ p, Pool.Growth p (stateAfter x p)

namespace Interning

variable {α β : Type}

theorem Grows.growth {x : Interning α} (hx : x.Grows) {p q : Pool} {a : α}
    (h : x p = .ok a q) : Pool.Growth p q :=
  Moves.of_ok hx h

theorem Grows.pure (a : α) : Grows (pure a : Interning α) := fun _ => .refl

theorem Grows.throw (e : BuildError) : Grows (throw e : Interning α) := fun _ => .refl

theorem Grows.ofExcept (x : Except BuildError α) : Grows (Interning.ofExcept x) := by
  cases x with
  | error e => exact .throw e
  | ok a => exact .pure a

theorem Grows.ofFormat (x : Except FormatError α) : Grows (Interning.ofFormat x) := by
  cases x with
  | error e => exact .throw (.format e)
  | ok a => exact .pure a

theorem Grows.bind {x : Interning α} {f : α → Interning β} (hx : x.Grows)
    (hf : ∀ a, (f a).Grows) : (x >>= f).Grows :=
  Moves.bind Pool.Growth.trans hx hf

theorem Grows.ite {c : Prop} [Decidable c] {x y : Interning α} (hx : x.Grows) (hy : y.Grows) :
    Grows (if c then x else y) := by
  by_cases h : c
  · rwa [if_pos h]
  · rwa [if_neg h]

theorem Grows.foldlM {f : β → α → Interning β} (hf : ∀ b a, (f b a).Grows) (l : List α) :
    ∀ b, Grows (l.foldlM f b) := by
  induction l with
  | nil => exact fun b => .pure b
  | cons a l ih => exact fun b => .bind (hf b a) ih

theorem ofExcept_eq_ok {x : Except BuildError α} {a : α} {p q : Pool} :
    Interning.ofExcept x p = .ok a q ↔ x = .ok a ∧ p = q :=
  state_lift_eq_ok Interning.ofExcept (fun _ => rfl) (fun _ => rfl)

theorem ofFormat_eq_ok {x : Except FormatError α} {a : α} {p q : Pool} :
    Interning.ofFormat x p = .ok a q ↔ x = .ok a ∧ p = q :=
  state_lift_eq_ok Interning.ofFormat (fun _ => rfl) (fun _ => rfl)

theorem reading_eq_ok {look : Pool → Except FormatError α} {a : α} {p q : Pool} :
    Interning.reading look p = .ok a q ↔ look p = .ok a ∧ p = q :=
  ofFormat_eq_ok

end Interning

namespace Pool

open Interning

theorem grows_intern {c : Constant} (hc : c ≠ .unused) : Grows (intern c) := by
  intro p
  simp only [stateAfter, intern]
  cases hf : p.find? c with
  | some i => exact .refl
  | none =>
      by_cases hfit : p.size + c.slots ≤ maxSlots
      · simpa only [hfit, if_true] using Growth.push .refl hc hf hfit
      · simpa only [hfit, if_false] using Growth.refl

theorem grows_addUtf8 (text : String) : Grows (addUtf8 text) := grows_intern (by simp)

theorem grows_addClass (name : String) : Grows (addClass name) :=
  .bind (grows_addUtf8 name) fun _ => grows_intern (by simp)

theorem grows_addNameAndType (name descriptor : String) :
    Grows (addNameAndType name descriptor) :=
  .bind (grows_addUtf8 name) fun _ =>
    .bind (grows_addUtf8 descriptor) fun _ => grows_intern (by simp)

theorem grows_addFieldRef (m : MemberRef) : Grows (addFieldRef m) :=
  .bind (grows_addClass m.owner) fun _ =>
    .bind (grows_addNameAndType m.name m.descriptor) fun _ => grows_intern (by simp)

theorem grows_addMethodRef (m : MemberRef) : Grows (addMethodRef m) :=
  .bind (grows_addClass m.owner) fun _ =>
    .bind (grows_addNameAndType m.name m.descriptor) fun _ => grows_intern (by simp)

/-- The slot whose index is given for a constant holds it. -/
theorem slot_of_intern {p q : Pool} {c : Constant} {i : UInt16} (hp : p.Addressable)
    (h : intern c p = .ok i q) : q.slot i = c := by
  have denotes {r : Pool} {k : Nat} (hk : r.slots.toList[k]? = some c)
      (hr : r.Addressable) : r.slot (UInt16.ofNat k) = c := by
    have hlt : k < r.slots.toList.length := (List.getElem?_eq_some_iff.mp hk).1
    have hnat : (UInt16.ofNat k).toNat = k := by
      simp only [Addressable, size, Array.length_toList] at hr hlt
      exact UInt16.toNat_ofNat_of_lt' (show k < 65536 by omega)
    rw [slot_eq, hnat, hk]
    rfl
  simp only [intern] at h
  cases hf : p.find? c with
  | some j =>
      simp only [hf, EStateM.Result.ok.injEq] at h
      obtain ⟨rfl, rfl⟩ := h
      obtain ⟨k, hk, rfl⟩ := Option.map_eq_some_iff.mp hf
      obtain ⟨hlt, hat, -⟩ := Array.findIdx?_eq_some_iff_getElem.mp hk
      refine denotes ?_ hp
      rw [Array.getElem?_toList, Array.getElem?_eq_getElem hlt]
      exact congrArg some (by simpa using hat)
  | none =>
      simp only [hf] at h
      split at h <;> try cases h
      refine denotes ?_ ?_
      · rw [toList_push, List.getElem?_append_right (by simp [size])]
        unfold spread
        split <;> simp [size]
      · have hfit : p.size + c.slots ≤ maxSlots := by assumption
        unfold Addressable
        rw [size_push]
        exact Nat.le_trans hfit (by decide)

/-- A constant that is there already is found, and the pool stays as it is. -/
theorem intern_of_mem {p : Pool} {c : Constant} (h : c ∈ p.slots.toList) :
    ∃ i, intern c p = .ok i p := by
  unfold intern
  cases hfind : p.find? c with
  | some i => exact ⟨i, rfl⟩
  | none => exact absurd h (find?_eq_none_iff.mp hfind)

theorem intern_of_new {p : Pool} {c : Constant} (h : c ∉ p.slots.toList)
    (hfits : p.size + c.slots ≤ maxSlots) : intern c p = .ok (UInt16.ofNat p.size) (p.push c) := by
  unfold intern
  rw [find?_eq_none_iff.mpr h]
  exact if_pos hfits

theorem intern_of_full {p : Pool} {c : Constant} (h : c ∉ p.slots.toList)
    (hfull : maxSlots < p.size + c.slots) : intern c p = .error .poolOverflow p := by
  unfold intern
  rw [find?_eq_none_iff.mpr h]
  exact if_neg (Nat.not_le.mpr hfull)

/-- A constant is found, or it is added, or there is no room for it. -/
theorem intern_cases (c : Constant) (p : Pool) :
    (c ∈ p.slots.toList ∧ ∃ i, intern c p = .ok i p) ∨
      c ∉ p.slots.toList ∧ ((∃ i, intern c p = .ok i (p.push c)) ∨
        maxSlots < p.size + c.slots ∧ intern c p = .error .poolOverflow p) := by
  by_cases hmem : c ∈ p.slots.toList
  · exact .inl ⟨hmem, intern_of_mem hmem⟩
  · refine .inr ⟨hmem, ?_⟩
    rcases Nat.lt_or_ge maxSlots (p.size + c.slots) with hfull | hfits
    · exact .inr ⟨hfull, intern_of_full hmem hfull⟩
    · exact .inl ⟨_, intern_of_new hmem hfits⟩

/-- A constant is interned to the first slot that holds it. -/
theorem find?_of_intern {p q : Pool} {c : Constant} {i : UInt16} (h : intern c p = .ok i q) :
    q.find? c = some i := by
  unfold intern at h
  split at h
  · next hfound =>
    cases h
    exact hfound
  · next hfresh =>
    split at h
    · cases h
      have hnone : p.slots.toList.findIdx? (· == c) = none := by
        rw [List.findIdx?_eq_none_iff]
        intro d hd
        have hne : d ≠ c := fun hdc => find?_eq_none_iff.mp hfresh (hdc ▸ hd)
        simpa using hne
      rw [find?_eq, toList_push, List.findIdx?_append, hnone]
      unfold spread
      split <;> simp [List.findIdx?_cons, size]
    · cases h

/-- The index given for a text denotes that text. -/
theorem utf8_of_addUtf8 {p q : Pool} {text : String} {i : UInt16} (hp : p.Addressable)
    (h : addUtf8 text p = .ok i q) : q.utf8 i = .ok text := by
  simp only [Pool.utf8, slot_of_intern hp h]

/-! ### What the indices of compound constants denote -/

section Denoted

variable {p q : Pool} {i : UInt16} (hp : p.Addressable)
include hp

theorem integer_of_addInteger {value : Int32} (h : addInteger value p = .ok i q) :
    q.integer i = .ok value := by
  simp only [Pool.integer, slot_of_intern hp h]

theorem className_of_addClass {name : String} (h : addClass name p = .ok i q) :
    q.className i = .ok name := by
  obtain ⟨text, p₁, htext, h⟩ := state_bind_eq_ok.mp h
  have hp₁ := ((grows_addUtf8 name).growth htext).addressable hp
  have hgrowth : Growth p₁ q := (grows_intern (by simp)).growth h
  simp only [Pool.className, slot_of_intern hp₁ h, hgrowth.utf8 (utf8_of_addUtf8 hp htext)]

theorem nameAndType_of_addNameAndType {name descriptor : String}
    (h : addNameAndType name descriptor p = .ok i q) :
    q.nameAndType i = .ok (name, descriptor) := by
  obtain ⟨n, p₁, hname, h⟩ := state_bind_eq_ok.mp h
  obtain ⟨d, p₂, hdescriptor, h⟩ := state_bind_eq_ok.mp h
  have hp₁ := ((grows_addUtf8 name).growth hname).addressable hp
  have hgrowth₂ := (grows_addUtf8 descriptor).growth hdescriptor
  have hgrowth : Growth p₂ q := (grows_intern (by simp)).growth h
  simp only [Pool.nameAndType, slot_of_intern (hgrowth₂.addressable hp₁) h]
  refine except_bind_eq_ok.mpr ⟨name, ?_, except_bind_eq_ok.mpr ⟨descriptor, ?_, rfl⟩⟩
  · exact (hgrowth₂.trans hgrowth).utf8 (utf8_of_addUtf8 hp hname)
  · exact hgrowth.utf8 (utf8_of_addUtf8 hp₁ hdescriptor)

/-- A reference made of a member's class and of its name and descriptor denotes the member, whether it
is one to a field or one to a method. -/
theorem memberRef_of_parts {make : UInt16 → UInt16 → Constant} {m : MemberRef}
    (hmake : ∀ owner nat,
      make owner nat = .fieldRef owner nat ∨ make owner nat = .methodRef owner nat)
    (h : (do
      let owner ← addClass m.owner
      let nat ← addNameAndType m.name m.descriptor
      intern (make owner nat) : Interning UInt16) p = .ok i q) : q.memberRef i = .ok m := by
  obtain ⟨owner, p₁, howner, h⟩ := state_bind_eq_ok.mp h
  obtain ⟨nat, p₂, hnat, h⟩ := state_bind_eq_ok.mp h
  have hp₁ := ((grows_addClass m.owner).growth howner).addressable hp
  have hgrowth₂ := (grows_addNameAndType m.name m.descriptor).growth hnat
  have hp₂ := hgrowth₂.addressable hp₁
  have hgrowth : Growth p₂ q := by
    refine (grows_intern ?_).growth h
    rcases hmake owner nat with hmade | hmade <;> simp [hmade]
  have hname := hgrowth.nameAndType (nameAndType_of_addNameAndType hp₁ hnat)
  have hclass := (hgrowth₂.trans hgrowth).className (className_of_addClass hp howner)
  rw [Pool.memberRef, slot_of_intern hp₂ h]
  rcases hmake owner nat with hmade | hmade <;> rw [hmade] <;>
    exact except_bind_eq_ok.mpr ⟨_, hname, except_bind_eq_ok.mpr ⟨_, hclass, rfl⟩⟩

theorem memberRef_of_addFieldRef {m : MemberRef} (h : addFieldRef m p = .ok i q) :
    q.memberRef i = .ok m :=
  memberRef_of_parts hp (fun _ _ => .inl rfl) h

theorem memberRef_of_addMethodRef {m : MemberRef} (h : addMethodRef m p = .ok i q) :
    q.memberRef i = .ok m :=
  memberRef_of_parts hp (fun _ _ => .inr rfl) h

end Denoted

end Pool

namespace VerificationType

theorem grows_ofFieldType (t : FieldType) : (ofFieldType t).Grows := by
  unfold ofFieldType
  split <;> try exact .pure _
  split
  · exact .bind (Pool.grows_addClass _) fun _ => .pure _
  · exact .pure _

end VerificationType

namespace FrameState

theorem grows_parameterTypes (types : List FieldType) :
    ∀ done, (parameterTypes done types).Grows := by
  induction types with
  | nil => exact fun done => .pure done.reverse
  | cons t rest ih =>
      exact fun done => .bind (VerificationType.grows_ofFieldType t) fun _ => ih _

theorem grows_entryLocals (thisClass : UInt16) (isStatic isConstructor : Bool)
    (m : MethodType) : (entryLocals thisClass isStatic isConstructor m).Grows :=
  grows_parameterTypes _ _

end FrameState

/-! ## §4 Attributes and annotations -/

theorem Attribute.grows_set (name : String) (payload : Bytes) (attributes : List Attribute) :
    (Attribute.set name payload attributes).Grows :=
  .bind (Pool.grows_addUtf8 name) fun _ => .pure _

namespace ElementValue

open Interning

theorem grows_index {constant : Interning UInt16} (h : constant.Grows) (out : Array UInt8) :
    Grows (index constant out) :=
  .bind h fun _ => .pure _

theorem grows_count (table : Table) (n : Nat) (out : Array UInt8) :
    Grows (count table n out) :=
  .bind (.ofExcept _) fun _ => .pure _

mutual

theorem grows_write (out : Array UInt8) : ∀ v, Grows (write out v)
  | .byte _ | .char _ | .short _ | .boolean _ | .int _ | .long _ | .float _ | .double _
  | .text _ | .classLiteral _ => by
      simp only [write]
      exact grows_index (Pool.grows_intern (by simp)) _
  | .enumConstant type name => by
      simp only [write]
      exact .bind (grows_index (Pool.grows_addUtf8 type) _) fun _ =>
        grows_index (Pool.grows_addUtf8 name) _
  | .nested type elements => by
      simp only [write]
      exact .bind (grows_index (Pool.grows_addUtf8 type) _) fun _ =>
        .bind (grows_count _ _ _) fun out => grows_writeElements out elements
  | .array values => by
      simp only [write]
      exact .bind (grows_count _ _ _) fun out => grows_writeValues out values

theorem grows_writeElements (out : Array UInt8) : ∀ l, Grows (writeElements out l)
  | [] => .pure out
  | (name, value) :: rest => by
      simp only [writeElements]
      exact .bind (grows_index (Pool.grows_addUtf8 name) out) fun out =>
        .bind (grows_write out value) fun out => grows_writeElements out rest

theorem grows_writeValues (out : Array UInt8) : ∀ l, Grows (writeValues out l)
  | [] => .pure out
  | value :: rest => by
      simp only [writeValues]
      exact .bind (grows_write out value) fun out => grows_writeValues out rest

end

end ElementValue

namespace AnnotationUse

open Interning

theorem grows_write (out : Array UInt8) (a : AnnotationUse) : Grows (write out a) :=
  .bind (ElementValue.grows_index (Pool.grows_addUtf8 a.type) out) fun _ =>
    .bind (ElementValue.grows_count _ _ _) fun _ => ElementValue.grows_writeElements _ _

theorem grows_setVisible (annotations : List AnnotationUse) (attributes : List Attribute) :
    Grows (setVisible annotations attributes) :=
  .bind
    (.bind (.ofExcept _) fun _ => .bind (.foldlM grows_write annotations _) fun _ => .pure _)
    fun _ => Attribute.grows_set _ _ _

end AnnotationUse

end Reshape
