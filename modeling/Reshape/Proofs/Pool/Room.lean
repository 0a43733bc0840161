import Mathlib.Algebra.BigOperators.Group.Finset.Basic
import Mathlib.Algebra.Order.BigOperators.Group.Finset
import Reshape.Proofs.Pool.Slots

/-!
# Room in a pool

A pool that is built up anew holds each constant once, so whether something finds room there is a
matter of counting constants.  Two pools that are built up in the same way but for a few short
names come to the same end, as long as both have room.
-/

namespace Reshape

/-! ## §1 Pools that are built up side by side -/

/-- Whether the constant cannot be stored; only texts can be too long. -/
def Constant.isTooLong (c : Constant) : Bool :=
  match c.encode with
  | .ok _ => false
  | .error _ => true

theorem Constant.isTooLong_of_isWide {c : Constant} (h : c.isWide = true) :
    c.isTooLong = false := by
  cases c with
  | long | double => rfl
  | _ => cases h

namespace Pool

/-- The constants that cannot be stored, in order. -/
def tooLong (p : Pool) : List Constant := p.slots.toList.filter Constant.isTooLong

theorem tooLong_push (p : Pool) (c : Constant) :
    (p.push c).tooLong = p.tooLong ++ [c].filter Constant.isTooLong := by
  unfold tooLong
  rw [toList_push, List.filter_append]
  congr 1
  unfold spread
  by_cases hw : c.isWide = true
  · have hunused : Constant.isTooLong .unused = false := rfl
    simp [hw, Constant.isTooLong_of_isWide hw, hunused]
  · rw [if_neg hw]

/-- A constant that is too long is in both pools or in none, and another one does not matter. -/
theorem tooLong_push_of_mem {p q : Pool} {c : Constant} (h : p.tooLong = q.tooLong)
    (hp : c ∈ p.slots.toList) (hq : c ∉ q.slots.toList) : (q.push c).tooLong = p.tooLong := by
  have hshort : c.isTooLong = false := by
    rw [← Bool.not_eq_true]
    intro hc
    have hmem : c ∈ q.tooLong := h ▸ List.mem_filter.mpr ⟨hp, hc⟩
    exact hq (List.mem_filter.mp hmem).1
  rw [tooLong_push, List.filter_cons_of_neg (by simp [hshort]), List.filter_nil, List.append_nil, h]

end Pool

open Pool

/-- From pools with the same texts that are too long, the actions come to the same end if there is
room. -/
def Interning.Together {α β : Type} (x : Interning α) (y : Interning β) : Prop :=
  Beside (fun p q : Pool => p.tooLong = q.tooLong) (· = BuildError.poolOverflow) x y

namespace Interning.Together

variable {α β γ δ : Type}

theorem pure (a : α) (b : β) :
    Together (Pure.pure a : Interning α) (Pure.pure b : Interning β) :=
  Beside.pure a b

theorem throw (e : BuildError) :
    Together (MonadExcept.throw e : Interning α) (MonadExcept.throw e : Interning β) :=
  Beside.throw e

theorem bind {x : Interning α} {y : Interning β} {f : α → Interning γ} {g : β → Interning δ}
    (hxy : x.Together y) (hfg : ∀ a b, (f a).Together (g b)) : (x >>= f).Together (y >>= g) :=
  Beside.bind hxy hfg

theorem ofExcept (x : Except BuildError α) :
    Together (Interning.ofExcept x) (Interning.ofExcept x) := by
  cases x with
  | error e => exact throw e
  | ok a => exact pure a a

theorem intern (c : Constant) : Together (intern c) (intern c) := by
  intro p q hpq
  rcases intern_cases c p with ⟨hp, i, hi⟩ | ⟨hp, ⟨i, hi⟩ | ⟨-, hi⟩⟩ <;>
    rcases intern_cases c q with ⟨hq, j, hj⟩ | ⟨hq, ⟨j, hj⟩ | ⟨-, hj⟩⟩ <;> rw [hi, hj]
  · exact .ok hpq
  · exact .ok (tooLong_push_of_mem hpq hp hq).symm
  · exact .right rfl
  · exact .ok (tooLong_push_of_mem hpq.symm hq hp)
  · exact .ok (by rw [tooLong_push, tooLong_push, hpq])
  all_goals first | exact .right rfl | exact .left rfl

theorem addUtf8 (text : String) : Together (addUtf8 text) (addUtf8 text) := intern _

end Interning.Together

namespace Pool

end Pool

/-! ## §2 Constants of one kind -/

/-- The action adds constants of one kind only, and if it fails for want of room, there is none for
a constant of this kind. -/
structure Interning.Adds {α : Type} (K : Constant → Prop) (x : Interning α) : Prop where
  only : Moves (fun p q : Pool => ∀ c ∈ q.slots.toList, c ∈ p.slots.toList ∨ c = .unused ∨ K c) x
  full : ∀ p q, x p = .error .poolOverflow q →
    ∃ c, K c ∧ c ∉ q.slots.toList ∧ maxSlots < q.size + c.slots

namespace Interning.Adds

variable {α β : Type} {K : Constant → Prop}

theorem pure (a : α) : Adds K (Pure.pure a : Interning α) :=
  ⟨.pure (fun _ _ h => .inl h) a, nofun⟩

theorem throw {e : BuildError} (h : e ≠ .poolOverflow) :
    Adds K (MonadExcept.throw e : Interning α) := by
  refine ⟨.throw (fun _ _ h => .inl h) e, fun p q hthrow => ?_⟩
  cases hthrow
  exact absurd rfl h

theorem ofExcept {x : Except BuildError α} (h : x ≠ .error .poolOverflow) :
    Adds K (Interning.ofExcept x) := by
  cases x with
  | ok a => exact pure a
  | error e => exact throw fun he => h (he ▸ rfl)

theorem bind {x : Interning α} {f : α → Interning β} (hx : x.Adds K) (hf : ∀ a, (f a).Adds K) :
    (x >>= f).Adds K := by
  constructor
  · refine .bind (fun hpq hqr c hc => ?_) hx.only fun a => (hf a).only
    rcases hqr c hc with hc | hc
    · exact hpq c hc
    · exact .inr hc
  · intro p q h
    rcases state_bind_eq_error.mp h with h | ⟨a, r, -, h⟩
    · exact hx.full p q h
    · exact (hf a).full r q h

theorem foldlM {f : β → α → Interning β} {l : List α} (hf : ∀ a ∈ l, ∀ b, (f b a).Adds K) :
    ∀ b, Adds K (l.foldlM f b) := by
  induction l with
  | nil => exact fun b => pure b
  | cons a l ih =>
      rw [List.forall_mem_cons] at hf
      exact fun b => bind (hf.1 b) (ih hf.2)

theorem intern {c : Constant} (hc : K c) : Adds K (intern c) := by
  constructor
  · intro p d hd
    unfold stateAfter at hd
    rcases intern_cases c p with ⟨-, i, hi⟩ | ⟨-, ⟨i, hi⟩ | ⟨-, hi⟩⟩ <;> rw [hi] at hd
    · exact .inl hd
    · rcases mem_push hd with hd | hd | rfl
      · exact .inl hd
      · exact .inr (.inl hd)
      · exact .inr (.inr hc)
    · exact .inl hd
  · intro p q h
    rcases intern_cases c p with ⟨-, i, hi⟩ | ⟨hmem, ⟨i, hi⟩ | ⟨hfull, hi⟩⟩ <;> rw [hi] at h <;> cases h
    exact ⟨c, hc, hmem, hfull⟩

theorem addUtf8 {text : String} (h : K (.utf8 text)) : Adds K (addUtf8 text) := intern h

end Interning.Adds

/-! ## §3 Counting -/

namespace Pool

/-- How many slots the constants of the pool take if each is there once; the constant that is none
stands for slot zero. -/
def need (p : Pool) : Nat := ∑ c ∈ p.slots.toList.toFinset, c.slots

/-- Each constant is in the pool once. -/
structure Compact (p : Pool) : Prop where
  unused : .unused ∈ p.slots.toList
  size : p.size = p.need

theorem toFinset_push {p : Pool} (hp : .unused ∈ p.slots.toList) (c : Constant) :
    (p.push c).slots.toList.toFinset = insert c p.slots.toList.toFinset := by
  ext d
  rw [toList_push]
  unfold spread
  by_cases hw : c.isWide = true
  · rw [if_pos hw]
    simp only [List.mem_toFinset, List.mem_append, List.mem_cons, List.not_mem_nil, or_false,
      Finset.mem_insert]
    constructor
    · rintro (hd | rfl | rfl)
      · exact .inr hd
      · exact .inl rfl
      · exact .inr hp
    · rintro (rfl | hd)
      · exact .inr (.inl rfl)
      · exact .inl hd
  · rw [if_neg hw]
    simp

theorem Compact.push {p : Pool} {c : Constant} (hp : p.Compact) (hc : c ∉ p.slots.toList) :
    (p.push c).Compact := by
  constructor
  · rw [toList_push]
    exact List.mem_append_left _ hp.unused
  · rw [size_push, need, toFinset_push hp.unused, Finset.sum_insert (by simpa using hc), hp.size,
      Nat.add_comm]
    rfl

theorem Growth.compact {p q : Pool} (h : Growth p q) (hp : p.Compact) : q.Compact := by
  induction h with
  | refl => exact hp
  | push _ _ fresh _ ih => exact ih.push (find?_eq_none_iff.mp fresh)

theorem sum_insert_le (s : Finset Constant) (c : Constant) :
    ∑ d ∈ insert c s, d.slots ≤ c.slots + ∑ d ∈ s, d.slots := by
  by_cases hc : c ∈ s
  · rw [Finset.insert_eq_of_mem hc]
    exact Nat.le_add_left _ _
  · rw [Finset.sum_insert hc]

/-- A pool that may hold a constant several times takes at least the room for one of each. -/
theorem WellFormed.need_le {p : Pool} (hp : p.WellFormed) : p.need ≤ p.size := by
  obtain ⟨cs, -, hslots⟩ := hp
  unfold need size
  rw [← Array.length_toList, hslots]
  clear hslots
  induction cs with
  | nil => decide
  | cons c cs ih =>
      have hsub : (Constant.unused :: (c :: cs).flatMap spread).toFinset ⊆
          insert c (Constant.unused :: cs.flatMap spread).toFinset := by
        intro d hd
        rw [List.flatMap_cons] at hd
        simp only [List.toFinset_cons, List.toFinset_append, Finset.mem_insert, Finset.mem_union,
          List.mem_toFinset] at hd ⊢
        rcases hd with hd | hd | hd
        · exact .inr (.inl hd)
        · unfold spread at hd
          split at hd
          · simp only [List.mem_cons, List.not_mem_nil, or_false] at hd
            exact hd.imp_right .inl
          · exact .inl (List.mem_singleton.mp hd)
        · exact .inr (.inr hd)
      have hlength : (Constant.unused :: (c :: cs).flatMap spread).length =
          c.slots + (Constant.unused :: cs.flatMap spread).length := by
        rw [List.flatMap_cons, List.length_cons, List.length_append, length_spread,
          List.length_cons]
        omega
      calc ∑ d ∈ (Constant.unused :: (c :: cs).flatMap spread).toFinset, d.slots
          ≤ ∑ d ∈ insert c (Constant.unused :: cs.flatMap spread).toFinset, d.slots :=
            Finset.sum_le_sum_of_subset hsub
        _ ≤ c.slots + ∑ d ∈ (Constant.unused :: cs.flatMap spread).toFinset, d.slots :=
            sum_insert_le _ c
        _ ≤ c.slots + (Constant.unused :: cs.flatMap spread).length := Nat.add_le_add_left ih _
        _ = (Constant.unused :: (c :: cs).flatMap spread).length := hlength.symm

end Pool

/-- **There is room for constants** that a pool with each of them once can hold. -/
theorem Interning.Adds.fits {α : Type} {x : Interning α} {K : Finset Constant}
    (hx : x.Adds (· ∈ K)) (hgrows : x.Grows) {p q : Pool} (hp : p.Compact)
    (hroom : ∑ c ∈ p.slots.toList.toFinset ∪ K, c.slots ≤ maxSlots) :
    x p ≠ .error .poolOverflow q := by
  intro h
  have hafter : stateAfter x p = q := stateAfter_of_error h
  have hq : q.Compact := (hafter ▸ hgrows p : Growth p q).compact hp
  obtain ⟨c, hc, hmissing, hfull⟩ := hx.full p q h
  have honly : ∀ d ∈ q.slots.toList, d ∈ p.slots.toList ∨ d = .unused ∨ d ∈ K :=
    hafter ▸ hx.only p
  have hsub : insert c q.slots.toList.toFinset ⊆ p.slots.toList.toFinset ∪ K := by
    intro d hd
    rw [Finset.mem_insert, List.mem_toFinset] at hd
    rw [Finset.mem_union, List.mem_toFinset]
    rcases hd with rfl | hd
    · exact .inr hc
    · rcases honly d hd with hd | rfl | hd
      · exact .inl hd
      · exact .inl hp.unused
      · exact .inr hd
  have hneed : q.size + c.slots ≤ maxSlots := by
    calc q.size + c.slots = ∑ d ∈ insert c q.slots.toList.toFinset, d.slots := by
          rw [Finset.sum_insert (by simpa using hmissing), hq.size, need, Nat.add_comm]
      _ ≤ ∑ d ∈ p.slots.toList.toFinset ∪ K, d.slots := Finset.sum_le_sum_of_subset hsub
      _ ≤ maxSlots := hroom
  omega

end Reshape
