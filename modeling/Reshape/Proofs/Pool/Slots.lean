import Reshape.Proofs.Pool.Stored

/-!
# The slots of a pool one by one

In a regular pool slot zero holds no constant, the slot behind a long or double holds none, and
every other slot holds one.  That is said of each slot on its own; it comes to the same as a row
of constants, each spread over the slots it takes, which is what reading and storing work with.
Whatever is added to a regular pool, and whether or not it fits, the pool stays regular.
-/

namespace Reshape

namespace Pool

/-! ## §1 Regular pools -/

structure Regular (p : Pool) : Prop where
  zero : p.slots[0]? = some .unused
  behind_wide : ∀ i c, p.slots[i]? = some c → c.isWide = true →
    p.slots[i + 1]? = some .unused
  only_there : ∀ i, p.slots[i]? = some .unused →
    i = 0 ∨ ∃ j c, i = j + 1 ∧ p.slots[j]? = some c ∧ c.isWide = true

/-- The slots behind slot zero keep the rule among themselves. -/
structure InRow (l : List Constant) : Prop where
  behind_wide : ∀ i c, l[i]? = some c → c.isWide = true → l[i + 1]? = some .unused
  only_there : ∀ i, l[i]? = some .unused →
    ∃ j c, i = j + 1 ∧ l[j]? = some c ∧ c.isWide = true

theorem regular_iff_inRow {p : Pool} :
    p.Regular ↔ ∃ l, p.slots.toList = .unused :: l ∧ InRow l := by
  have hslot (i : Nat) : p.slots[i]? = p.slots.toList[i]? := Array.getElem?_toList.symm
  constructor
  · intro h
    obtain ⟨l, hl⟩ : ∃ l, p.slots.toList = .unused :: l := by
      have hzero := h.zero
      rw [hslot] at hzero
      cases hlist : p.slots.toList with
      | nil => simp [hlist] at hzero
      | cons c l =>
          rw [hlist, List.getElem?_cons_zero] at hzero
          exact ⟨l, by rw [Option.some.inj hzero]⟩
    have hbehind (i : Nat) : p.slots[i + 1]? = l[i]? := by
      rw [hslot, hl, List.getElem?_cons_succ]
    refine ⟨l, hl, fun i c hc hw => ?_, fun i hi => ?_⟩
    · rw [← hbehind] at hc ⊢
      exact h.behind_wide (i + 1) c hc hw
    · rw [← hbehind] at hi
      rcases h.only_there (i + 1) hi with hi | ⟨j, c, hij, hc, hw⟩
      · omega
      · cases j with
        | zero =>
            rw [h.zero] at hc
            cases hc
            cases hw
        | succ j => exact ⟨j, c, Nat.succ.inj hij, hbehind j ▸ hc, hw⟩
  · rintro ⟨l, hl, hrow⟩
    have hzero : p.slots[0]? = some .unused := by
      rw [hslot, hl, List.getElem?_cons_zero]
    have hbehind (i : Nat) : p.slots[i + 1]? = l[i]? := by
      rw [hslot, hl, List.getElem?_cons_succ]
    refine ⟨hzero, fun i c hc hw => ?_, fun i hi => ?_⟩
    · cases i with
      | zero =>
          rw [hzero] at hc
          cases hc
          cases hw
      | succ i =>
          rw [hbehind] at hc ⊢
          exact hrow.behind_wide i c hc hw
    · cases i with
      | zero => exact .inl rfl
      | succ i =>
          rw [hbehind] at hi
          obtain ⟨j, c, rfl, hc, hw⟩ := hrow.only_there i hi
          exact .inr ⟨j + 1, c, rfl, hbehind j ▸ hc, hw⟩

/-! ## §2 Rows of constants -/

section Front

variable {c : Constant} {l : List Constant}

theorem InRow.ne_unused (h : InRow (c :: l)) : c ≠ .unused := by
  rintro rfl
  obtain ⟨j, d, hj, -⟩ := h.only_there 0 rfl
  omega

/-- A narrow constant at the front leaves the rule as it is. -/
theorem inRow_cons_narrow (hc : c ≠ .unused) (hw : c.isWide = false) :
    InRow (c :: l) ↔ InRow l := by
  constructor
  · intro h
    refine ⟨fun i d hd hdw => h.behind_wide (i + 1) d hd hdw, fun i hi => ?_⟩
    obtain ⟨j, d, hij, hd, hdw⟩ := h.only_there (i + 1) hi
    cases j with
    | zero =>
        rw [List.getElem?_cons_zero, Option.some.injEq] at hd
        rw [← hd, hw] at hdw
        cases hdw
    | succ j => exact ⟨j, d, Nat.succ.inj hij, hd, hdw⟩
  · intro h
    refine ⟨fun i d hd hdw => ?_, fun i hi => ?_⟩
    · cases i with
      | zero =>
          rw [List.getElem?_cons_zero, Option.some.injEq] at hd
          rw [← hd, hw] at hdw
          cases hdw
      | succ i => exact h.behind_wide i d hd hdw
    · cases i with
      | zero => exact absurd (Option.some.inj hi) hc
      | succ i =>
          obtain ⟨j, d, rfl, hd, hdw⟩ := h.only_there i hi
          exact ⟨j + 1, d, rfl, hd, hdw⟩

/-- A wide constant leaves it as it is together with the slot behind it. -/
theorem inRow_cons_wide (hw : c.isWide = true) : InRow (c :: .unused :: l) ↔ InRow l := by
  constructor
  · intro h
    refine ⟨fun i d hd hdw => h.behind_wide (i + 2) d hd hdw, fun i hi => ?_⟩
    obtain ⟨j, d, hij, hd, hdw⟩ := h.only_there (i + 2) hi
    match j with
    | 0 => omega
    | 1 =>
        rw [List.getElem?_cons_succ, List.getElem?_cons_zero, Option.some.injEq] at hd
        rw [← hd] at hdw
        cases hdw
    | j + 2 => exact ⟨j, d, by omega, hd, hdw⟩
  · intro h
    refine ⟨fun i d hd hdw => ?_, fun i hi => ?_⟩
    · match i with
      | 0 => rfl
      | 1 =>
          rw [List.getElem?_cons_succ, List.getElem?_cons_zero, Option.some.injEq] at hd
          rw [← hd] at hdw
          cases hdw
      | i + 2 => exact h.behind_wide i d hd hdw
    · match i with
      | 0 =>
          rw [List.getElem?_cons_zero, Option.some.injEq] at hi
          rw [hi] at hw
          cases hw
      | 1 => exact ⟨0, c, rfl, rfl, hw⟩
      | i + 2 =>
          obtain ⟨j, d, rfl, hd, hdw⟩ := h.only_there i hi
          exact ⟨j + 2, d, rfl, hd, hdw⟩

end Front

theorem inRow_flatMap {cs : List Constant} (hcs : ∀ c ∈ cs, c ≠ .unused) :
    InRow (cs.flatMap spread) := by
  induction cs with
  | nil => exact ⟨by simp, by simp⟩
  | cons c cs ih =>
      have hrest := ih fun d hd => hcs d (List.mem_cons_of_mem c hd)
      rw [List.flatMap_cons]
      cases hw : c.isWide with
      | true =>
          simp only [spread, hw, if_true]
          exact (inRow_cons_wide hw).mpr hrest
      | false =>
          simp only [spread, hw]
          exact (inRow_cons_narrow (hcs c List.mem_cons_self) hw).mpr hrest

/-- The constants are taken from the front, a wide one with the slot behind it. -/
theorem exists_of_inRow {n : Nat} : ∀ {l : List Constant}, l.length ≤ n → InRow l →
    ∃ cs : List Constant, (∀ c ∈ cs, c ≠ .unused) ∧ l = cs.flatMap spread := by
  induction n with
  | zero =>
      intro l hlength h
      rw [List.eq_nil_of_length_eq_zero (Nat.le_zero.mp hlength)]
      exact ⟨[], by simp, rfl⟩
  | succ n ih =>
      intro l hlength h
      cases l with
      | nil => exact ⟨[], by simp, rfl⟩
      | cons c l =>
          have hc := h.ne_unused
          rw [List.length_cons] at hlength
          cases hw : c.isWide with
          | false =>
              obtain ⟨cs, hcs, hl⟩ := ih (by omega) ((inRow_cons_narrow hc hw).mp h)
              exact ⟨c :: cs, List.forall_mem_cons.mpr ⟨hc, hcs⟩, by simp [spread, hw, hl]⟩
          | true =>
              have hnext := h.behind_wide 0 c rfl hw
              cases l with
              | nil => simp at hnext
              | cons d l =>
                  rw [List.getElem?_cons_succ, List.getElem?_cons_zero, Option.some.injEq] at hnext
                  subst hnext
                  rw [List.length_cons] at hlength
                  obtain ⟨cs, hcs, hl⟩ := ih (by omega) ((inRow_cons_wide hw).mp h)
                  exact ⟨c :: cs, List.forall_mem_cons.mpr ⟨hc, hcs⟩, by simp [spread, hw, hl]⟩

/-- A pool is regular exactly if it is slot zero and a row of constants behind it. -/
theorem regular_iff {p : Pool} : p.Regular ↔ p.WellFormed := by
  rw [regular_iff_inRow]
  constructor
  · rintro ⟨l, hl, hrow⟩
    obtain ⟨cs, hcs, rfl⟩ := exists_of_inRow (Nat.le_refl l.length) hrow
    exact ⟨cs, hcs, hl⟩
  · rintro ⟨cs, hcs, hslots⟩
    exact ⟨_, hslots, inRow_flatMap hcs⟩

/-! ## §3 Additions -/

/-- What can be asked to be added to a pool. -/
inductive Addition
  | utf8 (text : String)
  | classRef (name : String)
  | stringRef (text : String)
  | integer (value : Int32)
  | float (bits : UInt32)
  | long (value : Int64)
  | double (bits : UInt64)
  | nameAndType (name descriptor : String)
  | fieldRef (m : MemberRef)
  | methodRef (m : MemberRef)

def Addition.action : Addition → Interning UInt16
  | utf8 text => addUtf8 text
  | classRef name => addClass name
  | stringRef text => addString text
  | integer value => addInteger value
  | float bits => addFloat bits
  | long value => addLong value
  | double bits => addDouble bits
  | nameAndType name descriptor => addNameAndType name descriptor
  | fieldRef m => addFieldRef m
  | methodRef m => addMethodRef m

theorem Addition.grows (a : Addition) : a.action.Grows := by
  cases a with
  | utf8 text => exact grows_addUtf8 text
  | classRef name => exact grows_addClass name
  | stringRef text => exact .bind (grows_addUtf8 text) fun _ => grows_intern (by simp)
  | integer value => exact grows_intern (by simp)
  | float bits => exact grows_intern (by simp)
  | long value => exact grows_intern (by simp)
  | double bits => exact grows_intern (by simp)
  | nameAndType name descriptor => exact grows_addNameAndType name descriptor
  | fieldRef m => exact grows_addFieldRef m
  | methodRef m => exact grows_addMethodRef m

/-- The pool after more has been asked to be added, one after the other, of which some may not have
fitted any more. -/
def after (p : Pool) (additions : List Addition) : Pool :=
  additions.foldl (fun p a => stateAfter a.action p) p

theorem after_cons (p : Pool) (a : Addition) (additions : List Addition) :
    p.after (a :: additions) = (stateAfter a.action p).after additions := rfl

theorem growth_after (additions : List Addition) :
    ∀ p : Pool, Growth p (p.after additions) := by
  induction additions with
  | nil => exact fun p => .refl
  | cons a additions ih => exact fun p => (a.grows p).trans (ih (stateAfter a.action p))

theorem Growth.regular {p q : Pool} (h : Growth p q) (hp : p.Regular) : q.Regular :=
  regular_iff.mpr (h.wellFormed (regular_iff.mp hp))

end Pool

end Reshape
