import Mathlib.Data.List.Basic
import Reshape.Proofs.Registry.Commit

/-!
# Generated names

A generated name ends in a number, and a dollar sign stands right before the number.  In front of it
there may be anything, since holders are named after classes of any name.  But numbers have no
dollar sign, so a name is told apart at its last one: names of accessor classes are different from
names of holders, and two names of one kind have the same number and, for holders, the same owner
only if they are the same.
-/

namespace Reshape

/-! ## §1 Stems and numbers -/

/-- A row is told apart at the last place of an item. -/
theorem split_at_last {α : Type} {a : α} {xs ys xs' ys' : List α}
    (h : xs ++ a :: ys = xs' ++ a :: ys') (hys : a ∉ ys) (hys' : a ∉ ys') :
    xs = xs' ∧ ys = ys' := by
  rcases List.append_eq_append_iff.mp h with ⟨zs, rfl, hrest⟩ | ⟨zs, rfl, hrest⟩
  · cases zs with
    | nil => simpa using hrest
    | cons z zs =>
        obtain ⟨rfl, hmore⟩ := List.cons.inj hrest
        exact (hys (hmore ▸ by simp)).elim
  · cases zs with
    | nil => simpa [eq_comm] using hrest
    | cons z zs =>
        obtain ⟨rfl, hmore⟩ := List.cons.inj hrest
        exact (hys' (hmore ▸ by simp)).elim

theorem toList_numeral (n : Nat) : (toString n).toList = Nat.toDigits 10 n := by
  rw [Nat.toString_eq_repr, Nat.toList_repr]

theorem dollar_notMem_numeral (n : Nat) : '$' ∉ (toString n).toList := by
  intro hmem
  rw [toList_numeral] at hmem
  have hdigit := Nat.isDigit_of_mem_toDigits (by decide) (by decide) hmem
  cases hdigit

theorem numeral_inj {m n : Nat} (h : (toString m).toList = (toString n).toList) : m = n := by
  rw [toList_numeral, toList_numeral] at h
  calc m = Nat.ofDigitChars 10 (Nat.toDigits 10 m) 0 := Nat.ofDigitChars_ten_toDigits.symm
    _ = Nat.ofDigitChars 10 (Nat.toDigits 10 n) 0 := by rw [h]
    _ = n := Nat.ofDigitChars_ten_toDigits

/-- A stem that ends in a dollar sign and a number behind it are told by the name. -/
theorem numbered_inj {stem stem' : String} {front front' : List Char} {m n : Nat}
    (hstem : stem.toList = front ++ ['$']) (hstem' : stem'.toList = front' ++ ['$'])
    (h : stem ++ toString m = stem' ++ toString n) : front = front' ∧ m = n := by
  have hlists := congrArg String.toList h
  rw [String.toList_append, String.toList_append, hstem, hstem', List.append_assoc,
    List.append_assoc] at hlists
  obtain ⟨hfront, hnumber⟩ :=
    split_at_last hlists (dollar_notMem_numeral m) (dollar_notMem_numeral n)
  exact ⟨hfront, numeral_inj hnumber⟩

/-! ## §2 Accessor classes and holders -/

/-- Generated classes are named as they are by default. -/
structure Config.NamedByDefault (config : Config) : Prop where
  stem : config.accessorStem = ({} : Config).accessorStem
  mark : config.holderMark = ({} : Config).holderMark

theorem Config.namedByDefault_default : ({} : Config).NamedByDefault := ⟨rfl, rfl⟩

/-- How many holder names an owner has been given. -/
def Context.count (c : Context) (owner : String) : Nat := (c.holderCounts.lookup owner).getD 0

/-- The name of an accessor class or of a holder that has been drawn. -/
inductive Context.HasIssued (c : Context) (drawn : Nat) : String → Prop
  | accessor {n : Nat} (before : n < drawn) :
      HasIssued c drawn (c.config.accessorStem ++ toString n)
  | holder {owner : String} {n : Nat} (before : n < c.count owner) :
      HasIssued c drawn (owner ++ c.config.holderMark ++ toString n)

namespace Config.NamedByDefault

variable {config : Config} (h : config.NamedByDefault)
include h

theorem toList_stem :
    config.accessorStem.toList = "org/hotfield/proxy/FieldProxy".toList ++ ['$'] := by
  rw [h.stem]
  decide

theorem toList_mark (owner : String) : (owner ++ config.holderMark).toList =
    (owner.toList ++ "$StaticFieldHolder".toList) ++ ['$'] := by
  have hmark : ({} : Config).holderMark.toList = "$StaticFieldHolder".toList ++ ['$'] := by decide
  rw [h.mark, String.toList_append, hmark, List.append_assoc]

theorem accessor_inj {m n : Nat}
    (hsame : config.accessorStem ++ toString m = config.accessorStem ++ toString n) : m = n :=
  (numbered_inj h.toList_stem h.toList_stem hsame).2

theorem holder_inj {owner owner' : String} {m n : Nat}
    (hsame : owner ++ config.holderMark ++ toString m = owner' ++ config.holderMark ++ toString n) :
    owner = owner' ∧ m = n := by
  obtain ⟨hfront, hnumber⟩ := numbered_inj (h.toList_mark owner) (h.toList_mark owner') hsame
  exact ⟨String.toList_inj.mp (List.append_cancel_right hfront), hnumber⟩

theorem accessor_ne_holder {owner : String} {m n : Nat} :
    config.accessorStem ++ toString m ≠ owner ++ config.holderMark ++ toString n := by
  intro hsame
  obtain ⟨hfront, -⟩ := numbered_inj h.toList_stem (h.toList_mark owner) hsame
  have hsuffix : "$StaticFieldHolder".toList <:+ "org/hotfield/proxy/FieldProxy".toList :=
    ⟨owner.toList, hfront.symm⟩
  revert hsuffix
  decide

end Config.NamedByDefault

namespace Context

variable {c c' : Context} {drawn drawn' : Nat} {name : String}

theorem HasIssued.mono (hconfig : c'.config = c.config) (hdrawn : drawn ≤ drawn')
    (hcount : ∀ owner, c.count owner ≤ c'.count owner) (h : c.HasIssued drawn name) :
    c'.HasIssued drawn' name := by
  cases h with
  | accessor before =>
      rw [← hconfig]
      exact .accessor (Nat.lt_of_lt_of_le before hdrawn)
  | @holder owner n before =>
      rw [← hconfig]
      exact .holder (Nat.lt_of_lt_of_le before (hcount owner))

/-- The next name for an accessor class is new. -/
theorem not_hasIssued_accessor (h : c.config.NamedByDefault) :
    ¬ c.HasIssued drawn (c.config.accessorStem ++ toString drawn) := by
  intro hissued
  generalize hname : c.config.accessorStem ++ toString drawn = name at hissued
  cases hissued with
  | accessor before =>
      have hsame := h.accessor_inj hname
      omega
  | holder => exact h.accessor_ne_holder hname

/-- The next name for a holder is new. -/
theorem not_hasIssued_holder (h : c.config.NamedByDefault) {owner : String} :
    ¬ c.HasIssued drawn (c.nextHolderName owner).1 := by
  intro hissued
  generalize hname : (c.nextHolderName owner).1 = name at hissued
  cases hissued with
  | accessor => exact h.accessor_ne_holder hname.symm
  | holder before =>
      obtain ⟨rfl, hsame⟩ := h.holder_inj hname
      have hcount : (c.holderCounts.lookup owner).getD 0 = c.count owner := rfl
      omega

theorem count_nextHolderName (owner owner' : String) :
    (c.nextHolderName owner).2.count owner' =
      if owner' = owner then c.count owner + 1 else c.count owner' := by
  unfold count nextHolderName
  by_cases hsame : owner' = owner
  · simp [hsame]
  · have hother : (owner' == owner) = false := by simp [hsame]
    rw [List.lookup_cons, hother, if_neg hsame]

theorem hasIssued_nextHolderName (owner : String) :
    (c.nextHolderName owner).2.HasIssued drawn (c.nextHolderName owner).1 := by
  refine .holder ?_
  rw [count_nextHolderName, if_pos rfl]
  exact Nat.lt_succ_self _

end Context

end Reshape
