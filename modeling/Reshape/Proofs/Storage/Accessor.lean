import Reshape.Proofs.Results
import Reshape.Storage.Layout

/-!
# Reading what was written

An accessor reads and writes one slot, whatever the layout it was made for says of the others.
So what one accessor writes another one reads exactly if they share the slot, and writes to other
slots in between do not matter.
-/

namespace Reshape

/-! ## §1 Layouts -/

namespace StorageLayout

theorem length_insertRecord (r : AddedField) (records : List AddedField) :
    (insertRecord r records).length = records.length + 1 := by
  induction records with
  | nil => rfl
  | cons next rest ih =>
      unfold insertRecord
      split
      · rfl
      · rw [List.length_cons, ih, List.length_cons]

theorem length_sortRecords (records : List AddedField) :
    (sortRecords records).length = records.length := by
  induction records with
  | nil => rfl
  | cons r records ih => rw [sortRecords, List.foldr_cons, length_insertRecord, ← sortRecords, ih,
      List.length_cons]

/-- Records that are in order stay as they are. -/
theorem sortRecords_of_sorted {records : List AddedField}
    (h : records.Pairwise fun r next => r.ordinal ≤ next.ordinal) :
    sortRecords records = records := by
  induction records with
  | nil => rfl
  | cons r records ih =>
      obtain ⟨hfirst, hrest⟩ := List.pairwise_cons.mp h
      rw [sortRecords, List.foldr_cons, ← sortRecords, ih hrest]
      cases records with
      | nil => rfl
      | cons next records => exact if_pos (hfirst next List.mem_cons_self)

/-- The slots of records that are in order are of their types. -/
theorem slots_ofRecords {owner : String} {records : List AddedField} {layout : StorageLayout}
    (hsorted : records.Pairwise fun r next => r.ordinal ≤ next.ordinal)
    (h : ofRecords? owner records = .ok layout) :
    List.Forall₂ (fun r t => FieldType.ofDescriptor? r.descriptor = .ok t) records layout.slots := by
  obtain ⟨slots, hslots, h⟩ := except_bind_eq_ok.mp h
  cases except_pure_eq_ok.mp h
  rw [sortRecords_of_sorted hsorted] at hslots
  exact except_mapM_eq_ok.mp hslots

/-- There is one slot for each record. -/
theorem size_ofRecords {owner : String} {records : List AddedField} {layout : StorageLayout}
    (h : ofRecords? owner records = .ok layout) : layout.size = records.length := by
  obtain ⟨slots, hslots, h⟩ := except_bind_eq_ok.mp h
  cases except_pure_eq_ok.mp h
  rw [size, ← (except_mapM_eq_ok.mp hslots).length_eq, length_sortRecords]

end StorageLayout

namespace Accessor

/-- The accessor's slot lies in its layout. -/
def InLayout (a : Accessor) : Prop := a.ordinal < a.layout.size

/-! ## §2 One write -/

/-- The slots that an object has before a write goes to it. -/
theorem getElem?_extend {values : Container} {l : StorageLayout} {k : Nat} {v : StoredValue}
    (h : values[k]? = some v) : (values.extend l)[k]? = some v := by
  have hk : k < values.length := (List.getElem?_eq_some_iff.mp h).1
  rw [Container.extend, List.getElem?_append_left hk, h]

/-- **A write.**  The value is in the accessor's slot, and every other slot that was there is
as it was. -/
theorem set_ok {a : Accessor} {object : Option Container} {v : StoredValue} {values : Container}
    (h : a.set object v = .ok values) :
    values[a.ordinal]? = some v ∧
      ∀ k w, k ≠ a.ordinal → (object.bind fun old => old[k]?) = some w → values[k]? = some w := by
  unfold Accessor.set at h
  split at h
  · cases h
  · split at h
    · unfold Container.put at h
      split at h
      · next hlt =>
        cases h
        refine ⟨List.getElem?_set_self hlt, fun k w hk hw => ?_⟩
        rw [List.getElem?_set_ne (Ne.symm hk)]
        cases object with
        | none => cases hw
        | some old =>
            exact getElem?_extend hw
      · cases h
    · cases h

theorem slotType_of_inLayout {a : Accessor} (h : a.InLayout) :
    ∃ t, a.slotType = .ok t ∧ a.layout.slots[a.ordinal]? = some t := by
  have hslot : a.layout.slots[a.ordinal]? = some a.layout.slots[a.ordinal] :=
    List.getElem?_eq_getElem h
  exact ⟨_, by simp only [slotType, hslot], hslot⟩

/-- What lies in the slot is what is read. -/
theorem get_of_slot {a : Accessor} (ha : a.InLayout) {values : Container} {v : StoredValue}
    (h : values[a.ordinal]? = some v) : a.get (some values) = .ok v := by
  obtain ⟨t, ht, -⟩ := slotType_of_inLayout ha
  simp only [get, ht, Option.bind_some, h]

/-! ## §3 Writes to an object one after the other -/

/-- The containers that an object may come to have by writes through some of the accessors. -/
inductive Writes (through : Accessor → Prop) (first : Container) : Container → Prop
  | none : Writes through first first
  | write {values next : Container} {a : Accessor} {v : StoredValue}
      (before : Writes through first values) (allowed : through a)
      (written : a.set (some values) v = .ok next) : Writes through first next

/-- A slot that none of the accessors has is not written. -/
theorem Writes.getElem?_eq {through : Accessor → Prop} {first last : Container} {k : Nat}
    {v : StoredValue} (h : Writes through first last) (hk : ∀ a, through a → a.ordinal ≠ k)
    (hv : first[k]? = some v) : last[k]? = some v := by
  induction h with
  | none => exact hv
  | @write values next a w _ allowed written ih =>
      obtain ⟨-, hkept⟩ := set_ok written
      exact hkept k v (hk a allowed).symm ih

/-- Whatever is written through `a`, `b` reads it, also after writes through other accessors. -/
def Keeps (a b : Accessor) (others : Accessor → Prop) : Prop :=
  ∀ object v written later, a.set object v = .ok written → Writes others written later →
    b.get (some later) = .ok v

/-- Some value of the type is no initial value of any type. -/
theorem exists_fits_ne_initial (t : FieldType) :
    ∃ v : StoredValue, v.fits t = true ∧ ∀ u, StoredValue.initialOf u ≠ v := by
  have hinitial (u : FieldType) : StoredValue.initialOf u = .integer 0 ∨
      StoredValue.initialOf u = .long 0 ∨ StoredValue.initialOf u = .float 0 ∨
      StoredValue.initialOf u = .double 0 ∨ StoredValue.initialOf u = .null := by
    unfold StoredValue.initialOf
    split <;> simp
  have hother (v : StoredValue) (hv : v ≠ .integer 0 ∧ v ≠ .long 0 ∧ v ≠ .float 0 ∧
      v ≠ .double 0 ∧ v ≠ .null) (u : FieldType) : StoredValue.initialOf u ≠ v := by
    obtain ⟨h1, h2, h3, h4, h5⟩ := hv
    rcases hinitial u with h | h | h | h | h <;> rw [h] <;> apply Ne.symm <;> assumption
  cases t with
  | primitive p =>
      cases p with
      | long => exact ⟨.long 1, rfl, hother _ (by decide)⟩
      | float => exact ⟨.float 1, rfl, hother _ (by decide)⟩
      | double => exact ⟨.double 1, rfl, hother _ (by decide)⟩
      | _ => exact ⟨.integer 1, rfl, hother _ (by decide)⟩
  | object name => exact ⟨.ref 0, rfl, hother _ (by decide)⟩
  | array element => exact ⟨.ref 0, rfl, hother _ (by decide)⟩

/-- **Two accessors share a field exactly if they share the slot.** -/
theorem keeps_iff {a b : Accessor} {others : Accessor → Prop} (ha : a.InLayout)
    (hb : b.InLayout) (hothers : ∀ o, others o → a.ordinal = b.ordinal → o.ordinal ≠ a.ordinal) :
    Keeps a b others ↔ a.ordinal = b.ordinal := by
  constructor
  · intro hkeeps
    by_contra hne
    obtain ⟨t, ht, -⟩ := slotType_of_inLayout ha
    obtain ⟨u, hu, -⟩ := slotType_of_inLayout hb
    obtain ⟨v, hfits, hinitial⟩ := exists_fits_ne_initial t
    have hwritten : a.set none v = .ok (a.layout.initial.set a.ordinal v) := by
      have hlt : a.ordinal < a.layout.initial.length := by
        rw [StorageLayout.initial, List.length_map]
        exact ha
      simp [set, ht, hfits, Container.put, Container.extend, Container.allocate, hlt]
    have hread := hkeeps none v _ _ hwritten .none
    simp only [get, hu, Option.bind_some, List.getElem?_set_ne hne] at hread
    cases hslot : a.layout.initial[b.ordinal]? with
    | none =>
        rw [hslot] at hread
        exact hinitial u (Except.ok.inj hread)
    | some w =>
        rw [hslot] at hread
        have hw : w ∈ a.layout.initial := List.mem_of_getElem? hslot
        obtain ⟨s, -, rfl⟩ := List.mem_map.mp hw
        exact hinitial s (Except.ok.inj hread)
  · intro hsame object v written later hset hlater
    obtain ⟨hslot, -⟩ := set_ok hset
    refine get_of_slot hb ?_
    rw [← hsame]
    exact hlater.getElem?_eq (fun o ho => hothers o ho hsame) hslot

end Accessor

end Reshape
