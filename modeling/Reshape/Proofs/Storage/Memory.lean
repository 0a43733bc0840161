import Mathlib.Data.List.Induction
import Reshape.Proofs.Storage.Accessor

/-!
# Accessors as a memory

Added fields come and go from one redefinition to the next, so the accessors that work on one
object are made for layouts of different lengths, and the object may have no container yet, a
short one or a long one.  Whoever calls them sees none of this.  All calls together behave like
one memory with a cell for each slot: a cell holds what was last written to it, and the initial
value of its type before that.
-/

namespace Reshape

namespace Accessor

/-! ## §1 Writing in place -/

/-- Takes over a result that leaves the object alone. -/
def ofExcept {α : Type} : Except StorageFault α → EStateM StorageFault (Option Container) α
  | .ok a => pure a
  | .error e => throw e

/-- A write as it proceeds on the object itself: the container is allocated, then extended, and
the slot changed last, so that a fault on the way leaves what was done before it. -/
def write (a : Accessor) (v : StoredValue) : EStateM StorageFault (Option Container) Unit := do
  let t ← ofExcept a.slotType
  if v.fits t then
    modify fun object => some (object.getD (Container.allocate a.layout))
    modify fun object => object.map (·.extend a.layout)
    let object : Option Container ← MonadState.get
    let values ← ofExcept (Container.put (object.getD []) a.ordinal v)
    modify fun _ => some values
  else throw (.typeMismatch a.ordinal t.descriptor v)

/-- The slots of the layout are there after the extension. -/
theorem size_le_length_extend (values : Container) (l : StorageLayout) :
    l.size ≤ (values.extend l).length := by
  simp only [Container.extend, StorageLayout.initial, StorageLayout.size, List.length_append,
    List.length_drop, List.length_map]
  omega

/-- The value takes its slot in the container, as far as it was there and as it was extended. -/
theorem set_fitting {a : Accessor} {v : StoredValue} {t : FieldType} (object : Option Container)
    (hslot : a.layout.slots[a.ordinal]? = some t) (hfits : v.fits t = true) :
    a.set object v = .ok
      (((object.getD (Container.allocate a.layout)).extend a.layout).set a.ordinal v) := by
  have hlt : a.ordinal < a.layout.size := (List.getElem?_eq_some_iff.mp hslot).1
  have hput := Nat.lt_of_lt_of_le hlt
    (size_le_length_extend (object.getD (Container.allocate a.layout)) a.layout)
  simp only [set, slotType, hslot, hfits, if_true, Container.put, hput]

/-- **A write is done as a whole or not at all.**  Whatever it does in place, it ends with the
container that `set` gives, and with the object as it was where `set` gives none. -/
theorem write_eq (a : Accessor) (v : StoredValue) (object : Option Container) :
    a.write v object = match a.set object v with
      | .ok values => .ok () (some values)
      | .error e => .error e object := by
  cases hslot : a.layout.slots[a.ordinal]? with
  | none =>
      have ht : a.slotType = .error (.slotOutOfRange a.ordinal a.layout.size) := by
        simp only [slotType, hslot]
      simp only [set, write, ht]
      rfl
  | some t =>
      have ht : a.slotType = .ok t := by simp only [slotType, hslot]
      by_cases hfits : v.fits t = true
      · have hset := set_fitting object hslot hfits
        have hput : Container.put
            ((object.getD (Container.allocate a.layout)).extend a.layout) a.ordinal v =
              a.set object v := by
          simp only [set, ht, hfits, if_true]
        rw [hset] at hput ⊢
        simp only [write, ht, ofExcept, hfits, if_true, pure_bind]
        let extended := (object.getD (Container.allocate a.layout)).extend a.layout
        show (ofExcept (Container.put extended a.ordinal v) >>= fun values =>
          modify fun _ => some values) (some extended) = _
        rw [hput]
        rfl
      · simp only [set, write, ht, if_neg hfits, ofExcept, pure_bind]
        rfl

/-- A write succeeds exactly if the slot is there and of a type for the value. -/
theorem write_succeeds_iff {a : Accessor} {v : StoredValue} {object : Option Container} :
    (∃ object', a.write v object = .ok () object') ↔
      ∃ t, a.layout.slots[a.ordinal]? = some t ∧ v.fits t = true := by
  constructor
  · rintro ⟨object', h⟩
    rw [write_eq] at h
    cases hslot : a.layout.slots[a.ordinal]? with
    | none => simp [set, slotType, hslot] at h
    | some t =>
        refine ⟨t, rfl, ?_⟩
        by_contra hfits
        simp [set, slotType, hslot, hfits] at h
  · rintro ⟨t, hslot, hfits⟩
    exact ⟨_, by rw [write_eq, set_fitting object hslot hfits]⟩

theorem write_error {a : Accessor} {v : StoredValue} {object object' : Option Container}
    {e : StorageFault} (h : a.write v object = .error e object') : object' = object := by
  rw [write_eq] at h
  cases hset : a.set object v with
  | error e => rw [hset] at h; cases h; rfl
  | ok values => rw [hset] at h; cases h

/-! ## §2 Calls -/

inductive Call
  | get (through : Accessor)
  | set (through : Accessor) (value : StoredValue)

/-- The value that was read, nothing for a write, or a fault. -/
abbrev Answer := Except StorageFault (Option StoredValue)

namespace Call

def through : Call → Accessor
  | get a => a
  | set a _ => a

/-- Makes the call on an object. -/
def run : Call → Option Container → Answer × Option Container
  | get a, object => ((a.get object).map some, object)
  | set a v, object =>
    match a.write v object with
    | .ok () object => (.ok none, object)
    | .error e object => (.error e, object)

end Call

structure Event where
  call : Call
  answer : Answer

/-- What the event wrote to a slot. -/
def Event.written? (slot : Nat) (e : Event) : Option StoredValue :=
  match e.call, e.answer with
  | .set a v, .ok _ => if a.ordinal = slot then some v else none
  | _, _ => none

/-- The calls made on an object so far, and what it has come to. -/
structure History where
  /-- Oldest first. -/
  events : List Event := []
  object : Option Container

namespace History

def next (h : History) (call : Call) : History :=
  let (answer, object) := call.run h.object
  ⟨h.events ++ [⟨call, answer⟩], object⟩

/-- An object that calls were made on one after the other. -/
def after (object : Option Container) (calls : List Call) : History :=
  calls.foldl next { object }

/-- The value of the last successful write to a slot, by whichever accessor. -/
def lastWritten (h : History) (slot : Nat) : Option StoredValue :=
  h.events.reverse.findSome? (·.written? slot)

/-- What the memory holds in a slot of the given type. -/
def recalled (h : History) (slot : Nat) (t : FieldType) : StoredValue :=
  (h.lastWritten slot).getD (StoredValue.initialOf t)

theorem after_snoc (object : Option Container) (calls : List Call) (call : Call) :
    after object (calls ++ [call]) = (after object calls).next call := by
  rw [after, List.foldl_append]
  rfl

theorem lastWritten_next (h : History) (call : Call) (slot : Nat) :
    (h.next call).lastWritten slot =
      ((Event.mk call (call.run h.object).1).written? slot).or (h.lastWritten slot) := by
  simp only [lastWritten, next, List.reverse_append, List.reverse_singleton,
    List.singleton_append, List.findSome?_cons]
  cases (Event.mk call (call.run h.object).1).written? slot <;> rfl

end History

/-! ## §3 Layouts that continue each other -/

/-- Of any two of the layouts one is the front of the other. -/
def Nested (layouts : StorageLayout → Prop) : Prop :=
  ∀ l m, layouts l → layouts m → l.slots <+: m.slots ∨ m.slots <+: l.slots

/-- What the object shows in a slot of the given type. -/
def shown (object : Option Container) (slot : Nat) (t : FieldType) : StoredValue :=
  (object.bind (·[slot]?)).getD (StoredValue.initialOf t)

/-- Reading shows the slot, if it is in the layout. -/
theorem get_eq (a : Accessor) (object : Option Container) :
    a.get object = match a.layout.slots[a.ordinal]? with
      | none => .error (.slotOutOfRange a.ordinal a.layout.size)
      | some t => .ok (shown object a.ordinal t) := by
  cases hslot : a.layout.slots[a.ordinal]? with
  | none => simp only [get, slotType, hslot]
  | some t =>
      simp only [get, slotType, hslot, shown]
      cases object.bind (·[a.ordinal]?) <;> rfl

theorem get_fails_iff {a : Accessor} {object : Option Container} :
    (∃ e, a.get object = .error e) ↔ ¬ a.InLayout := by
  rw [get_eq, InLayout, StorageLayout.size, Nat.not_lt, ← List.getElem?_eq_none_iff]
  cases a.layout.slots[a.ordinal]? with
  | none => simp
  | some t => simp

section Nested

variable {layouts : StorageLayout → Prop} (hnested : Nested layouts) {l m : StorageLayout}
include hnested

/-- A slot is of one type in all layouts that have it. -/
theorem Nested.slot_eq (hl : layouts l) (hm : layouts m) {k : Nat} {t u : FieldType}
    (ht : l.slots[k]? = some t) (hu : m.slots[k]? = some u) : t = u := by
  have hfront {a b : StorageLayout} {t u : FieldType} (h : a.slots <+: b.slots)
      (ht : a.slots[k]? = some t) (hu : b.slots[k]? = some u) : t = u := by
    obtain ⟨rest, hrest⟩ := h
    rw [← hrest, List.getElem?_append_left (List.getElem?_eq_some_iff.mp ht).1, ht] at hu
    exact Option.some.inj hu
  rcases hnested l m hl hm with h | h
  · exact hfront h ht hu
  · exact (hfront h hu ht).symm

/-- Where a container was allocated, or extended, an object shows what it showed without it. -/
theorem Nested.initial_eq (hl : layouts l) (hm : layouts m) {k : Nat} {t : FieldType}
    (ht : l.slots[k]? = some t) :
    (m.initial[k]?).getD (StoredValue.initialOf t) = StoredValue.initialOf t := by
  rw [StorageLayout.initial, List.getElem?_map]
  cases hu : m.slots[k]? with
  | none => rfl
  | some u =>
      rw [hnested.slot_eq hl hm ht hu]
      rfl

theorem Nested.shown_extend (hl : layouts l) (hm : layouts m) {k : Nat} {t : FieldType}
    (ht : l.slots[k]? = some t) (values : Container) :
    shown (some (values.extend m)) k t = shown (some values) k t := by
  simp only [shown, Container.extend, Option.bind_some]
  by_cases hk : k < values.length
  · rw [List.getElem?_append_left hk]
  · have hlength := Nat.le_of_not_lt hk
    rw [List.getElem?_append_right hlength, List.getElem?_drop, Nat.add_sub_cancel' hlength,
      hnested.initial_eq hl hm ht, List.getElem?_eq_none hlength]
    rfl

/-- A write shows in its own slot only. -/
theorem Nested.shown_set {a : Accessor} {object : Option Container} {v : StoredValue}
    {values : Container} (hl : layouts l) (ha : layouts a.layout)
    (h : a.set object v = .ok values) {k : Nat} {t : FieldType} (ht : l.slots[k]? = some t) :
    shown (some values) k t = if a.ordinal = k then v else shown object k t := by
  obtain ⟨u, hslot, hfits⟩ := write_succeeds_iff.mp ⟨some values, by rw [write_eq, h]⟩
  by_cases hk : a.ordinal = k
  · rw [if_pos hk]
    subst hk
    simp only [shown, Option.bind_some, (set_ok h).1, Option.getD_some]
  · rw [set_fitting object hslot hfits] at h
    cases h
    have hkept : shown (some (List.set
          ((object.getD (Container.allocate a.layout)).extend a.layout) a.ordinal v)) k t =
        shown (some ((object.getD (Container.allocate a.layout)).extend a.layout)) k t := by
      simp only [shown, Option.bind_some, List.getElem?_set_ne hk]
    rw [if_neg hk, hkept, hnested.shown_extend hl ha ht]
    cases object with
    | some values => rfl
    | none => exact hnested.initial_eq hl ha ht

end Nested

/-! ## §4 Values of the right types -/

/-- The container has exactly the slots of a layout, each with a value of its type. -/
structure Suits (l : StorageLayout) (values : Container) : Prop where
  length_eq : values.length = l.slots.length
  fits : ∀ (k : Nat) (t : FieldType) (v : StoredValue), l.slots[k]? = some t →
    values[k]? = some v → v.fits t = true

theorem fits_initialOf (t : FieldType) : (StoredValue.initialOf t).fits t = true := by
  cases t with
  | primitive p => cases p <;> rfl
  | object name => rfl
  | array element => rfl

theorem suits_allocate (l : StorageLayout) : Suits l (Container.allocate l) := by
  refine ⟨by rw [Container.allocate, StorageLayout.initial, List.length_map], ?_⟩
  intro k t v ht hv
  rw [Container.allocate, StorageLayout.initial, List.getElem?_map, ht] at hv
  cases hv
  exact fits_initialOf t

theorem Suits.set {l : StorageLayout} {values : Container} {i : Nat} {v : StoredValue}
    (h : Suits l values) (hv : ∀ t, l.slots[i]? = some t → v.fits t = true) :
    Suits l (List.set values i v) := by
  refine ⟨by rw [List.length_set, h.length_eq], fun k t w ht hw => ?_⟩
  by_cases hk : i = k
  · subst hk
    obtain ⟨hlt, hw⟩ := List.getElem?_eq_some_iff.mp hw
    rw [List.getElem_set_self] at hw
    exact hw ▸ hv t ht
  · rw [List.getElem?_set_ne hk] at hw
    exact h.fits k t w ht hw

section Nested

variable {layouts : StorageLayout → Prop} (hnested : Nested layouts)
include hnested

/-- The longer one of two layouts is the one that an extended container suits. -/
theorem Nested.suits_extend {l m : StorageLayout} {values : Container} (hl : layouts l)
    (hm : layouts m) (h : Suits l values) :
    ∃ n, layouts n ∧ Suits n (values.extend m) := by
  rcases hnested l m hl hm with ⟨rest, hrest⟩ | hle
  · have hinitial : m.initial.drop values.length = rest.map StoredValue.initialOf := by
      rw [StorageLayout.initial, ← hrest, List.map_append, h.length_eq,
        ← List.length_map StoredValue.initialOf, List.drop_left]
    refine ⟨m, hm, ?_, fun k t v ht hv => ?_⟩
    · rw [Container.extend, hinitial, List.length_append, h.length_eq, List.length_map, ← hrest,
        List.length_append]
    · rw [Container.extend, hinitial] at hv
      by_cases hk : k < values.length
      · rw [List.getElem?_append_left hk] at hv
        rw [← hrest, List.getElem?_append_left (h.length_eq ▸ hk)] at ht
        exact h.fits k t v ht hv
      · have hlength := Nat.le_of_not_lt hk
        rw [List.getElem?_append_right hlength, List.getElem?_map] at hv
        rw [← hrest, List.getElem?_append_right (h.length_eq ▸ hlength), ← h.length_eq] at ht
        rw [ht] at hv
        cases hv
        exact fits_initialOf t
  · refine ⟨l, hl, ?_⟩
    have hnone : m.initial.drop values.length = [] := by
      rw [List.drop_eq_nil_iff, StorageLayout.initial, List.length_map, h.length_eq]
      exact hle.length_le
    rwa [Container.extend, hnone, List.append_nil]

theorem Nested.suits_set {a : Accessor} {object : Option Container} {v : StoredValue}
    {values : Container} (ha : layouts a.layout)
    (hobject : ∀ old, object = some old → ∃ l, layouts l ∧ Suits l old)
    (h : a.set object v = .ok values) : ∃ l, layouts l ∧ Suits l values := by
  obtain ⟨u, hslot, hfits⟩ := write_succeeds_iff.mp ⟨some values, by rw [write_eq, h]⟩
  rw [set_fitting object hslot hfits] at h
  cases h
  obtain ⟨l, hl, hsuits⟩ :
      ∃ l, layouts l ∧ Suits l (object.getD (Container.allocate a.layout)) := by
    cases object with
    | none => exact ⟨a.layout, ha, suits_allocate a.layout⟩
    | some old => exact hobject old rfl
  obtain ⟨n, hn, hsuits⟩ := hnested.suits_extend hl ha hsuits
  refine ⟨n, hn, hsuits.set fun t ht => ?_⟩
  rwa [hnested.slot_eq hn ha ht hslot]

end Nested

/-! ## §5 All calls together -/

/-- What a history has made of an object: it shows what the memory holds, and its container suits
one of the layouts. -/
structure History.Kept (layouts : StorageLayout → Prop) (h : History) : Prop where
  shown_eq : ∀ l, layouts l → ∀ k t, l.slots[k]? = some t →
    shown h.object k t = h.recalled k t
  suits : ∀ values, h.object = some values → ∃ l, layouts l ∧ Suits l values

namespace History

variable {layouts : StorageLayout → Prop} (hnested : Nested layouts)
include hnested

theorem kept_start {object : Option Container}
    (hobject : ∀ values, object = some values → ∃ l, layouts l ∧ values = Container.allocate l) :
    Kept layouts { object } := by
  constructor
  · intro l hl k t ht
    show shown object k t = StoredValue.initialOf t
    cases object with
    | none => rfl
    | some values =>
        obtain ⟨m, hm, rfl⟩ := hobject values rfl
        exact hnested.initial_eq hl hm ht
  · intro values hvalues
    obtain ⟨m, hm, rfl⟩ := hobject values hvalues
    exact ⟨m, hm, suits_allocate m⟩

/-- **One call.**  Only a successful write changes what is shown, in its slot. -/
theorem Kept.next {h : History} (hkept : Kept layouts h) {call : Call}
    (hcall : layouts call.through.layout) : Kept layouts (h.next call) := by
  cases call with
  | get a =>
      have hmemory (k : Nat) : (h.next (.get a)).lastWritten k = h.lastWritten k := by
        rw [lastWritten_next]
        rfl
      constructor
      · intro l hl k t ht
        rw [recalled, hmemory]
        exact hkept.shown_eq l hl k t ht
      · exact hkept.suits
  | set a v =>
      have hnext (k : Nat) := lastWritten_next h (.set a v) k
      cases hset : a.set h.object v with
      | error e =>
          have hrun : Call.run (.set a v) h.object = (.error e, h.object) := by
            simp only [Call.run, write_eq, hset]
          rw [hrun] at hnext
          have hobject : (h.next (.set a v)).object = h.object := congrArg Prod.snd hrun
          constructor
          · intro l hl k t ht
            rw [recalled, hnext, hobject]
            exact hkept.shown_eq l hl k t ht
          · rw [hobject]
            exact hkept.suits
      | ok values =>
          have hrun : Call.run (.set a v) h.object = (.ok none, some values) := by
            simp only [Call.run, write_eq, hset]
          rw [hrun] at hnext
          have hobject : (h.next (.set a v)).object = some values := congrArg Prod.snd hrun
          constructor
          · intro l hl k t ht
            have ha : layouts a.layout := hcall
            rw [recalled, hnext, hobject, hnested.shown_set hl ha hset ht]
            by_cases hk : a.ordinal = k
            · simp only [Event.written?, if_pos hk, Option.some_or, Option.getD_some]
            · simp only [Event.written?, if_neg hk, Option.none_or]
              exact hkept.shown_eq l hl k t ht
          · rw [hobject]
            rintro _ ⟨⟩
            exact hnested.suits_set hcall hkept.suits hset

theorem kept_after {object : Option Container}
    (hobject : ∀ values, object = some values → ∃ l, layouts l ∧ values = Container.allocate l)
    {calls : List Call} (hcalls : ∀ call ∈ calls, layouts call.through.layout) :
    Kept layouts (after object calls) := by
  induction calls using List.reverseRecOn with
  | nil => exact kept_start hnested hobject
  | append_singleton calls call ih =>
      rw [after_snoc]
      have hbefore := ih fun c hc => hcalls c (List.mem_append_left _ hc)
      exact hbefore.next hnested (hcalls call (List.mem_append_right _ List.mem_cons_self))

end History

/-- **Accessors are a memory.**  After any calls through accessors of layouts that continue each
other, on an object without a container or with a new one:

- reading fails exactly outside the layout, and otherwise gives what was last written to the slot
  or the initial value of its type;
- writing succeeds exactly inside the layout and with a value of the slot's type, and a write that
  fails leaves the object as it was;
- every slot of the container is of some layout and holds a value of its type. -/
theorem accessors_refine_memory {layouts : StorageLayout → Prop} (hnested : Nested layouts)
    {object : Option Container}
    (hobject : ∀ values, object = some values → ∃ l, layouts l ∧ values = Container.allocate l)
    {calls : List Call} (hcalls : ∀ call ∈ calls, layouts call.through.layout) :
    let h := History.after object calls
    (∀ a : Accessor, layouts a.layout →
      ((∃ e, a.get h.object = .error e) ↔ ¬ a.InLayout) ∧
      ∀ t, a.layout.slots[a.ordinal]? = some t →
        a.get h.object = .ok ((h.lastWritten a.ordinal).getD (StoredValue.initialOf t))) ∧
    (∀ (a : Accessor) (v : StoredValue), layouts a.layout →
      ((∃ object', a.write v h.object = .ok () object') ↔
        ∃ t, a.layout.slots[a.ordinal]? = some t ∧ v.fits t = true) ∧
      ∀ e object', a.write v h.object = .error e object' → object' = h.object) ∧
    ∀ values, h.object = some values →
      (∃ l, layouts l ∧ values.length = l.size) ∧
      ∀ l, layouts l → ∀ (k : Nat) (t : FieldType) (v : StoredValue), l.slots[k]? = some t →
        values[k]? = some v → v.fits t = true := by
  intro h
  have hkept : History.Kept layouts h := History.kept_after hnested hobject hcalls
  refine ⟨fun a ha => ⟨get_fails_iff, fun t ht => ?_⟩,
    fun a v ha => ⟨write_succeeds_iff, fun e object' => write_error⟩, fun values hvalues => ?_⟩
  · rw [get_eq, ht]
    exact congrArg Except.ok (hkept.shown_eq a.layout ha a.ordinal t ht)
  · obtain ⟨m, hm, hsuits⟩ := hkept.suits values hvalues
    refine ⟨⟨m, hm, hsuits.length_eq⟩, fun l hl k t v ht hv => ?_⟩
    have hk : k < m.slots.length := hsuits.length_eq ▸ (List.getElem?_eq_some_iff.mp hv).1
    have hu := List.getElem?_eq_getElem hk
    rw [hnested.slot_eq hl hm ht hu]
    exact hsuits.fits k _ v hu hv

def olderLayout : StorageLayout := ⟨"A", [.primitive .int]⟩

def newerLayout : StorageLayout := ⟨"A", [.primitive .int, .primitive .long]⟩

/-- An object made before the second field was added.  That field is first written with a value
that does not fit, then with one that does; the first one through an accessor from before, which
does not reach the second. -/
theorem accessors_refine_memory_grown :
    let layouts := fun l => l = olderLayout ∨ l = newerLayout
    let object := some (Container.allocate olderLayout)
    let calls := [Call.set ⟨1, newerLayout⟩ .null, .get ⟨1, newerLayout⟩,
      .set ⟨1, newerLayout⟩ (.long 9), .set ⟨1, olderLayout⟩ (.long 5),
      .set ⟨0, olderLayout⟩ (.integer 3)]
    Nested layouts ∧
    (∀ values, object = some values → ∃ l, layouts l ∧ values = Container.allocate l) ∧
    (∀ call ∈ calls, layouts call.through.layout) ∧
    (History.after object calls).object = some [.integer 3, .long 9] ∧
    get ⟨1, newerLayout⟩ (History.after object calls).object = .ok (.long 9) ∧
    ∃ e, get ⟨1, olderLayout⟩ (History.after object calls).object = .error e := by
  intro layouts object calls
  have hnested : Nested layouts := by
    rintro l m (rfl | rfl) (rfl | rfl) <;> decide
  have hobject : ∀ values, object = some values →
      ∃ l, layouts l ∧ values = Container.allocate l := by
    intro values hvalues
    exact ⟨olderLayout, .inl rfl, (Option.some.inj hvalues).symm⟩
  have hcalls : ∀ call ∈ calls, layouts call.through.layout := by
    simp [calls, layouts, Call.through]
  obtain ⟨hget, -, -⟩ := accessors_refine_memory hnested hobject hcalls
  exact ⟨hnested, hobject, hcalls, rfl, (hget ⟨1, newerLayout⟩ (.inr rfl)).2 _ rfl,
    (hget ⟨1, olderLayout⟩ (.inl rfl)).1.mpr (Nat.lt_irrefl 1)⟩

end Accessor

end Reshape
