import Reshape.Proofs.Pool.Slots

/-!
# Additions one after the other

Whatever is to be added to a pool is looked for first, a compound constant part by part.  Where all
parts are found nothing is added, and where something is added it is found from then on.  So an index
that was given once is given ever after, it stands for what was asked for as long as the pool grows,
and asking again takes no room.
-/

namespace Reshape

/-! ## §1 Looking before adding -/

/-- The action looks for what it is to add as `look` does, and adds what it does not find. -/
structure Interning.LooksUp {α : Type} (x : Interning α) (look : Pool → Option α) : Prop where
  grows : x.Grows
  /-- What is found leaves the pool alone. -/
  found : ∀ {p a}, look p = some a → x p = .ok a p
  /-- What was added is found. -/
  known : ∀ {p q a}, x p = .ok a q → look q = some a
  /-- What is found once is found ever after. -/
  lasting : ∀ {p q a}, Pool.Growth p q → look p = some a → look q = some a
  full : FailsOnly (· = .poolOverflow) x

namespace Interning.LooksUp

variable {α β : Type}

theorem intern {c : Constant} (hc : c ≠ .unused) : (Pool.intern c).LooksUp (·.find? c) := by
  refine ⟨Pool.grows_intern hc, fun {p i} hi => ?_, Pool.find?_of_intern,
    fun hgrowth hi => hgrowth.find? hi, ?_⟩
  · simp only [Pool.intern, hi]
  · intro p e q h
    rcases Pool.intern_cases c p with ⟨-, i, hi⟩ | ⟨-, ⟨i, hi⟩ | ⟨-, hi⟩⟩ <;> rw [hi] at h <;> cases h
    rfl

theorem bind {x : Interning α} {look : Pool → Option α} {f : α → Interning β}
    {lookFor : α → Pool → Option β} (hx : x.LooksUp look) (hf : ∀ a, (f a).LooksUp (lookFor a)) :
    (x >>= f).LooksUp fun p => (look p).bind fun a => lookFor a p := by
  refine ⟨.bind hx.grows fun a => (hf a).grows, ?_, ?_, ?_, .bind hx.full fun a => (hf a).full⟩
  · intro p b h
    obtain ⟨a, ha, hb⟩ := Option.bind_eq_some_iff.mp h
    exact state_bind_eq_ok.mpr ⟨a, p, hx.found ha, (hf a).found hb⟩
  · intro p q b h
    obtain ⟨a, r, ha, hb⟩ := state_bind_eq_ok.mp h
    refine Option.bind_eq_some_iff.mpr ⟨a, ?_, (hf a).known hb⟩
    exact hx.lasting ((hf a).grows.growth hb) (hx.known ha)
  · intro p q b hgrowth h
    obtain ⟨a, ha, hb⟩ := Option.bind_eq_some_iff.mp h
    exact Option.bind_eq_some_iff.mpr ⟨a, hx.lasting hgrowth ha, (hf a).lasting hgrowth hb⟩

/-- What is found is what the action gives without adding anything. -/
theorem found_iff {x : Interning α} {look : Pool → Option α} (hx : x.LooksUp look) {p : Pool}
    {a : α} : look p = some a ↔ x p = .ok a p :=
  ⟨hx.found, hx.known⟩

/-- An action that has succeeded gives the same again, however the pool has grown. -/
theorem again {x : Interning α} {look : Pool → Option α} (hx : x.LooksUp look) {p q r : Pool}
    {a : α} (h : x p = .ok a q) (hgrowth : Pool.Growth q r) : x r = .ok a r :=
  hx.found (hx.lasting hgrowth (hx.known h))

end Interning.LooksUp

namespace Pool

theorem constant_of_intern {p q : Pool} {c : Constant} {i : UInt16} (hp : p.Addressable)
    (hc : c ≠ .unused) (h : intern c p = .ok i q) : q.constant i = .ok c := by
  unfold constant
  rw [slot_of_intern hp h]
  split
  · exact absurd rfl hc
  · rfl

/-- A reference to a member is made of the indices of its parts. -/
theorem constant_of_member {make : UInt16 → UInt16 → Constant} {m : MemberRef} {p q : Pool}
    {i : UInt16} (hmake : ∀ owner nat, make owner nat ≠ .unused) (hp : p.Addressable)
    (h : (do
      let owner ← addClass m.owner
      let nat ← addNameAndType m.name m.descriptor
      intern (make owner nat) : Interning UInt16) p = .ok i q) :
    ∃ owner nat, q.constant i = .ok (make owner nat) := by
  obtain ⟨owner, p₁, howner, h⟩ := state_bind_eq_ok.mp h
  obtain ⟨nat, p₂, hnat, h⟩ := state_bind_eq_ok.mp h
  have hp₁ := ((grows_addClass m.owner).growth howner).addressable hp
  have hp₂ := ((grows_addNameAndType m.name m.descriptor).growth hnat).addressable hp₁
  exact ⟨owner, nat, constant_of_intern hp₂ (hmake owner nat) h⟩

def findClass? (p : Pool) (name : String) : Option UInt16 :=
  (p.find? (.utf8 name)).bind fun name => p.find? (.classRef name)

def findNameAndType? (p : Pool) (name descriptor : String) : Option UInt16 :=
  (p.find? (.utf8 name)).bind fun name =>
    (p.find? (.utf8 descriptor)).bind fun descriptor => p.find? (.nameAndType name descriptor)

/-- A reference to a member, made of its class and of its name and descriptor. -/
def findMember? (p : Pool) (make : UInt16 → UInt16 → Constant) (m : MemberRef) : Option UInt16 :=
  (p.findClass? m.owner).bind fun owner =>
    (p.findNameAndType? m.name m.descriptor).bind fun nat => p.find? (make owner nat)

namespace Addition

/-- The index of what is asked for, if all its parts are in the pool. -/
def find? (p : Pool) : Addition → Option UInt16
  | utf8 text => p.find? (.utf8 text)
  | classRef name => p.findClass? name
  | stringRef text => (p.find? (.utf8 text)).bind fun text => p.find? (.stringRef text)
  | integer value => p.find? (.integer value)
  | float bits => p.find? (.float bits)
  | long value => p.find? (.long value)
  | double bits => p.find? (.double bits)
  | nameAndType name descriptor => p.findNameAndType? name descriptor
  | fieldRef m => p.findMember? .fieldRef m
  | methodRef m => p.findMember? .methodRef m

open Interning

theorem looksUp_addUtf8 (text : String) : (addUtf8 text).LooksUp (·.find? (.utf8 text)) :=
  .intern (by simp)

theorem looksUp_addClass (name : String) : (addClass name).LooksUp (·.findClass? name) :=
  .bind (looksUp_addUtf8 name) fun _ => .intern (by simp)

theorem looksUp_addNameAndType (name descriptor : String) :
    (addNameAndType name descriptor).LooksUp (·.findNameAndType? name descriptor) :=
  .bind (looksUp_addUtf8 name) fun _ =>
    .bind (looksUp_addUtf8 descriptor) fun _ => .intern (by simp)

theorem looksUp (a : Addition) : a.action.LooksUp fun p => a.find? p := by
  cases a with
  | utf8 text => exact looksUp_addUtf8 text
  | classRef name => exact looksUp_addClass name
  | stringRef text => exact .bind (looksUp_addUtf8 text) fun _ => .intern (by simp)
  | integer value => exact .intern (by simp)
  | float bits => exact .intern (by simp)
  | long value => exact .intern (by simp)
  | double bits => exact .intern (by simp)
  | nameAndType name descriptor => exact looksUp_addNameAndType name descriptor
  | fieldRef m =>
      exact .bind (looksUp_addClass m.owner) fun _ =>
        .bind (looksUp_addNameAndType m.name m.descriptor) fun _ => .intern (by simp)
  | methodRef m =>
      exact .bind (looksUp_addClass m.owner) fun _ =>
        .bind (looksUp_addNameAndType m.name m.descriptor) fun _ => .intern (by simp)

/-! ## §2 What an index stands for -/

/-- The index stands for what is asked for. -/
def DenotedBy (p : Pool) (i : UInt16) : Addition → Prop
  | utf8 text => p.utf8 i = .ok text
  | classRef name => p.className i = .ok name
  | stringRef text => ∃ t, p.constant i = .ok (.stringRef t) ∧ p.utf8 t = .ok text
  | integer value => p.constant i = .ok (.integer value)
  | float bits => p.constant i = .ok (.float bits)
  | long value => p.constant i = .ok (.long value)
  | double bits => p.constant i = .ok (.double bits)
  | nameAndType name descriptor => p.nameAndType i = .ok (name, descriptor)
  | fieldRef m =>
    (∃ owner nat, p.constant i = .ok (.fieldRef owner nat)) ∧ p.memberRef i = .ok m
  | methodRef m =>
    (∃ owner nat, p.constant i = .ok (.methodRef owner nat)) ∧ p.memberRef i = .ok m

variable {p q : Pool} {i : UInt16} {a : Addition}

theorem DenotedBy.grown (hgrowth : Growth p q) (h : a.DenotedBy p i) : a.DenotedBy q i := by
  cases a with
  | utf8 text => exact hgrowth.utf8 h
  | classRef name => exact hgrowth.className h
  | stringRef text =>
      obtain ⟨t, hi, ht⟩ := h
      exact ⟨t, hgrowth.constant hi, hgrowth.utf8 ht⟩
  | integer value => exact hgrowth.constant h
  | float bits => exact hgrowth.constant h
  | long value => exact hgrowth.constant h
  | double bits => exact hgrowth.constant h
  | nameAndType name descriptor => exact hgrowth.nameAndType h
  | fieldRef m =>
      obtain ⟨⟨owner, nat, hi⟩, hm⟩ := h
      exact ⟨⟨owner, nat, hgrowth.constant hi⟩, hgrowth.memberRef hm⟩
  | methodRef m =>
      obtain ⟨⟨owner, nat, hi⟩, hm⟩ := h
      exact ⟨⟨owner, nat, hgrowth.constant hi⟩, hgrowth.memberRef hm⟩

/-- **An index that is given stands for what was asked for.** -/
theorem denotedBy_of_ok (hp : p.Addressable) (h : a.action p = .ok i q) : a.DenotedBy q i := by
  cases a with
  | utf8 text => exact utf8_of_addUtf8 hp h
  | classRef name => exact className_of_addClass hp h
  | stringRef text =>
      obtain ⟨t, r, ht, h⟩ := state_bind_eq_ok.mp h
      have hr := ((grows_addUtf8 text).growth ht).addressable hp
      have hgrowth : Growth r q := (grows_intern (by simp)).growth h
      exact ⟨t, constant_of_intern hr (by simp) h, hgrowth.utf8 (utf8_of_addUtf8 hp ht)⟩
  | integer value => exact constant_of_intern hp (by simp) h
  | float bits => exact constant_of_intern hp (by simp) h
  | long value => exact constant_of_intern hp (by simp) h
  | double bits => exact constant_of_intern hp (by simp) h
  | nameAndType name descriptor => exact nameAndType_of_addNameAndType hp h
  | fieldRef m => exact ⟨constant_of_member (by simp) hp h, memberRef_of_addFieldRef hp h⟩
  | methodRef m => exact ⟨constant_of_member (by simp) hp h, memberRef_of_addMethodRef hp h⟩

end Addition

/-! ## §3 Pools without repetitions -/

/-- No two slots hold the same constant. -/
def Distinct (p : Pool) : Prop := ∀ c, c ≠ .unused → p.slots.toList.count c ≤ 1

variable {p q : Pool} {i : UInt16}

theorem Growth.distinct (h : Growth p q) (hp : p.Distinct) : q.Distinct :=
  fun c hc => h.count_le_one hc (hp c hc)

/-- A slot that holds a constant is the one that is found. -/
theorem Distinct.find? (hp : p.Distinct) {c : Constant} (hc : c ≠ .unused) (hi : p.slot i = c) :
    p.find? c = some i := by
  have hplace := getElem?_of_slot hc hi
  rw [find?_eq]
  cases hfound : p.slots.toList.findIdx? (· == c) with
  | none =>
      rw [List.findIdx?_eq_none_iff] at hfound
      simpa using hfound c (List.mem_of_getElem? hplace)
  | some k =>
      obtain ⟨hk, hkc, -⟩ := List.findIdx?_eq_some_iff_getElem.mp hfound
      have hsame : k = i.toNat := by
        refine eq_of_count_le_one (hp c hc) ?_ hplace
        rw [List.getElem?_eq_getElem hk]
        exact congrArg some (by simpa using hkc)
      rw [hsame, Option.map_some, UInt16.ofNat_toNat]

/-! ### What look-ups say of the slots -/

theorem slot_of_constant {c : Constant} (h : p.constant i = .ok c) :
    p.slot i = c ∧ c ≠ .unused := by
  unfold constant at h
  split at h
  · cases h
  · next hused =>
    cases h
    exact ⟨rfl, hused⟩

theorem parts_of_className {name : String} (h : p.className i = .ok name) :
    ∃ n, p.slot i = .classRef n ∧ p.utf8 n = .ok name := by
  unfold className at h
  split at h
  · next hs => exact ⟨_, hs, h⟩
  · cases h

theorem parts_of_nameAndType {name descriptor : String}
    (h : p.nameAndType i = .ok (name, descriptor)) :
    ∃ n d, p.slot i = .nameAndType n d ∧ p.utf8 n = .ok name ∧ p.utf8 d = .ok descriptor := by
  unfold nameAndType at h
  split at h
  · next hs =>
    obtain ⟨_, hn, h⟩ := except_bind_eq_ok.mp h
    obtain ⟨_, hd, h⟩ := except_bind_eq_ok.mp h
    cases except_pure_eq_ok.mp h
    exact ⟨_, _, hs, hn, hd⟩
  · cases h

theorem parts_of_memberRef {m : MemberRef} {owner nat : UInt16}
    (hs : p.slot i = .fieldRef owner nat ∨ p.slot i = .methodRef owner nat)
    (h : p.memberRef i = .ok m) :
    p.className owner = .ok m.owner ∧ p.nameAndType nat = .ok (m.name, m.descriptor) := by
  unfold memberRef at h
  rcases hs with hs | hs <;> rw [hs] at h
  all_goals
    obtain ⟨⟨name, descriptor⟩, hnat, h⟩ := except_bind_eq_ok.mp h
    obtain ⟨_, howner, h⟩ := except_bind_eq_ok.mp h
    cases except_pure_eq_ok.mp h
    exact ⟨howner, hnat⟩

/-- In a pool without repetitions what an index stands for is found there. -/
theorem Distinct.find?_of_denotedBy (hp : p.Distinct) {a : Addition} (h : a.DenotedBy p i) :
    a.find? p = some i := by
  have htext {i : UInt16} {text : String} (h : p.utf8 i = .ok text) :
      p.find? (.utf8 text) = some i := hp.find? (by simp) (slot_eq_of_utf8 h)
  have hconstant {i : UInt16} {c : Constant} (h : p.constant i = .ok c) : p.find? c = some i :=
    hp.find? (slot_of_constant h).2 (slot_of_constant h).1
  have hclass {i : UInt16} {name : String} (h : p.className i = .ok name) :
      p.findClass? name = some i := by
    obtain ⟨n, hs, hn⟩ := parts_of_className h
    exact Option.bind_eq_some_iff.mpr ⟨n, htext hn, hp.find? (by simp) hs⟩
  have hnat {i : UInt16} {name descriptor : String}
      (h : p.nameAndType i = .ok (name, descriptor)) :
      p.findNameAndType? name descriptor = some i := by
    obtain ⟨n, d, hs, hn, hd⟩ := parts_of_nameAndType h
    refine Option.bind_eq_some_iff.mpr ⟨n, htext hn, ?_⟩
    exact Option.bind_eq_some_iff.mpr ⟨d, htext hd, hp.find? (by simp) hs⟩
  have hmember {make : UInt16 → UInt16 → Constant} {owner nat : UInt16} {m : MemberRef}
      (h : p.constant i = .ok (make owner nat))
      (hparts : p.className owner = .ok m.owner ∧ p.nameAndType nat = .ok (m.name, m.descriptor)) :
      p.findMember? make m = some i := by
    refine Option.bind_eq_some_iff.mpr ⟨owner, hclass hparts.1, ?_⟩
    exact Option.bind_eq_some_iff.mpr ⟨nat, hnat hparts.2, hconstant h⟩
  cases a with
  | utf8 text => exact htext h
  | classRef name => exact hclass h
  | stringRef text =>
      obtain ⟨t, hi, ht⟩ := h
      exact Option.bind_eq_some_iff.mpr ⟨t, htext ht, hconstant hi⟩
  | integer value => exact hconstant h
  | float bits => exact hconstant h
  | long value => exact hconstant h
  | double bits => exact hconstant h
  | nameAndType name descriptor => exact hnat h
  | fieldRef m =>
      obtain ⟨⟨owner, nat, hi⟩, hm⟩ := h
      exact hmember hi (parts_of_memberRef (.inl (slot_of_constant hi).1) hm)
  | methodRef m =>
      obtain ⟨⟨owner, nat, hi⟩, hm⟩ := h
      exact hmember hi (parts_of_memberRef (.inr (slot_of_constant hi).1) hm)

/-! ## §4 Rows of additions -/

/-- **A pool only grows, and an index stays good.**  Whatever was asked to be added before, and
whether or not it fitted, the pool is as regular as it was, within the limit, and begins with what was
there first; and no constant comes to stand in two slots.  What is asked for next fails only for
want of room.  If it succeeds, then the index stands for it whatever is added later, and asking again
gives the same index and leaves the pool alone.  It leaves the pool alone at once if all its parts
are found, so that it needs no room then; and where no constant stands in two slots, they are found
if any index stands for it. -/
theorem additions_kept {p : Pool} (hp : p.Regular) (hsize : p.size ≤ maxSlots)
    (earlier : List Addition) (a : Addition) :
    let q := p.after earlier
    (q.Regular ∧ q.size ≤ maxSlots ∧ p.slots.toList <+: q.slots.toList ∧
        (p.Distinct → q.Distinct)) ∧
      (∀ e r, a.action q = .error e r → e = .poolOverflow) ∧
      (∀ i r, a.action q = .ok i r → ∀ later, a.DenotedBy (r.after later) i ∧
        a.action (r.after later) = .ok i (r.after later)) ∧
      (∀ i, a.action q = .ok i q ↔ a.find? q = some i) ∧
      (q.Distinct → ∀ i, a.DenotedBy q i → a.find? q = some i) := by
  intro q
  have hgrowth : Growth p q := growth_after earlier p
  have hq : q.Addressable := Nat.le_trans (hgrowth.size_le hsize) (by decide)
  refine ⟨⟨hgrowth.regular hp, hgrowth.size_le hsize, hgrowth.isPrefix, hgrowth.distinct⟩,
    a.looksUp.full q, fun i r h later => ?_, fun i => a.looksUp.found_iff.symm,
    fun hdistinct i h => hdistinct.find?_of_denotedBy h⟩
  have hlater := growth_after later r
  exact ⟨(Addition.denotedBy_of_ok hq h).grown hlater, a.looksUp.again h hlater⟩

/-! ### What is left of an addition that does not fit -/

/-- A pool of numbers only, all of them the same. -/
def zeros (n : Nat) : Pool := ⟨(.unused :: List.replicate n (.integer 0)).toArray⟩

theorem toList_zeros (n : Nat) :
    (zeros n).slots.toList = .unused :: List.replicate n (.integer 0) := List.toList_toArray

theorem size_zeros (n : Nat) : (zeros n).size = n + 1 := by
  rw [size, ← Array.length_toList, toList_zeros, List.length_cons, List.length_replicate]

theorem mem_zeros {n : Nat} {c : Constant} (h : c ∈ (zeros n).slots.toList) :
    c = .unused ∨ c = .integer 0 := by
  rw [toList_zeros, List.mem_cons] at h
  exact h.imp_right List.eq_of_mem_replicate

theorem regular_zeros (n : Nat) : (zeros n).Regular := by
  refine regular_iff.mpr ⟨List.replicate n (.integer 0), fun c hc => ?_, ?_⟩
  · rw [List.eq_of_mem_replicate hc]
    nofun
  · rw [toList_zeros, List.flatMap_replicate]
    exact congrArg _ List.flatten_replicate_singleton.symm

theorem size_of_last {text : String} (hlast : p.size + 1 = maxSlots) :
    (p.push (.utf8 text)).size = maxSlots := (size_push p _).trans hlast

theorem addUtf8_of_last {text : String} (hlast : p.size + 1 = maxSlots)
    (htext : .utf8 text ∉ p.slots.toList) :
    addUtf8 text p = .ok (UInt16.ofNat p.size) (p.push (.utf8 text)) :=
  intern_of_new htext (Nat.le_of_eq hlast)

/-- A class whose name takes the last slot does not fit.  The name stays behind. -/
theorem addClass_of_last {name : String} (hlast : p.size + 1 = maxSlots)
    (hname : .utf8 name ∉ p.slots.toList) (hclass : ∀ i, .classRef i ∉ p.slots.toList) :
    addClass name p = .error .poolOverflow (p.push (.utf8 name)) := by
  refine state_bind_eq_error.mpr
    (.inr ⟨_, _, addUtf8_of_last hlast hname, intern_of_full (fun hmem => ?_) ?_⟩)
  · rcases mem_push hmem with hmem | hmem | hmem
    · exact hclass _ hmem
    · cases hmem
    · cases hmem
  · rw [size_of_last hlast]
    exact Nat.lt_succ_self _

theorem after_of_error {a : Addition} {e : BuildError} (h : a.action p = .error e q) :
    p.after [a] = q :=
  (after_cons p a []).trans (stateAfter_of_error h)

/-- In a pool with room for one more constant a class does not fit.  Its name stays behind, and is
found in the pool that is full now. -/
theorem additions_kept_partly :
    let p := zeros 65533
    let q := p.after [.classRef "A"]
    p.Regular ∧ p.size ≤ maxSlots ∧ addClass "A" p = .error .poolOverflow q ∧ q.size = maxSlots ∧
      addUtf8 "A" q = .ok 65534 q ∧
      ∀ later, (q.after later).utf8 65534 = .ok "A" ∧
        addUtf8 "A" (q.after later) = .ok 65534 (q.after later) := by
  intro p q
  have hnew {c : Constant} (hc : c ≠ .unused) (hzero : c ≠ .integer 0) : c ∉ p.slots.toList :=
    fun hmem => (mem_zeros hmem).elim hc hzero
  have hregular : p.Regular := regular_zeros 65533
  have hsize : p.size = 65534 := size_zeros 65533
  clear_value p
  have hfits : p.size ≤ maxSlots := Nat.le_trans (Nat.le_of_eq hsize) (by decide)
  have hlast : p.size + 1 = maxSlots := congrArg (· + 1) hsize
  have hfails : addClass "A" p = .error .poolOverflow (p.push (.utf8 "A")) :=
    addClass_of_last hlast (hnew nofun nofun) fun _ => hnew nofun nofun
  have hq : q = p.push (.utf8 "A") := after_of_error (a := .classRef "A") hfails
  have hindex : UInt16.ofNat p.size = 65534 := congrArg UInt16.ofNat hsize
  have hname : addUtf8 "A" p = .ok 65534 q := by
    rw [hq, ← hindex]
    exact addUtf8_of_last hlast (hnew nofun nofun)
  obtain ⟨-, -, hlasting, hfound, -⟩ := additions_kept hregular hfits [.classRef "A"] (.utf8 "A")
  have hagain : addUtf8 "A" q = .ok 65534 q := (hfound 65534).mpr (find?_of_intern hname)
  exact ⟨hregular, hfits, hfails.trans (by rw [hq]), hq ▸ size_of_last hlast, hagain,
    hlasting _ _ hagain⟩

end Pool

end Reshape
