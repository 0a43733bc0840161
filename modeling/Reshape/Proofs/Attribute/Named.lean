import Reshape.Proofs.Pool.Growth

/-!
# Attributes of one name

Attributes are looked up by the text of their names but replaced by the index of the name.  The two
agree where a pool has the text of a name at most once.  Interning never adds a text that is there,
so a pool that has a text at most once does so however it grows.
-/

namespace Reshape

/-! ## §1 Texts that a pool has once -/

namespace Pool

/-- No two slots hold the text. -/
def NamedOnce (text : String) (p : Pool) : Prop := p.slots.toList.count (.utf8 text) ≤ 1

instance (text : String) (p : Pool) : Decidable (p.NamedOnce text) :=
  inferInstanceAs (Decidable (p.slots.toList.count (.utf8 text) ≤ 1))

theorem Growth.namedOnce {p q : Pool} {text : String} (h : Growth p q)
    (hp : p.NamedOnce text) : q.NamedOnce text :=
  h.count_le_one (by simp) hp

/-- An index that denotes a text is an index of a slot that holds it. -/
theorem slot_of_utf8 {p : Pool} {i : UInt16} {text : String} (h : p.utf8 i = .ok text) :
    p.slots.toList[i.toNat]? = some (.utf8 text) :=
  getElem?_of_slot (by simp) (slot_eq_of_utf8 h)

/-- A text that a pool has once has one index. -/
theorem NamedOnce.eq_of_utf8 {p : Pool} {text : String} (h : p.NamedOnce text) {i j : UInt16}
    (hi : p.utf8 i = .ok text) (hj : p.utf8 j = .ok text) : i = j :=
  UInt16.toNat_inj.mp (eq_of_count_le_one h (slot_of_utf8 hi) (slot_of_utf8 hj))

/-- Interning a text that is there gives its index and leaves the pool alone. -/
theorem NamedOnce.addUtf8_eq {p q : Pool} {text : String} (h : p.NamedOnce text)
    (hp : p.Addressable) {i j : UInt16} (hi : p.utf8 i = .ok text)
    (hadd : addUtf8 text p = .ok j q) : j = i := by
  have hgrowth := (grows_addUtf8 text).growth hadd
  exact (hgrowth.namedOnce h).eq_of_utf8 (utf8_of_addUtf8 hp hadd) (hgrowth.utf8 hi)

end Pool

/-! ## §2 Looking up -/

namespace Attribute

/-- The attribute can be named, and its name is another one. -/
def Other (pool : Pool) (name : String) (a : Attribute) : Prop :=
  ∃ text, pool.utf8 a.name = .ok text ∧ text ≠ name

theorem Other.grown {p q : Pool} (hgrowth : Pool.Growth p q) {name : String} {a : Attribute}
    (h : a.Other p name) : a.Other q name := by
  obtain ⟨text, htext, hne⟩ := h
  exact ⟨text, hgrowth.utf8 htext, hne⟩

/-- An attribute that was found is found still, and one that was not there is not there. -/
theorem locate?_grown {p q : Pool} (hgrowth : Pool.Growth p q) {name : String}
    {attributes : List Attribute} :
    ∀ {position : Nat} {found : Option (Nat × Attribute)},
      locate? p name position attributes = .ok found →
        locate? q name position attributes = .ok found := by
  induction attributes with
  | nil => exact fun h => h
  | cons a attributes ih =>
      intro position found h
      unfold locate? at h ⊢
      split at h
      · cases h
      · next text htext =>
        rw [hgrowth.utf8 htext]
        dsimp only
        split at h
        · next hname => rw [if_pos hname, h]
        · next hname =>
          rw [if_neg hname]
          exact ih h

theorem find?_grown {p q : Pool} (hgrowth : Pool.Growth p q) {name : String}
    {attributes : List Attribute} {found : Option Attribute}
    (h : find? p name attributes = .ok found) : find? q name attributes = .ok found := by
  obtain ⟨located, hlocated, hmap⟩ := except_map_eq_ok.mp h
  exact except_map_eq_ok.mpr ⟨located, locate?_grown hgrowth hlocated, hmap⟩

/-- What was located is the first attribute of its name. -/
theorem locate?_eq_some {pool : Pool} {name : String} {attributes : List Attribute} :
    ∀ {start position : Nat} {a : Attribute},
      locate? pool name start attributes = .ok (some (position, a)) →
      ∃ front rest, attributes = front ++ a :: rest ∧ position = start + front.length ∧
        pool.utf8 a.name = .ok name ∧ ∀ b ∈ front, b.Other pool name := by
  induction attributes with
  | nil =>
      intro start position a h
      cases h
  | cons b attributes ih =>
      intro start position a h
      unfold locate? at h
      split at h
      · cases h
      · next text htext =>
        by_cases hname : text = name
        · rw [if_pos hname] at h
          cases h
          exact ⟨[], attributes, rfl, rfl, hname ▸ htext, nofun⟩
        · rw [if_neg hname] at h
          obtain ⟨front, rest, rfl, rfl, ha, hfront⟩ := ih h
          refine ⟨b :: front, rest, rfl, ?_, ha, ?_⟩
          · rw [List.length_cons]
            omega
          · intro x hx
            rcases List.mem_cons.mp hx with rfl | hx
            · exact ⟨text, htext, hname⟩
            · exact hfront x hx

theorem locate?_eq_none {pool : Pool} {name : String} {attributes : List Attribute} :
    ∀ {start : Nat}, locate? pool name start attributes = .ok none ↔
      ∀ a ∈ attributes, a.Other pool name := by
  induction attributes with
  | nil => exact fun {start} => ⟨fun _ => nofun, fun _ => rfl⟩
  | cons b attributes ih =>
      intro start
      rw [List.forall_mem_cons]
      constructor
      · intro h
        unfold locate? at h
        split at h
        · cases h
        · next text htext =>
          by_cases hname : text = name
          · rw [if_pos hname] at h
            cases h
          · rw [if_neg hname] at h
            exact ⟨⟨text, htext, hname⟩, ih.mp h⟩
      · rintro ⟨⟨text, htext, hname⟩, hrest⟩
        unfold locate?
        rw [htext]
        dsimp only
        rw [if_neg hname]
        exact ih.mpr hrest

/-- An attribute of the name behind others is located. -/
theorem locate?_append {pool : Pool} {name : String} {front rest : List Attribute} {a : Attribute}
    (ha : pool.utf8 a.name = .ok name) (hfront : ∀ b ∈ front, b.Other pool name) :
    ∀ {start : Nat}, locate? pool name start (front ++ a :: rest) =
      .ok (some (start + front.length, a)) := by
  induction front with
  | nil =>
      intro start
      simp [locate?, ha]
  | cons b front ih =>
      intro start
      obtain ⟨⟨text, htext, hname⟩, hfront⟩ := List.forall_mem_cons.mp hfront
      rw [List.cons_append]
      unfold locate?
      rw [htext]
      dsimp only
      rw [if_neg hname, ih hfront, List.length_cons, Nat.add_right_comm]
      rfl

/-! ## §3 Setting -/

/-- An attribute is put in the place of the first one with its index. -/
theorem put_append {front rest : List Attribute} {a b : Attribute} (hname : b.name = a.name)
    (hfront : ∀ x ∈ front, x.name ≠ b.name) :
    put b (front ++ a :: rest) = front ++ b :: rest := by
  have hfound : (front ++ a :: rest).findIdx? (·.name == b.name) = some front.length := by
    rw [List.findIdx?_append, List.findIdx?_eq_none_iff.mpr (by simpa using hfront)]
    simp [List.findIdx?_cons, hname]
  unfold put
  rw [hfound]
  simp

/-- An attribute with a new index is put behind all others. -/
theorem put_of_not_mem {attributes : List Attribute} {b : Attribute}
    (h : ∀ x ∈ attributes, x.name ≠ b.name) : put b attributes = attributes ++ [b] := by
  unfold put
  rw [List.findIdx?_eq_none_iff.mpr (by simpa using h)]

/-- Other attributes do not have the index of the name. -/
theorem Other.name_ne {pool : Pool} {name : String} {a : Attribute} {i : UInt16}
    (h : a.Other pool name) (hi : pool.utf8 i = .ok name) : a.name ≠ i := by
  rintro rfl
  obtain ⟨text, htext, hne⟩ := h
  exact hne (Except.ok.inj (htext.symm.trans hi))

/-- **Setting an attribute.**  Where the pool has the name once, the attribute that look-up finds is
the one that is replaced. -/
theorem set_of_located {p q : Pool} {name : String} {payload : Bytes}
    {front rest attributes : List Attribute} {a : Attribute} (hp : p.Addressable)
    (honce : p.NamedOnce name) (ha : p.utf8 a.name = .ok name)
    (hfront : ∀ b ∈ front, b.Other p name)
    (h : set name payload (front ++ a :: rest) p = .ok attributes q) :
    attributes = front ++ ⟨a.name, payload⟩ :: rest := by
  obtain ⟨i, p₁, hadd, h⟩ := state_bind_eq_ok.mp h
  obtain ⟨rfl, rfl⟩ := state_pure_eq_ok.mp h
  cases honce.addUtf8_eq hp ha hadd
  exact put_append rfl fun x hx => (hfront x hx).name_ne ha

/-- Where no attribute has the name, the new one comes last. -/
theorem set_of_others {p q : Pool} {name : String} {payload : Bytes}
    {attributes attributes' : List Attribute} (hp : p.Addressable)
    (hothers : ∀ b ∈ attributes, b.Other p name)
    (h : set name payload attributes p = .ok attributes' q) :
    ∃ i, q.utf8 i = .ok name ∧ attributes' = attributes ++ [⟨i, payload⟩] := by
  have hgrowth := (grows_set _ _ _).growth h
  obtain ⟨i, p₁, hadd, h⟩ := state_bind_eq_ok.mp h
  obtain ⟨rfl, rfl⟩ := state_pure_eq_ok.mp h
  have hi := Pool.utf8_of_addUtf8 hp hadd
  refine ⟨i, hi, put_of_not_mem ?_⟩
  intro b hb
  exact ((hothers b hb).grown hgrowth).name_ne hi

end Attribute

end Reshape
