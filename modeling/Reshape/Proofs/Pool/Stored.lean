import Reshape.Pool.Format
import Reshape.Proofs.Bytes.Reading
import Reshape.Proofs.Pool.Growth
import Reshape.Proofs.Text.ModifiedUtf8

/-!
# Pools are read back

A pool that was read, and every pool that grows from one, consists of slot zero and a row of
constants, each with the slots it takes.  Storing leaves exactly the row of constants, and
reading lays out the same slots again.
-/

namespace Reshape

/-! ## §1 Constants -/

namespace Constant

/-- What a tag announces is a constant. -/
theorem ne_unused_of_content {index : Nat} {tag : UInt8} {c : Constant} {s t : Cursor}
    (h : content index tag s = .ok c t) : c ≠ .unused := by
  fun_cases content index tag
  all_goals simp only [content, *, state_bind_eq_ok, state_pure_eq_ok, state_throw_eq_ok] at h
  all_goals grind

theorem ne_unused_of_read {index : Nat} {c : Constant} {s t : Cursor}
    (h : Constant.read index s = .ok c t) : c ≠ .unused := by
  obtain ⟨tag, u, -, h⟩ := state_bind_eq_ok.mp h
  exact ne_unused_of_content h

/-- The tag is read first and decides how the rest is read. -/
theorem reads_tagged {index : Nat} {tag : UInt8} {bs : Bytes} {c : Constant}
    {rest : Reader FormatError Constant} (hrest : content index tag = rest)
    (h : Reads rest bs c) : Reads (Constant.read index) (tag :: bs) c :=
  Reads.bind (Reads.u8 tag) (hrest ▸ h)

/-- Two indices in a row, as most constants that refer to others have them. -/
theorem reads_pair (make : UInt16 → UInt16 → Constant) (a b : UInt16) :
    Reads (do return make (← Reader.u16) (← Reader.u16) : Reader FormatError Constant)
      (BigEndian.u16 a ++ BigEndian.u16 b) (make a b) :=
  Reads.bind (Reads.u16 a) (Reads.last (make a) (Reads.u16 b))

theorem reads_utf8 {text : String} (h : (ModifiedUtf8.encode text).length < 65536) (index : Nat) :
    Reads (content index 1)
      (BigEndian.u16 (UInt16.ofNat (ModifiedUtf8.encode text).length) ++
        ModifiedUtf8.encode text)
      (.utf8 text) := by
  have hdecode : Reads (Reader.ofExcept FormatError.read
      (ModifiedUtf8.decode (ModifiedUtf8.encode text))) [] text :=
    Reads.ofExcept (ModifiedUtf8.decode_of_encode text)
  have hread := Reads.bind (f := fun payload => do
    let text ← Reader.ofExcept FormatError.read (ModifiedUtf8.decode payload)
    return Constant.utf8 text) (Reads.prefixed16 h) (Reads.last Constant.utf8 hdecode)
  rwa [List.append_nil] at hread

/-- A constant is read back, whatever slot it goes to. -/
theorem reads_encode {c : Constant} {bs : Bytes} (hc : c ≠ .unused) (h : c.encode = .ok bs)
    (index : Nat) : Reads (Constant.read index) bs c := by
  cases c with
  | unused => exact absurd rfl hc
  | utf8 text =>
      simp only [encode, Table.count] at h
      by_cases hn : (ModifiedUtf8.encode text).length < 65536
      · simp only [hn, if_true, Except.ok.injEq] at h
        subst h
        exact reads_tagged rfl (reads_utf8 hn index)
      · simp [hn] at h
  | integer value => cases h; exact reads_tagged rfl (Reads.last integer (Reads.i32 value))
  | float bits => cases h; exact reads_tagged rfl (Reads.last float (Reads.u32 bits))
  | long value => cases h; exact reads_tagged rfl (Reads.last long (Reads.i64 value))
  | double bits => cases h; exact reads_tagged rfl (Reads.last double (Reads.u64 bits))
  | classRef name => cases h; exact reads_tagged rfl (Reads.last classRef (Reads.u16 name))
  | stringRef text => cases h; exact reads_tagged rfl (Reads.last stringRef (Reads.u16 text))
  | fieldRef owner nat => cases h; exact reads_tagged rfl (reads_pair fieldRef owner nat)
  | methodRef owner nat => cases h; exact reads_tagged rfl (reads_pair methodRef owner nat)
  | interfaceMethodRef owner nat =>
      cases h; exact reads_tagged rfl (reads_pair interfaceMethodRef owner nat)
  | nameAndType name descriptor =>
      cases h; exact reads_tagged rfl (reads_pair nameAndType name descriptor)
  | methodHandle kind reference =>
      cases h
      exact reads_tagged rfl
        (Reads.bind (Reads.u8 kind) (Reads.last (methodHandle kind) (Reads.u16 reference)))
  | methodType descriptor =>
      cases h; exact reads_tagged rfl (Reads.last methodType (Reads.u16 descriptor))
  | dynamic bootstrap nat => cases h; exact reads_tagged rfl (reads_pair dynamic bootstrap nat)
  | invokeDynamic bootstrap nat =>
      cases h; exact reads_tagged rfl (reads_pair invokeDynamic bootstrap nat)
  | moduleRef name => cases h; exact reads_tagged rfl (Reads.last moduleRef (Reads.u16 name))
  | packageRef name => cases h; exact reads_tagged rfl (Reads.last packageRef (Reads.u16 name))

end Constant

namespace Pool

/-! ## §2 The slots of a pool -/

/-- Slot zero, and behind it a row of constants. -/
def WellFormed (p : Pool) : Prop :=
  ∃ cs : List Constant, (∀ c ∈ cs, c ≠ .unused) ∧
    p.slots.toList = .unused :: cs.flatMap spread

theorem wellFormed_empty : empty.WellFormed := ⟨[], by simp, rfl⟩

theorem WellFormed.push {p : Pool} {c : Constant} (hp : p.WellFormed) (hc : c ≠ .unused) :
    (p.push c).WellFormed := by
  obtain ⟨cs, hcs, hslots⟩ := hp
  refine ⟨cs ++ [c], ?_, ?_⟩
  · intro d hd
    rcases List.mem_append.mp hd with hd | hd
    · exact hcs d hd
    · rwa [List.mem_singleton.mp hd]
  · rw [toList_push, hslots]
    simp

theorem Growth.wellFormed {p q : Pool} (h : Growth p q) (hp : p.WellFormed) : q.WellFormed := by
  induction h with
  | refl => exact hp
  | push _ used _ _ ih => exact ih.push used

/-! ## §3 Reading -/

/-- One more constant is read, and the index behind it has sixteen bits. -/
theorem readUpTo_step {count : Nat} {p q : Pool} {s t : Cursor} (hlt : p.size < count)
    (h : readUpTo count p s = .ok q t) : ∃ c u, Constant.read p.size s = .ok c u ∧
      (p.push c).size < 65536 ∧ readUpTo count (p.push c) u = .ok q t := by
  rw [readUpTo, dif_pos hlt] at h
  obtain ⟨c, u, hc, h⟩ := state_bind_eq_ok.mp h
  by_cases hsize : (p.push c).size < 65536
  · rw [if_pos hsize] at h
    exact ⟨c, u, hc, hsize, h⟩
  · rw [if_neg hsize] at h
    exact (state_throw_eq_ok.mp h).elim

/-- A pool under construction stays a row of constants, and outgrows the count by a slot at
most. -/
theorem wellFormed_of_readUpTo {count : Nat} {p q : Pool} {s t : Cursor} (hp : p.WellFormed)
    (hsize : p.size ≤ count + 1) (h : readUpTo count p s = .ok q t) :
    q.WellFormed ∧ q.size ≤ count + 1 := by
  induction p using readUpTo.induct count generalizing s with
  | case1 p hlt ih =>
      obtain ⟨c, u, hc, -, h⟩ := readUpTo_step hlt h
      refine ih c (hp.push (Constant.ne_unused_of_read hc)) ?_ h
      have hslots : c.slots ≤ 2 := by unfold Constant.slots; split <;> omega
      rw [size_push]
      omega
  | case2 p hge =>
      rw [readUpTo, dif_neg hge] at h
      obtain ⟨rfl, -⟩ := state_pure_eq_ok.mp h
      exact ⟨hp, hsize⟩

theorem wellFormed_of_read {p : Pool} {s t : Cursor} (h : Pool.read s = .ok p t) :
    p.WellFormed ∧ p.Addressable := by
  obtain ⟨count, u, -, h⟩ := state_bind_eq_ok.mp h
  obtain ⟨hp, hsize⟩ := wellFormed_of_readUpTo wellFormed_empty (by simp [size, empty]) h
  refine ⟨hp, ?_⟩
  have := count.toNat_lt
  unfold Addressable
  omega

/-! ## §4 Reading back -/

/-- The constants that are missing to a pool are read from their stored forms. -/
theorem reads_readUpTo {q : Pool} (hmost : q.size ≤ maxSlots) (cs : List Constant) :
    ∀ {p : Pool} {entries : List Bytes}, (∀ c ∈ cs, c ≠ .unused) →
      q.slots.toList = p.slots.toList ++ cs.flatMap spread →
      List.Forall₂ (fun c bs => Constant.encode c = .ok bs) (cs.flatMap spread) entries →
      Reads (readUpTo q.size p) entries.flatten q := by
  induction cs with
  | nil =>
      intro p entries _ hq hentries
      rw [List.flatMap_nil] at hentries hq
      cases hentries
      have hpq : p = q := by
        rw [List.append_nil] at hq
        cases p; cases q
        simpa using hq.symm
      subst hpq
      rw [readUpTo, dif_neg (Nat.lt_irrefl _)]
      exact .pure p
  | cons c cs ih =>
      intro p entries hcs hq hentries
      have hsize := congrArg List.length hq
      rw [List.flatMap_cons] at hentries hq
      rw [List.flatMap_cons, List.length_append, List.length_append, length_spread] at hsize
      have hlt : p.size < q.size := by
        have hpos : 0 < c.slots := by unfold Constant.slots; split <;> omega
        simp only [Array.length_toList] at hsize
        unfold size
        omega
      have hnext : q.slots.toList = (p.push c).slots.toList ++ cs.flatMap spread := by
        rw [hq, toList_push, List.append_assoc]
      have hrest {es : List Bytes}
          (hes : List.Forall₂ (fun c bs => Constant.encode c = .ok bs) (cs.flatMap spread) es) :
          Reads (readUpTo q.size (p.push c)) es.flatten q :=
        ih (fun d hd => hcs d (List.mem_cons_of_mem c hd)) hnext hes
      have hc : c ≠ .unused := hcs c List.mem_cons_self
      have hindex : (p.push c).size < 65536 := by
        have hpushed := congrArg List.length hnext
        simp only [List.length_append, Array.length_toList] at hpushed
        unfold size at hmost ⊢
        unfold maxSlots at hmost
        omega
      rw [readUpTo, dif_pos hlt]
      by_cases hw : c.isWide = true
      · simp only [spread, hw, if_true, List.cons_append, List.nil_append] at hentries
        obtain ⟨bs, es, hbs, hes, rfl⟩ := List.forall₂_cons_left_iff.mp hentries
        obtain ⟨bs', es', hbs', hes', rfl⟩ := List.forall₂_cons_left_iff.mp hes
        cases hbs'
        have htail := hrest hes'
        exact .bind (Constant.reads_encode hc hbs p.size) (by rwa [if_pos hindex])
      · have hone : spread c = [c] := by simp [spread, hw]
        rw [hone] at hentries
        obtain ⟨bs, es, hbs, hes, rfl⟩ := List.forall₂_cons_left_iff.mp hentries
        exact .bind (Constant.reads_encode hc hbs p.size) (by rw [if_pos hindex]; exact hrest hes)

theorem reads_encode {p : Pool} {bs : Bytes} (hp : p.WellFormed) (h : p.encode = .ok bs) :
    Reads Pool.read bs p := by
  obtain ⟨cs, hcs, hslots⟩ := hp
  simp only [encode] at h
  split at h <;> try cases h
  next hmax =>
    obtain ⟨entries, hentries, h⟩ := except_bind_eq_ok.mp h
    cases (except_pure_eq_ok.mp h)
    rw [hslots] at hentries
    obtain ⟨bs, es, hbs, hes, rfl⟩ := List.forall₂_cons_left_iff.mp (except_mapM_eq_ok.mp hentries)
    cases hbs
    have hcount : (UInt16.ofNat p.size).toNat = p.size :=
      UInt16.toNat_ofNat_of_lt' (show p.size < 65536 by unfold maxSlots at hmax; omega)
    have hread : Reads (readUpTo p.size empty) es.flatten p :=
      reads_readUpTo hmax cs hcs (by rw [hslots]; rfl) hes
    rw [← hcount] at hread
    exact .bind (.u16 _) hread

end Pool

end Reshape
