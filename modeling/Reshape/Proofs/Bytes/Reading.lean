import Mathlib.Algebra.GroupWithZero.Nat
import Reshape.Error
import Reshape.Proofs.Results

/-!
# Reading back what was written

`Reads r bs a` says that the reader `r` takes exactly the bytes `bs` from the front of any data
and makes `a` of them.  A composed reader takes the bytes of its parts one after the other, so
each statement about a stored form follows the reader step by step.
-/

namespace Reshape

def Reads {ε α : Type} (r : Reader ε α) (bs : Bytes) (a : α) : Prop :=
  ∀ position rest, r ⟨position, bs ++ rest⟩ = .ok a ⟨position + bs.length, rest⟩

namespace Reads

variable {ε α β : Type}

/-! ## §1 Composed readers -/

theorem pure (a : α) : Reads (Pure.pure a : Reader ε α) [] a := by
  intro position rest
  simp [Pure.pure, EStateM.pure]

/-- The part at the front is read, and the rest of the reader goes on behind it. -/
theorem bind_apply {r : Reader ε α} {f : α → Reader ε β} {bs : Bytes} {a : α} (hr : Reads r bs a)
    (position : Nat) (rest : Bytes) :
    (r >>= f) ⟨position, bs ++ rest⟩ = f a ⟨position + bs.length, rest⟩ := by
  simp only [Bind.bind, EStateM.bind, hr position rest]

theorem bind {r : Reader ε α} {f : α → Reader ε β} {bs cs : Bytes} {a : α} {b : β}
    (hr : Reads r bs a) (hf : Reads (f a) cs b) : Reads (r >>= f) (bs ++ cs) b := by
  intro position rest
  rw [List.append_assoc, bind_apply hr, hf, List.length_append, Nat.add_assoc]

/-- The last part, of which the result is made. -/
theorem last {r : Reader ε α} {bs : Bytes} {a : α} (f : α → β) (hr : Reads r bs a) :
    Reads (r >>= fun a => Pure.pure (f a)) bs (f a) := by
  intro position rest
  rw [bind_apply hr]
  rfl

theorem ofExcept {δ : Type} {inject : δ → ε} {x : Except δ α} {a : α} (h : x = .ok a) :
    Reads (Reader.ofExcept inject x) [] a :=
  h ▸ pure a

/-- Data that is taken in full gives the result. -/
theorem runOn {r : Reader ε α} {bs : Bytes} {a : α} (hr : Reads r bs a) :
    r.runOn bs = .ok a := by
  have h := hr 0 []
  rw [List.append_nil] at h
  simp only [Reader.runOn, Cursor.start, h]

/-- Behind data that is taken in full the rest of a reader finds nothing left. -/
theorem runOn_bind {r : Reader ε α} {f : α → Reader ε β} {bs : Bytes} {a : α} {b : β} {c : Cursor}
    (hr : Reads r bs a) (hf : f a ⟨0 + bs.length, []⟩ = .ok b c) : (r >>= f).runOn bs = .ok b := by
  have h := bind_apply (f := f) hr 0 []
  rw [List.append_nil, hf] at h
  simp only [Reader.runOn, Cursor.start, h]

/-! ## §2 Words -/

section Words

variable [OfReadFault ε]

theorem bytes (bs : Bytes) : Reads (Reader.bytes bs.length : Reader ε Bytes) bs bs := by
  intro position rest
  simp [Reader.bytes]

/-- Fewer digits than the width are no obstacle: what is written has the width. -/
theorem digits (width n : Nat) :
    Reads (Reader.bytes width : Reader ε Bytes) (BigEndian.digits width n)
      (BigEndian.digits width n) := by
  have h := bytes (ε := ε) (BigEndian.digits width n)
  rwa [BigEndian.length_digits] at h

theorem u8 (v : UInt8) : Reads (Reader.u8 : Reader ε UInt8) [v] v := by
  have hv : UInt8.ofNat (BigEndian.value [v]) = v := by simp [BigEndian.value]
  have h : Reads (Reader.u8 : Reader ε UInt8) [v] (UInt8.ofNat (BigEndian.value [v])) :=
    last _ (bytes [v])
  rwa [hv] at h

theorem u16 (v : UInt16) : Reads (Reader.u16 : Reader ε UInt16) (BigEndian.u16 v) v := by
  have hv : UInt16.ofNat (BigEndian.value (BigEndian.u16 v)) = v := by
    rw [BigEndian.value_u16, UInt16.ofNat_toNat]
  have h : Reads (Reader.u16 : Reader ε UInt16) (BigEndian.u16 v)
      (UInt16.ofNat (BigEndian.value (BigEndian.u16 v))) := last _ (digits 2 v.toNat)
  rwa [hv] at h

theorem u32 (v : UInt32) : Reads (Reader.u32 : Reader ε UInt32) (BigEndian.u32 v) v := by
  have hv : UInt32.ofNat (BigEndian.value (BigEndian.u32 v)) = v := by
    rw [BigEndian.value_u32, UInt32.ofNat_toNat]
  have h : Reads (Reader.u32 : Reader ε UInt32) (BigEndian.u32 v)
      (UInt32.ofNat (BigEndian.value (BigEndian.u32 v))) := last _ (digits 4 v.toNat)
  rwa [hv] at h

theorem u64 (v : UInt64) : Reads (Reader.u64 : Reader ε UInt64) (BigEndian.u64 v) v := by
  have hv : UInt64.ofNat (BigEndian.value (BigEndian.u64 v)) = v := by
    rw [BigEndian.value_u64, UInt64.ofNat_toNat]
  have h : Reads (Reader.u64 : Reader ε UInt64) (BigEndian.u64 v)
      (UInt64.ofNat (BigEndian.value (BigEndian.u64 v))) := last _ (digits 8 v.toNat)
  rwa [hv] at h

theorem i32 (v : Int32) : Reads (Reader.i32 : Reader ε Int32) (BigEndian.u32 v.toUInt32) v :=
  last UInt32.toInt32 (u32 v.toUInt32)

theorem i64 (v : Int64) : Reads (Reader.i64 : Reader ε Int64) (BigEndian.u64 v.toUInt64) v :=
  last UInt64.toInt64 (u64 v.toUInt64)

/-! ## §3 Prefixed and counted data -/

theorem prefixed16 {bs : Bytes} (h : bs.length < 65536) :
    Reads (Reader.prefixed16 : Reader ε Bytes)
      (BigEndian.u16 (UInt16.ofNat bs.length) ++ bs) bs := by
  have hn : (UInt16.ofNat bs.length).toNat = bs.length := UInt16.toNat_ofNat_of_lt' h
  have hbytes := bytes (ε := ε) bs
  rw [← hn] at hbytes
  exact bind (u16 _) hbytes

theorem prefixed32 {bs : Bytes} (h : bs.length < 4294967296) :
    Reads (Reader.prefixed32 : Reader ε Bytes)
      (BigEndian.u32 (UInt32.ofNat bs.length) ++ bs) bs := by
  have hn : (UInt32.ofNat bs.length).toNat = bs.length := UInt32.toNat_ofNat_of_lt' h
  have hbytes := bytes (ε := ε) bs
  rw [← hn] at hbytes
  exact bind (u32 _) hbytes

omit [OfReadFault ε] in
theorem timesAfter {item : Reader ε α} {bss : List Bytes} {as : List α}
    (h : List.Forall₂ (Reads item) bss as) (done : List α) :
    Reads (Reader.timesAfter item as.length done) bss.flatten (done.reverse ++ as) := by
  induction h generalizing done with
  | nil =>
      rw [List.append_nil]
      exact pure done.reverse
  | @cons bs a bss as hbs _ ih =>
      have hrest := ih (a :: done)
      rw [List.reverse_cons, List.append_assoc, List.singleton_append] at hrest
      exact bind hbs hrest

theorem counted {item : Reader ε α} {bss : List Bytes} {as : List α}
    (h : List.Forall₂ (Reads item) bss as) (hn : as.length < 65536) :
    Reads (Reader.counted item)
      (BigEndian.u16 (UInt16.ofNat as.length) ++ bss.flatten) as := by
  have hback : (UInt16.ofNat as.length).toNat = as.length := UInt16.toNat_ofNat_of_lt' hn
  have hitems := timesAfter h []
  rw [List.reverse_nil, List.nil_append, ← hback] at hitems
  exact bind (u16 _) hitems

end Words

end Reads

/-- A row is read back if its items are. -/
theorem Reads.times {ε α : Type} {item : α → Bytes} {reader : Reader ε α} {items : List α}
    (hitem : ∀ a ∈ items, Reads reader (item a) a) :
    Reads (Reader.times reader items.length) (items.flatMap item) items := by
  rw [List.flatMap_def]
  refine timesAfter ?_ []
  rw [List.forall₂_map_left_iff, List.forall₂_same]
  exact hitem

namespace Table

variable {table : Table} {bs : Bytes}

theorem count_eq_ok {n : Nat} :
    table.count n = .ok bs ↔ n < 65536 ∧ bs = BigEndian.u16 (UInt16.ofNat n) := by
  unfold count
  split
  · next hn => exact ⟨fun h => ⟨hn, (Except.ok.inj h).symm⟩, fun h => congrArg Except.ok h.2.symm⟩
  · next hn => exact ⟨nofun, fun h => absurd h.1 hn⟩

theorem encode_eq_ok {α : Type} {item : α → Bytes} {items : List α} :
    table.encode item items = .ok bs ↔ items.length < 65536 ∧
      bs = BigEndian.u16 (UInt16.ofNat items.length) ++ items.flatMap item := by
  unfold encode
  cases hcount : table.count items.length with
  | ok count =>
      obtain ⟨hn, rfl⟩ := count_eq_ok.mp hcount
      exact ⟨fun h => ⟨hn, (Except.ok.inj h).symm⟩, fun h => congrArg Except.ok h.2.symm⟩
  | error e =>
      refine ⟨nofun, fun h => ?_⟩
      rw [count_eq_ok.mpr ⟨h.1, rfl⟩] at hcount
      cases hcount

/-- A table with items of which not all can be stored. -/
theorem rows_eq_ok {α : Type} {item : α → Except BuildError Bytes} {items : List α} :
    (do
      let count ← table.count items.length
      let encoded ← items.mapM item
      return count ++ encoded.flatten : Except BuildError Bytes) = .ok bs ↔
      ∃ bss, items.length < 65536 ∧
        bs = BigEndian.u16 (UInt16.ofNat items.length) ++ bss.flatten ∧
        List.Forall₂ (fun a bs => item a = .ok bs) items bss := by
  simp only [except_bind_eq_ok, except_pure_eq_ok, count_eq_ok, except_mapM_eq_ok]
  constructor
  · rintro ⟨_, ⟨hlength, rfl⟩, bss, hrow, rfl⟩
    exact ⟨bss, hlength, rfl, hrow⟩
  · rintro ⟨bss, hlength, rfl, hrow⟩
    exact ⟨_, ⟨hlength, rfl⟩, bss, hrow, rfl⟩

/-- A counted table is read back if its items are. -/
theorem reads_encode {ε α : Type} [OfReadFault ε] {item : α → Bytes} {reader : Reader ε α}
    {items : List α} (hitem : ∀ a ∈ items, Reads reader (item a) a)
    (h : table.encode item items = .ok bs) : Reads (Reader.counted reader) bs items := by
  obtain ⟨hn, rfl⟩ := encode_eq_ok.mp h
  rw [List.flatMap_def]
  refine .counted ?_ hn
  rw [List.forall₂_map_left_iff, List.forall₂_same]
  exact hitem

end Table

/-! ## §4 Readers that read more -/

/-- Whatever `r` reads, `r'` reads in the same way. -/
def Reader.Extends {ε α : Type} (r r' : Reader ε α) : Prop :=
  ∀ c a c', r c = .ok a c' → r' c = .ok a c'

namespace Reader.Extends

variable {ε α β : Type}

theorem refl (r : Reader ε α) : r.Extends r := fun _ _ _ h => h

theorem bind {r r' : Reader ε α} {f f' : α → Reader ε β} (hr : r.Extends r')
    (hf : ∀ a, (f a).Extends (f' a)) : (r >>= f).Extends (r' >>= f') := by
  intro c b c' h
  obtain ⟨a, c₁, ha, hb⟩ := state_bind_eq_ok.mp h
  exact state_bind_eq_ok.mpr ⟨a, c₁, hr _ _ _ ha, hf a _ _ _ hb⟩

theorem map {r r' : Reader ε α} (f : α → β) (hr : r.Extends r') :
    (r >>= fun a => Pure.pure (f a)).Extends (r' >>= fun a => Pure.pure (f a)) :=
  bind hr fun _ => refl _

theorem ofExcept {δ : Type} {inject : δ → ε} {x x' : Except δ α}
    (h : ∀ a, x = .ok a → x' = .ok a) :
    (Reader.ofExcept inject x).Extends (Reader.ofExcept inject x') := by
  cases x with
  | error e =>
      intro c a c' hthrow
      exact (state_throw_eq_ok.mp hthrow).elim
  | ok a =>
      rw [h a rfl]
      exact refl _

theorem timesAfter {item item' : Reader ε α} (h : item.Extends item') (n : Nat) :
    ∀ done, (Reader.timesAfter item n done).Extends (Reader.timesAfter item' n done) := by
  induction n with
  | zero => exact fun done => refl _
  | succ n ih => exact fun done => bind h fun a => ih (a :: done)

theorem counted [OfReadFault ε] {item item' : Reader ε α} (h : item.Extends item') :
    (Reader.counted item).Extends (Reader.counted item') :=
  bind (refl _) fun n => timesAfter h n.toNat []

theorem runOn {r r' : Reader ε α} (hr : r.Extends r') {data : Bytes} {a : α}
    (h : r.runOn data = .ok a) : r'.runOn data = .ok a := by
  unfold Reader.runOn at h ⊢
  split at h
  · next b c hread =>
    cases h
    rw [hr _ _ _ hread]
  · cases h

end Reader.Extends

/-- Each item of a counted row was read as an item. -/
theorem Reader.forall_of_counted {ε α : Type} [OfReadFault ε] {item : Reader ε α} {P : α → Prop}
    (hitem : ∀ c a c', item c = .ok a c' → P a) {c c' : Cursor} {as : List α}
    (h : Reader.counted item c = .ok as c') : ∀ a ∈ as, P a := by
  suffices hrow : ∀ (n : Nat) (done : List α) (c : Cursor), (∀ a ∈ done, P a) →
      Reader.timesAfter item n done c = .ok as c' → ∀ a ∈ as, P a by
    obtain ⟨n, c₁, -, h⟩ := state_bind_eq_ok.mp h
    exact hrow n.toNat [] c₁ (by simp) h
  intro n
  induction n with
  | zero =>
      intro done c hdone h a ha
      obtain ⟨rfl, -⟩ := state_pure_eq_ok.mp h
      exact hdone a (List.mem_reverse.mp ha)
  | succ n ih =>
      intro done c hdone h
      obtain ⟨a, c₁, ha, h⟩ := state_bind_eq_ok.mp h
      exact ih (a :: done) c₁ (List.forall_mem_cons.mpr ⟨hitem c a c₁ ha, hdone⟩) h

/-- A reader that starts when `before` bytes have been read has, when it is done, read as many as
its result has. -/
def Reader.Takes {ε α : Type} (before : Nat) (size : α → Nat) (r : Reader ε α) : Prop :=
  ∀ c a c', r c = .ok a c' → before + c.remaining = size a + c'.remaining

namespace Reader.Takes

variable {ε α β : Type} {before n : Nat} {size : α → Nat}

theorem pure {a : α} (h : before = size a) : (Pure.pure a : Reader ε α).Takes before size := by
  intro c b c' hread
  obtain ⟨rfl, rfl⟩ := state_pure_eq_ok.mp hread
  rw [h]

theorem throw (e : ε) : (MonadExcept.throw e : Reader ε α).Takes before size := by
  intro c a c' hread
  exact (state_throw_eq_ok.mp hread).elim

theorem bind {size' : β → Nat} {r : Reader ε α} {f : α → Reader ε β} (hr : r.Takes before size)
    (hf : ∀ a, (f a).Takes (size a) size') : (r >>= f).Takes before size' := by
  intro c b c' hread
  obtain ⟨a, c₁, ha, hb⟩ := state_bind_eq_ok.mp hread
  rw [hr c a c₁ ha, hf a c₁ b c' hb]

/-- An item may come later. -/
theorem shift {r : Reader ε α} (hr : r.Takes 0 size) :
    r.Takes before fun a => before + size a := by
  intro c a c' hread
  have hitem := hr c a c' hread
  show before + c.remaining = before + size a + c'.remaining
  omega

theorem ofExcept {δ : Type} {inject : δ → ε} (x : Except δ α) :
    (Reader.ofExcept inject x).Takes before fun _ => before := by
  cases x with
  | error e => exact throw (inject e)
  | ok a => exact pure rfl

theorem timesAfter {item : Reader ε α} (hitem : item.Takes 0 size) (n : Nat) :
    ∀ done, (Reader.timesAfter item n done).Takes (before + (done.map size).sum)
      fun as => before + (as.map size).sum := by
  induction n with
  | zero =>
      intro done
      exact pure (by rw [List.map_reverse, List.sum_reverse])
  | succ n ih =>
      intro done
      refine bind hitem.shift fun a => ?_
      have hrest := ih (a :: done)
      rw [List.map_cons, List.sum_cons, Nat.add_comm (size a), ← Nat.add_assoc] at hrest
      exact hrest

variable [OfReadFault ε]

theorem bytes : (Reader.bytes n : Reader ε Bytes).Takes before fun _ => before + n := by
  intro c bs c' hread
  unfold Reader.bytes at hread
  dsimp only at hread
  split at hread
  · next hlength =>
    cases hread
    rw [List.length_take] at hlength
    simp only [Cursor.remaining, List.length_drop]
    omega
  · cases hread

theorem u8 : (Reader.u8 : Reader ε UInt8).Takes before fun _ => before + 1 :=
  bind bytes fun _ => pure rfl

theorem u16 : (Reader.u16 : Reader ε UInt16).Takes before fun _ => before + 2 :=
  bind bytes fun _ => pure rfl

theorem counted {item : Reader ε α} (hitem : item.Takes 0 size) :
    (Reader.counted item).Takes before fun as => before + 2 + (as.map size).sum :=
  bind u16 fun n => timesAfter hitem n.toNat []

end Reader.Takes

end Reshape
