import Mathlib.Data.List.Induction
import Reshape.Proofs.Bytes.Reading

/-!
# What was read stood there

`Finds r form` says that everything the reader `r` takes from the front of some data has there the
form that `form` tells of the result.  It is the converse of `Reads`: together they say that a
stored form is the only one.  Where a reader is more generous than the writer, the form says how.
-/

namespace Reshape

/-! ## §1 Words -/

namespace BigEndian

theorem value_lt (bs : Bytes) : value bs < Nat.pow 256 bs.length := by
  induction bs using List.reverseRecOn with
  | nil => exact Nat.one_pos
  | append_singleton bs b ih =>
      have hb := b.toNat_lt
      rw [value_append_singleton, List.length_append, List.length_singleton]
      show _ < Nat.pow 256 bs.length * 256
      omega

/-- A word has no other digits than the ones it was read from. -/
theorem digits_value (bs : Bytes) : digits bs.length (value bs) = bs := by
  induction bs using List.reverseRecOn with
  | nil => rfl
  | append_singleton bs b ih =>
      have hb := b.toNat_lt
      have hrest : (256 * value bs + b.toNat) / 256 = value bs := by omega
      have hlast : UInt8.ofNat (256 * value bs + b.toNat) = b := by
        apply UInt8.toNat_inj.mp
        rw [UInt8.toNat_ofNat']
        omega
      rw [value_append_singleton, List.length_append, List.length_singleton, digits, hrest, hlast, ih]

variable {bs : Bytes}

theorem u8_value (h : bs.length = 1) : [UInt8.ofNat (value bs)] = bs := by
  have hdigits := digits_value bs
  rwa [h] at hdigits

theorem u16_value (h : bs.length = 2) : u16 (UInt16.ofNat (value bs)) = bs := by
  have hlt := value_lt bs
  rw [h] at hlt
  rw [u16, UInt16.toNat_ofNat_of_lt' hlt, ← h, digits_value]

theorem u32_value (h : bs.length = 4) : u32 (UInt32.ofNat (value bs)) = bs := by
  have hlt := value_lt bs
  rw [h] at hlt
  rw [u32, UInt32.toNat_ofNat_of_lt' hlt, ← h, digits_value]

theorem u64_value (h : bs.length = 8) : u64 (UInt64.ofNat (value bs)) = bs := by
  have hlt := value_lt bs
  rw [h] at hlt
  rw [u64, UInt64.toNat_ofNat_of_lt' hlt, ← h, digits_value]

end BigEndian

/-! ## §2 Composed readers -/

def Finds {ε α : Type} (r : Reader ε α) (form : α → Bytes → Prop) : Prop :=
  ∀ c a c', r c = .ok a c' → ∃ bs, c.rest = bs ++ c'.rest ∧ form a bs

namespace Finds

variable {ε α β : Type} {form : α → Bytes → Prop} {form' : β → Bytes → Prop}

theorem pure {a : α} (h : form a []) : Finds (Pure.pure a : Reader ε α) form := by
  intro c b c' hread
  obtain ⟨rfl, rfl⟩ := state_pure_eq_ok.mp hread
  exact ⟨[], rfl, h⟩

theorem throw (e : ε) : Finds (MonadExcept.throw e : Reader ε α) form := by
  intro c a c' hread
  exact (state_throw_eq_ok.mp hread).elim

/-- What the rest of the reader finds stands behind what was found first. -/
theorem bind {r : Reader ε α} {f : α → Reader ε β} (hr : Finds r form)
    (hf : ∀ a bs, form a bs → Finds (f a) fun b cs => form' b (bs ++ cs)) :
    Finds (r >>= f) form' := by
  intro c b c' hread
  obtain ⟨a, c₁, ha, hb⟩ := state_bind_eq_ok.mp hread
  obtain ⟨bs, hbs, hform⟩ := hr c a c₁ ha
  obtain ⟨cs, hcs, hform'⟩ := hf a bs hform c₁ b c' hb
  exact ⟨bs ++ cs, by rw [hbs, hcs, List.append_assoc], hform'⟩

/-- The last part, of which the result is made. -/
theorem last {r : Reader ε α} {f : α → β} (hr : Finds r form)
    (hf : ∀ a bs, form a bs → form' (f a) bs) :
    Finds (r >>= fun a => Pure.pure (f a)) form' :=
  bind hr fun a bs ha => pure (by rw [List.append_nil]; exact hf a bs ha)

theorem ofExcept {δ : Type} {inject : δ → ε} {x : Except δ α} (h : ∀ a, x = .ok a → form a []) :
    Finds (Reader.ofExcept inject x) form := by
  cases x with
  | error e => exact throw (inject e)
  | ok a => exact pure (h a rfl)

/-! ## §3 Words, prefixed and counted data -/

section Words

variable [OfReadFault ε]

theorem bytes (n : Nat) :
    Finds (Reader.bytes n : Reader ε Bytes) fun a bs => bs = a ∧ a.length = n := by
  intro c a c' hread
  unfold Reader.bytes at hread
  dsimp only at hread
  split at hread
  · next hlength =>
    cases hread
    exact ⟨_, (List.take_append_drop n c.rest).symm, rfl, hlength⟩
  · cases hread

theorem u8 : Finds (Reader.u8 : Reader ε UInt8) fun a bs => bs = [a] :=
  last (bytes 1) fun _ _ h => by rw [BigEndian.u8_value h.2, h.1]

theorem u16 : Finds (Reader.u16 : Reader ε UInt16) fun a bs => bs = BigEndian.u16 a :=
  last (bytes 2) fun _ _ h => by rw [BigEndian.u16_value h.2, h.1]

theorem u32 : Finds (Reader.u32 : Reader ε UInt32) fun a bs => bs = BigEndian.u32 a :=
  last (bytes 4) fun _ _ h => by rw [BigEndian.u32_value h.2, h.1]

theorem u64 : Finds (Reader.u64 : Reader ε UInt64) fun a bs => bs = BigEndian.u64 a :=
  last (bytes 8) fun _ _ h => by rw [BigEndian.u64_value h.2, h.1]

theorem i32 : Finds (Reader.i32 : Reader ε Int32) fun a bs => bs = BigEndian.u32 a.toUInt32 :=
  last u32 fun _ _ h => h

theorem i64 : Finds (Reader.i64 : Reader ε Int64) fun a bs => bs = BigEndian.u64 a.toUInt64 :=
  last u64 fun _ _ h => h

theorem prefixed16 : Finds (Reader.prefixed16 : Reader ε Bytes) fun a bs =>
    a.length < 65536 ∧ bs = BigEndian.u16 (UInt16.ofNat a.length) ++ a := by
  refine bind u16 fun n bs hn c a c' hread => ?_
  obtain ⟨bs', hrest, rfl, hlength⟩ := bytes _ c a c' hread
  refine ⟨bs', hrest, hlength ▸ n.toNat_lt, ?_⟩
  rw [hlength, UInt16.ofNat_toNat, hn]

theorem prefixed32 : Finds (Reader.prefixed32 : Reader ε Bytes) fun a bs =>
    a.length < 4294967296 ∧ bs = BigEndian.u32 (UInt32.ofNat a.length) ++ a := by
  refine bind u32 fun n bs hn c a c' hread => ?_
  obtain ⟨bs', hrest, rfl, hlength⟩ := bytes _ c a c' hread
  refine ⟨bs', hrest, hlength ▸ n.toNat_lt, ?_⟩
  rw [hlength, UInt32.ofNat_toNat, hn]

omit [OfReadFault ε] in
theorem timesAfter {item : Reader ε α} (hitem : Finds item form) (n : Nat) :
    ∀ done, Finds (Reader.timesAfter item n done) fun as bs => ∃ new bss,
      as = done.reverse ++ new ∧ new.length = n ∧ bs = bss.flatten ∧ List.Forall₂ form new bss := by
  induction n with
  | zero => exact fun done => pure ⟨[], [], by simp, rfl, rfl, .nil⟩
  | succ n ih =>
      intro done
      refine bind hitem fun a bs ha c as c' hread => ?_
      obtain ⟨bs', hrest, new, bss, rfl, hlength, rfl, hnew⟩ := ih (a :: done) c as c' hread
      exact ⟨_, hrest, a :: new, bs :: bss, by simp, by simp [hlength], by simp, .cons ha hnew⟩

theorem counted {item : Reader ε α} (hitem : Finds item form) :
    Finds (Reader.counted item) fun as bs => ∃ bss, as.length < 65536 ∧
      bs = BigEndian.u16 (UInt16.ofNat as.length) ++ bss.flatten ∧ List.Forall₂ form as bss := by
  refine bind u16 fun n bs hn c as c' hread => ?_
  obtain ⟨bs', hrest, new, bss, rfl, hlength, rfl, hnew⟩ := timesAfter hitem _ [] c as c' hread
  refine ⟨_, hrest, bss, hlength ▸ n.toNat_lt, ?_, hnew⟩
  rw [hlength, UInt16.ofNat_toNat, hn]

end Words

end Finds

/-- Items that stood there as they are stored make up the row of them. -/
theorem flatten_of_forall₂ {α : Type} {item : α → Bytes} {as : List α} {bss : List Bytes}
    (h : List.Forall₂ (fun a bs => bs = item a) as bss) : bss.flatten = as.flatMap item := by
  induction h with
  | nil => rfl
  | cons hbs _ ih => rw [List.flatten_cons, List.flatMap_cons, hbs, ih]

theorem Finds.times {ε α : Type} {item : α → Bytes} {reader : Reader ε α}
    (hitem : Finds reader fun a bs => bs = item a) (n : Nat) :
    Finds (Reader.times reader n) fun as bs => as.length = n ∧ bs = as.flatMap item := by
  intro c as c' hread
  obtain ⟨bs, hrest, _, bss, rfl, hlength, rfl, hrow⟩ := timesAfter hitem n [] c as c' hread
  exact ⟨bss.flatten, hrest, hlength, flatten_of_forall₂ hrow⟩

/-- A counted table stood there as it is stored if its items did. -/
theorem Table.finds_encode {ε α : Type} [OfReadFault ε] {table : Table} {item : α → Bytes}
    {reader : Reader ε α} (hitem : Finds reader fun a bs => bs = item a) :
    Finds (Reader.counted reader) fun items bs => table.encode item items = .ok bs := by
  intro c items c' hread
  obtain ⟨bs, hrest, bss, hlength, rfl, hitems⟩ := Finds.counted hitem c items c' hread
  exact ⟨_, hrest, Table.encode_eq_ok.mpr ⟨hlength, by rw [flatten_of_forall₂ hitems]⟩⟩

end Reshape
