import Reshape.Proofs.Bytes.Found

/-!
# Data that is read to its end

Some structures must end where their data ends: their readers take all of it or fail.  Others take the
front of their data and leave what is behind.

A reader is delimited if the bytes it takes tell by themselves where they end.  It takes the same bytes
whatever follows them, and if they are cut short it comes to the end of the data and asks for more, but
never for more than was cut off.  A reader is delimited if its steps are, so each statement about a
format follows the reader step by step.
-/

namespace Reshape

variable {ε α β : Type}

/-! ## §1 What is left -/

/-- What was read of data that may go on. -/
theorem Finds.runOn {r : Reader ε α} {form : α → Bytes → Prop} (hr : Finds r form) {data : Bytes}
    {a : α} (h : r.runOn data = .ok a) : ∃ bs behind, data = bs ++ behind ∧ form a bs := by
  unfold Reader.runOn at h
  split at h
  · next c hread =>
    cases h
    obtain ⟨bs, hdata, hform⟩ := hr _ _ _ hread
    exact ⟨bs, c.rest, hdata, hform⟩
  · cases h

theorem Reads.runOn_append {r : Reader ε α} {bs : Bytes} {a : α} (hr : Reads r bs a)
    (behind : Bytes) : r.runOn (bs ++ behind) = .ok a := by
  simp only [Reader.runOn, Cursor.start, hr 0 behind]

/-- Nothing may be left behind the result. -/
def Reader.ending (place : Section) (a : α) : Reader FormatError α := do
  match ← Reader.unread with
  | 0 => return a
  | n => throw (.trailingBytes place n)

section Ending

variable {place : Section} {r : Reader FormatError α} {data bs : Bytes} {a : α}

theorem Reader.ending_of_ne (position : Nat) {rest : Bytes} (h : rest ≠ []) :
    Reader.ending place a ⟨position, rest⟩ =
      .error (.trailingBytes place rest.length) ⟨position, rest⟩ := by
  cases rest with
  | nil => exact absurd rfl h
  | cons b rest => rfl

theorem Reads.runOn_ending (hr : Reads r bs a) : (r >>= Reader.ending place).runOn bs = .ok a :=
  hr.runOn_bind rfl

theorem Reads.runOn_ending_append (hr : Reads r bs a) {more : Bytes} (hmore : more ≠ []) :
    (r >>= Reader.ending place).runOn (bs ++ more) = .error (.trailingBytes place more.length) := by
  simp only [Reader.runOn, Cursor.start, hr.bind_apply, Reader.ending_of_ne _ hmore]

/-- Data that has to end with what was read does so. -/
theorem Reader.runOn_ending_eq_ok :
    (r >>= Reader.ending place).runOn data = .ok a ↔
      ∃ c, r (Cursor.start data) = .ok a c ∧ c.rest = [] := by
  constructor
  · intro h
    unfold Reader.runOn at h
    split at h
    · next c hread =>
      cases h
      obtain ⟨b, ⟨position, rest⟩, hfront, hend⟩ := state_bind_eq_ok.mp hread
      by_cases hrest : rest = []
      · subst hrest
        obtain rfl : b = a := (EStateM.Result.ok.inj hend).1
        exact ⟨_, hfront, rfl⟩
      · rw [Reader.ending_of_ne position hrest] at hend
        cases hend
    · cases h
  · rintro ⟨⟨position, rest⟩, hread, rfl⟩
    have hwhole : (r >>= Reader.ending place) (Cursor.start data) = .ok a ⟨position, []⟩ :=
      state_bind_eq_ok.mpr ⟨a, _, hread, rfl⟩
    simp only [Reader.runOn, hwhole]

theorem Finds.runOn_ending {form : α → Bytes → Prop} (hr : Finds r form)
    (h : (r >>= Reader.ending place).runOn data = .ok a) : form a data := by
  obtain ⟨c, hread, hrest⟩ := Reader.runOn_ending_eq_ok.mp h
  obtain ⟨bs, hdata, hform⟩ := hr _ _ _ hread
  rw [hrest, List.append_nil] at hdata
  rwa [show data = bs from hdata]

end Ending

/-! ## §2 Delimited readers -/

section Delimited

variable [OfReadFault ε]

/-- The reader comes to the end of the data, and asks for no more than `missing` bytes. -/
def Lacks (r : Reader ε α) (c : Cursor) (missing : Nat) : Prop :=
  ∃ position wanted c', r c = .error (ofReadFault (.unexpectedEnd position wanted)) c' ∧
    0 < wanted ∧ wanted ≤ missing

/-- The reader takes the bytes whatever follows them, and lacks those that are cut off. -/
structure Delimits (r : Reader ε α) (a : α) (bs : Bytes) : Prop where
  reads : Reads r bs a
  cut : ∀ front behind, bs = front ++ behind → behind ≠ [] →
    ∀ position, Lacks r ⟨position, front⟩ behind.length

/-- All that the reader takes is delimited. -/
def Delimited (r : Reader ε α) : Prop := Finds r (Delimits r)

namespace Lacks

theorem mono {r : Reader ε α} {c : Cursor} {n m : Nat} (h : Lacks r c n) (hle : n ≤ m) :
    Lacks r c m := by
  obtain ⟨position, wanted, c', hread, hpos, hwanted⟩ := h
  exact ⟨position, wanted, c', hread, hpos, Nat.le_trans hwanted hle⟩

theorem bind {r : Reader ε α} {c : Cursor} {n : Nat} (h : Lacks r c n) (f : α → Reader ε β) :
    Lacks (r >>= f) c n := by
  obtain ⟨position, wanted, c', hread, hwanted⟩ := h
  exact ⟨position, wanted, c', state_bind_eq_error.mpr (.inl hread), hwanted⟩

theorem behind {r : Reader ε α} {f : α → Reader ε β} {a : α} {bs rest : Bytes} {position n : Nat}
    (h : Lacks (f a) ⟨position + bs.length, rest⟩ n) (hr : Reads r bs a) :
    Lacks (r >>= f) ⟨position, bs ++ rest⟩ n := by
  obtain ⟨place, wanted, c', hread, hwanted⟩ := h
  exact ⟨place, wanted, c', (hr.bind_apply position rest).trans hread, hwanted⟩

end Lacks

theorem Delimits.bind {r : Reader ε α} {f : α → Reader ε β} {a : α} {b : β} {bs cs : Bytes}
    (hr : Delimits r a bs) (hf : Delimits (f a) b cs) : Delimits (r >>= f) b (bs ++ cs) := by
  refine ⟨hr.reads.bind hf.reads, fun front behind hcut hne position => ?_⟩
  rcases List.append_eq_append_iff.mp hcut with ⟨front', rfl, hcs⟩ | ⟨behind', hbs, rfl⟩
  · exact (hf.cut front' behind hcs hne _).behind hr.reads
  · by_cases hbehind : behind' = []
    · subst hbehind
      rw [List.append_nil] at hbs
      have hlacks := hf.cut [] cs rfl hne (position + bs.length)
      have hfirst := hlacks.behind hr.reads
      rwa [List.append_nil, hbs] at hfirst
    · have hlacks := hr.cut front behind' hbs hbehind position
      refine (hlacks.mono ?_).bind f
      rw [List.length_append]
      exact Nat.le_add_right _ _

namespace Delimited

theorem pure (a : α) : Delimited (Pure.pure a : Reader ε α) := by
  refine Finds.pure ⟨.pure a, fun front behind hcut hne => ?_⟩
  exact absurd (List.append_eq_nil_iff.mp hcut.symm).2 hne

theorem throw (e : ε) : Delimited (MonadExcept.throw e : Reader ε α) := Finds.throw e

theorem bind {r : Reader ε α} {f : α → Reader ε β} (hr : Delimited r) (hf : ∀ a, Delimited (f a)) :
    Delimited (r >>= f) := by
  refine Finds.bind hr fun a bs hbs c b c' hread => ?_
  obtain ⟨cs, hrest, hcs⟩ := hf a c b c' hread
  exact ⟨cs, hrest, hbs.bind hcs⟩

theorem map {r : Reader ε α} (f : α → β) (hr : Delimited r) :
    Delimited (r >>= fun a => Pure.pure (f a)) :=
  bind hr fun a => pure (f a)

theorem ofExcept {δ : Type} {inject : δ → ε} (x : Except δ α) :
    Delimited (Reader.ofExcept inject x) := by
  cases x with
  | error e => exact throw (inject e)
  | ok a => exact pure a

theorem bytes (n : Nat) : Delimited (Reader.bytes n : Reader ε Bytes) := by
  intro c a c' hread
  obtain ⟨bs, hrest, rfl, rfl⟩ := Finds.bytes n c a c' hread
  refine ⟨bs, hrest, .bytes bs, fun front behind hcut hne position => ?_⟩
  have hlength := congrArg List.length hcut
  have hpos := List.length_pos_of_ne_nil hne
  rw [List.length_append] at hlength
  have htake : front.take bs.length = front := List.take_of_length_le (by omega)
  refine ⟨position, bs.length - front.length, ⟨position, front⟩, ?_, by omega, by omega⟩
  simp only [Reader.bytes, htake]
  rw [if_neg (by omega)]

theorem u8 : Delimited (Reader.u8 : Reader ε UInt8) := map _ (bytes 1)

theorem u16 : Delimited (Reader.u16 : Reader ε UInt16) := map _ (bytes 2)

theorem u32 : Delimited (Reader.u32 : Reader ε UInt32) := map _ (bytes 4)

theorem u64 : Delimited (Reader.u64 : Reader ε UInt64) := map _ (bytes 8)

theorem i32 : Delimited (Reader.i32 : Reader ε Int32) := map _ u32

theorem i64 : Delimited (Reader.i64 : Reader ε Int64) := map _ u64

theorem prefixed16 : Delimited (Reader.prefixed16 : Reader ε Bytes) := bind u16 fun _ => bytes _

theorem prefixed32 : Delimited (Reader.prefixed32 : Reader ε Bytes) := bind u32 fun _ => bytes _

theorem timesAfter {item : Reader ε α} (hitem : Delimited item) (n : Nat) :
    ∀ done, Delimited (Reader.timesAfter item n done) := by
  induction n with
  | zero => exact fun done => pure done.reverse
  | succ n ih => exact fun done => bind hitem fun a => ih (a :: done)

theorem counted {item : Reader ε α} (hitem : Delimited item) : Delimited (Reader.counted item) :=
  bind u16 fun n => timesAfter hitem n.toNat []

end Delimited

end Delimited

/-- **Data that is read to its end has no other end.**  More data is refused with the number of bytes
that are left, and any part from the front for want of the rest. -/
theorem Delimited.runOn_ending {place : Section} {r : Reader FormatError α} (hr : Delimited r)
    {data : Bytes} {a : α} (h : (r >>= Reader.ending place).runOn data = .ok a) :
    (∀ more, more ≠ [] → (r >>= Reader.ending place).runOn (data ++ more) =
      .error (.trailingBytes place more.length)) ∧
    ∀ front behind, data = front ++ behind → behind ≠ [] → ∃ position wanted,
      (r >>= Reader.ending place).runOn front = .error (.read (.unexpectedEnd position wanted)) ∧
      0 < wanted ∧ wanted ≤ behind.length := by
  have hdata : Delimits r a data := Finds.runOn_ending hr h
  refine ⟨fun more hmore => hdata.reads.runOn_ending_append hmore,
    fun front behind hcut hne => ?_⟩
  obtain ⟨position, wanted, c, hread, hwanted⟩ :=
    (hdata.cut front behind hcut hne 0).bind (Reader.ending place)
  refine ⟨position, wanted, ?_, hwanted⟩
  simp only [Reader.runOn, Cursor.start, hread]
  rfl

end Reshape
