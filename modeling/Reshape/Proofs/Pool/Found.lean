import Reshape.Proofs.Bytes.Found
import Reshape.Proofs.Pool.Slots
import Reshape.Proofs.Text.Groups

/-!
# What a stored pool looks like

Every constant but a text has one stored form.  A text has a payload, which may be longer than the
one it is stored with again.  So of the data that a pool was read from, only the payloads of its
texts and the number of its slots can change when the pool is stored again.
-/

namespace Reshape

/-! ## §1 Constants -/

/-- The bytes of which a constant can be read, and the payloads of texts among them. -/
inductive Constant.StoredAs : Constant → Bytes → List Bytes → Prop
  | text {payload : Bytes} {text : String} (short : payload.length < 65536)
      (h : ModifiedUtf8.decode payload = .ok text) :
      StoredAs (.utf8 text) (1 :: (BigEndian.u16 (UInt16.ofNat payload.length) ++ payload)) [payload]
  | other {c : Constant} {bs : Bytes} (used : c ≠ .unused) (other : ∀ text, c ≠ .utf8 text)
      (h : c.encode = .ok bs) : StoredAs c bs []

namespace Constant

/-- Two indices in a row, as most constants that refer to others have them. -/
theorem finds_pair {make : UInt16 → UInt16 → Constant} {form : Constant → Bytes → Prop}
    (h : ∀ a b, form (make a b) (BigEndian.u16 a ++ BigEndian.u16 b)) :
    Finds (do return make (← Reader.u16) (← Reader.u16) : Reader FormatError Constant) form := by
  refine .bind .u16 fun a bs ha => .last .u16 fun b cs hb => ?_
  rw [ha, hb]
  exact h a b

/-- A word or a single index. -/
theorem finds_word {α : Type} {make : α → Constant} {word : α → Bytes} {r : Reader FormatError α}
    {form : Constant → Bytes → Prop} (hr : Finds r fun a bs => bs = word a)
    (h : ∀ a, form (make a) (word a)) :
    Finds (do return make (← r) : Reader FormatError Constant) form :=
  .last hr fun a _ ha => ha ▸ h a

theorem finds_content (index : Nat) (tag : UInt8) :
    Finds (content index tag) fun c bs => ∃ texts, c.StoredAs (tag :: bs) texts := by
  have htag {n : Nat} (h : tag.toNat = n) : tag = UInt8.ofNat n := by
    rw [← h, UInt8.ofNat_toNat]
  unfold content
  split
  case h_1 h =>
      rw [htag h]
      refine .bind .prefixed16 fun payload bs hpayload => ?_
      have hdecoded : Finds (Reader.ofExcept FormatError.read (ModifiedUtf8.decode payload))
          fun text bs => bs = [] ∧ ModifiedUtf8.decode payload = .ok text :=
        .ofExcept fun text htext => ⟨rfl, htext⟩
      refine .bind hdecoded fun text bs' htext => .pure ?_
      obtain ⟨hshort, rfl⟩ := hpayload
      obtain ⟨rfl, htext⟩ := htext
      rw [List.append_nil, List.append_nil]
      exact ⟨[payload], .text hshort htext⟩
  case h_2 h => rw [htag h]; exact finds_word .i32 fun a => ⟨[], .other nofun nofun rfl⟩
  case h_3 h => rw [htag h]; exact finds_word .u32 fun a => ⟨[], .other nofun nofun rfl⟩
  case h_4 h => rw [htag h]; exact finds_word .i64 fun a => ⟨[], .other nofun nofun rfl⟩
  case h_5 h => rw [htag h]; exact finds_word .u64 fun a => ⟨[], .other nofun nofun rfl⟩
  case h_12 h =>
      rw [htag h]
      refine .bind .u8 fun kind bs hkind => .last .u16 fun reference bs' hreference => ?_
      rw [hkind, hreference]
      exact ⟨[], .other nofun nofun rfl⟩
  case h_18 => exact .throw _
  case h_8 h | h_9 h | h_10 h | h_11 h | h_14 h | h_15 h =>
      rw [htag h]; exact finds_pair fun a b => ⟨[], .other nofun nofun rfl⟩
  case h_6 h | h_7 h | h_13 h | h_16 h | h_17 h =>
      rw [htag h]; exact finds_word .u16 fun a => ⟨[], .other nofun nofun rfl⟩

/-- **What a constant was read from.** -/
theorem finds_read (index : Nat) :
    Finds (Constant.read index) fun c bs => ∃ texts, c.StoredAs bs texts :=
  .bind .u8 fun tag _ htag => htag ▸ finds_content index tag

end Constant

namespace Pool

/-! ## §2 Finding the texts -/

/-- How many bytes of content stand behind a tag. -/
def contentSize (tag : UInt8) (behind : Bytes) : Nat :=
  match tag.toNat with
  | 1 => 2 + BigEndian.value (behind.take 2)
  | 3 | 4 => 4
  | 5 | 6 => 8
  | 7 | 8 | 16 | 19 | 20 => 2
  | 15 => 3
  | _ => 4

/-- The payloads of the texts among the constants that fill the `missing` slots. -/
def textPayloads (missing : Nat) (data : Bytes) : List Bytes :=
  match missing, data with
  | 0, _ => []
  | _, [] => []
  | missing + 1, tag :: behind =>
    let size := contentSize tag behind
    if tag = 1 then (behind.take size).drop 2 :: textPayloads missing (behind.drop size)
    else if tag = 5 ∨ tag = 6 then textPayloads (missing - 1) (behind.drop size)
    else textPayloads missing (behind.drop size)
  termination_by missing

section Walk

variable {missing : Nat} {tag : UInt8} {content rest : Bytes}

theorem textPayloads_wide (htag : tag = 5 ∨ tag = 6)
    (hsize : contentSize tag (content ++ rest) = content.length) :
    textPayloads (missing + 1) (tag :: content ++ rest) = textPayloads (missing - 1) rest := by
  have hone : tag ≠ 1 := by rcases htag with rfl | rfl <;> decide
  rw [List.cons_append, textPayloads]
  simp only [if_neg hone, if_pos htag, hsize, List.drop_left]

theorem textPayloads_narrow (hone : tag ≠ 1) (htag : ¬ (tag = 5 ∨ tag = 6))
    (hsize : contentSize tag (content ++ rest) = content.length) :
    textPayloads (missing + 1) (tag :: content ++ rest) = textPayloads missing rest := by
  rw [List.cons_append, textPayloads]
  simp only [if_neg hone, if_neg htag, hsize, List.drop_left]

theorem textPayloads_text {payload : Bytes} (h : payload.length < 65536) :
    textPayloads (missing + 1)
        (1 :: (BigEndian.u16 (UInt16.ofNat payload.length) ++ payload) ++ rest) =
      payload :: textPayloads missing rest := by
  generalize hcount : BigEndian.u16 (UInt16.ofNat payload.length) = count
  have htwo : count.length = 2 := hcount ▸ BigEndian.length_u16 _
  have hsize : contentSize 1 (count ++ payload ++ rest) = (count ++ payload).length := by
    have hvalue : BigEndian.value count = payload.length := by
      rw [← hcount, BigEndian.value_u16, UInt16.toNat_ofNat_of_lt' h]
    show 2 + BigEndian.value ((count ++ payload ++ rest).take 2) = _
    rw [List.append_assoc, ← htwo, List.take_left, hvalue, List.length_append]
  rw [List.cons_append, textPayloads]
  simp only [if_pos, hsize, List.take_left, List.drop_left]
  rw [← htwo, List.drop_left]

/-- A stored constant fills its slots, and the search goes on behind it. -/
theorem textPayloads_stored (missing : Nat) (rest : Bytes) {c : Constant} {bs : Bytes} {texts : List Bytes}
    (h : c.StoredAs bs texts) :
    textPayloads (missing + 1) (bs ++ rest) =
      texts ++ textPayloads (missing + 1 - c.slots) rest := by
  cases h with
  | text short h => exact textPayloads_text short
  | other used other h =>
      cases c with
      | unused => exact absurd rfl used
      | utf8 text => exact absurd rfl (other text)
      | long value | double value =>
          cases h
          exact textPayloads_wide (by decide) rfl
      | _ =>
          cases h
          exact textPayloads_narrow (by decide) (by decide) rfl

end Walk

/-! ## §3 Storing again -/

/-- The new bytes are the old ones if the condition holds, and fewer otherwise. -/
def Shortened (exact : Prop) (old new : Bytes) : Prop :=
  (exact ∧ new = old) ∨ (¬ exact ∧ new.length < old.length)

namespace Shortened

variable {P Q : Prop} {a a' b b' : Bytes}

theorem refl (hP : P) (a : Bytes) : Shortened P a a := .inl ⟨hP, rfl⟩

theorem length_le (h : Shortened P a a') : a'.length ≤ a.length := by
  rcases h with ⟨-, rfl⟩ | ⟨-, hlt⟩
  · exact Nat.le_refl _
  · exact Nat.le_of_lt hlt

theorem append (ha : Shortened P a a') (hb : Shortened Q b b') :
    Shortened (P ∧ Q) (a ++ b) (a' ++ b') := by
  rcases ha with ⟨hP, rfl⟩ | ⟨hP, ha⟩
  · rcases hb with ⟨hQ, rfl⟩ | ⟨hQ, hb⟩
    · exact .inl ⟨⟨hP, hQ⟩, rfl⟩
    · refine .inr ⟨fun h => hQ h.2, ?_⟩
      rw [List.length_append, List.length_append]
      omega
  · refine .inr ⟨fun h => hP h.1, ?_⟩
    have hle := hb.length_le
    rw [List.length_append, List.length_append]
    omega

theorem eq_iff (h : Shortened P a a') : a' = a ↔ P := by
  rcases h with ⟨hP, rfl⟩ | ⟨hP, hlt⟩
  · exact iff_of_true rfl hP
  · refine iff_of_false ?_ hP
    rintro rfl
    exact Nat.lt_irrefl _ hlt

theorem length_lt (h : Shortened P a a') (hP : ¬ P) : a'.length < a.length :=
  h.elim (fun h => absurd h.1 hP) And.right

end Shortened

/-- A constant that was read can be stored, and only a text takes fewer bytes. -/
theorem shortened_constant {c : Constant} {bs : Bytes} {texts : List Bytes}
    (h : c.StoredAs bs texts) : ∃ new, c.encode = .ok new ∧
      Shortened (∀ payload ∈ texts, ModifiedUtf8.Shortest payload) bs new := by
  cases h with
  | other used other h => exact ⟨bs, h, .refl (by simp) bs⟩
  | @text payload text short h =>
      have hle := ModifiedUtf8.length_encode_le h
      refine ⟨1 :: (BigEndian.u16 (UInt16.ofNat (ModifiedUtf8.encode text).length) ++
        ModifiedUtf8.encode text), ?_, ?_⟩
      · simp only [Constant.encode, Table.count, if_pos (Nat.lt_of_le_of_lt hle short)]
      · rw [List.forall_mem_singleton, ModifiedUtf8.shortest_iff h]
        by_cases hexact : payload = ModifiedUtf8.encode text
        · rw [← hexact]
          exact .refl rfl _
        · refine .inr ⟨hexact, ?_⟩
          have hlt : (ModifiedUtf8.encode text).length < payload.length :=
            Nat.lt_of_not_le fun hlength => hexact (ModifiedUtf8.eq_encode_of_length_le h hlength)
          simp only [List.length_cons, List.length_append, BigEndian.length_u16]
          omega

/-- Storing the slots that `q` has behind those of `p` shortens `bs` where a text in it is not
shortest. -/
def Rewrites (count : Nat) (p q : Pool) (bs : Bytes) : Prop :=
  ∃ new entries, q.slots.toList = p.slots.toList ++ new ∧ new.mapM Constant.encode = .ok entries ∧
    ∀ rest, Shortened (∀ payload ∈ textPayloads (count - p.size) (bs ++ rest),
      ModifiedUtf8.Shortest payload) bs entries.flatten

theorem encode_spread {c : Constant} {bs : Bytes} (h : c.encode = .ok bs) :
    ∃ entries, (spread c).mapM Constant.encode = .ok entries ∧ entries.flatten = bs := by
  unfold spread
  by_cases hw : c.isWide = true
  · rw [if_pos hw]
    refine ⟨[bs, []], ?_, by simp⟩
    exact except_mapM_eq_ok.mpr (.cons h (.cons rfl .nil))
  · rw [if_neg hw]
    refine ⟨[bs], ?_, by simp⟩
    exact except_mapM_eq_ok.mpr (.cons h .nil)

theorem finds_readUpTo (count : Nat) (p : Pool) :
    Finds (readUpTo count p) fun q bs => Rewrites count p q bs := by
  fun_induction readUpTo count p with
  | case1 p hlt ih =>
      refine .bind (Constant.finds_read p.size) fun c bs hc => ?_
      by_cases hindex : (p.push c).size < 65536
      case neg =>
        rw [if_neg hindex]
        exact .throw _
      rw [if_pos hindex]
      intro s q t hread
      obtain ⟨texts, hstored⟩ := hc
      obtain ⟨bs', hrest, new, entries, hslots, hentries, hshort⟩ := ih c s q t hread
      obtain ⟨own, hown, hshortened⟩ := shortened_constant hstored
      obtain ⟨spreaded, hspread, rfl⟩ := encode_spread hown
      refine ⟨bs', hrest, spread c ++ new, spreaded ++ entries, ?_, ?_, fun rest => ?_⟩
      · rw [hslots, toList_push, List.append_assoc]
      · rw [except_mapM_eq_ok] at hspread hentries ⊢
        exact List.rel_append hspread hentries
      · have htexts := textPayloads_stored (count - p.size - 1) (bs' ++ rest) hstored
        rw [Nat.sub_add_cancel (by omega), Nat.sub_sub count, ← size_push,
          ← List.append_assoc] at htexts
        rw [htexts, List.flatten_append]
        have happend := hshortened.append (hshort rest)
        rwa [← List.forall_mem_append] at happend
  | case2 p hge =>
      refine .pure ⟨[], [], by simp, rfl, fun rest => ?_⟩
      rw [Nat.sub_eq_zero_of_le (Nat.le_of_not_lt hge), textPayloads]
      exact .refl (by simp) []

/-- A pool is read up to the declared number of slots; only a wide constant at the end of them gets
beyond. -/
theorem size_of_readUpTo {count : Nat} {p q : Pool} {s t : Cursor} (hp : p.size ≤ count)
    (h : readUpTo count p s = .ok q t) :
    q.size = count ∨
      q.size = count + 1 ∧ ∃ c, q.slots.toList[count - 1]? = some c ∧ c.isWide = true := by
  induction p using readUpTo.induct count generalizing s with
  | case1 p hlt ih =>
      obtain ⟨c, u, hc, -, h⟩ := readUpTo_step hlt h
      by_cases hsize : (p.push c).size ≤ count
      · exact ih c hsize h
      · rw [readUpTo, dif_neg (by omega)] at h
        obtain ⟨rfl, -⟩ := state_pure_eq_ok.mp h
        have hw : c.isWide = true := by
          rw [size_push] at hsize
          unfold Constant.slots at hsize
          split at hsize
          · assumption
          · omega
        have hlast : count - 1 = p.size := by
          rw [size_push, Constant.slots, if_pos hw] at hsize
          omega
        refine .inr ⟨by rw [size_push, Constant.slots, if_pos hw]; omega, c, ?_, hw⟩
        rw [toList_push, hlast, List.getElem?_append_right (by simp [size])]
        simp [spread, hw, size]
  | case2 p hge =>
      rw [readUpTo, dif_neg hge] at h
      obtain ⟨rfl, -⟩ := state_pure_eq_ok.mp h
      exact .inl (by omega)

/-- What the data of a pool says of it: how many slots it declares, and whether these are all. -/
structure Found (p : Pool) (count : UInt16) (body : Bytes) : Prop where
  rewrites : Rewrites count.toNat empty p body
  exact_iff : p.size = count.toNat ↔
    count ≠ 0 ∧ (p.slot (UInt16.ofNat (count.toNat - 1))).isWide = false
  storable : (p.slot 65534).isWide = false → p.size ≤ maxSlots

/-- In a pool that was read, what stands in the last slot is not wide. -/
theorem WellFormed.narrow_last {p : Pool} (hp : p.WellFormed) {i : Nat} {c : Constant}
    (hc : p.slots.toList[i]? = some c) (hsize : p.size = i + 1) : c.isWide = false := by
  cases hw : c.isWide with
  | false => rfl
  | true =>
      rw [Array.getElem?_toList] at hc
      have hbehind := (regular_iff.mpr hp).behind_wide i c hc hw
      rw [Array.getElem?_eq_none (Nat.le_of_eq hsize)] at hbehind
      cases hbehind

theorem slot_of_getElem? {p : Pool} {i : Nat} {c : Constant} (hi : i < 65536)
    (hc : p.slots.toList[i]? = some c) : p.slot (UInt16.ofNat i) = c := by
  rw [slot_eq, UInt16.toNat_ofNat_of_lt' hi, hc, Option.getD_some]

theorem found_of_read {p : Pool} {s t : Cursor} (h : Pool.read s = .ok p t) :
    ∃ count body, s.rest = BigEndian.u16 count ++ body ++ t.rest ∧ p.Found count body := by
  have hp := (wellFormed_of_read h).1
  obtain ⟨count, u, hcount, hfill⟩ := state_bind_eq_ok.mp h
  obtain ⟨bs, hrest, rfl⟩ := Finds.u16 s count u hcount
  obtain ⟨body, hbody, hrewrites⟩ := finds_readUpTo count.toNat empty u p t hfill
  have hlt := count.toNat_lt
  refine ⟨count, body, by rw [hrest, hbody, List.append_assoc], ?_⟩
  by_cases hzero : count.toNat = 0
  · rw [hzero, readUpTo, dif_neg (Nat.not_lt_zero _)] at hfill
    obtain ⟨rfl, -⟩ := state_pure_eq_ok.mp hfill
    have hcount : count = 0 := UInt16.toNat_inj.mp hzero
    refine ⟨hrewrites, iff_of_false ?_ fun h => h.1 hcount, fun _ => by decide⟩
    rw [hzero]
    exact Nat.one_ne_zero
  · have hne : count ≠ 0 := fun h => hzero (congrArg UInt16.toNat h)
    rcases size_of_readUpTo (Nat.pos_of_ne_zero hzero) hfill with hsize | ⟨hsize, c, hc, hw⟩
    · obtain ⟨c, hc⟩ : ∃ c, p.slots.toList[count.toNat - 1]? = some c := by
        refine ⟨_, List.getElem?_eq_getElem ?_⟩
        rw [Array.length_toList]
        show count.toNat - 1 < p.size
        omega
      refine ⟨hrewrites, iff_of_true hsize ⟨hne, ?_⟩, fun _ => ?_⟩
      · rw [slot_of_getElem? (by omega) hc]
        exact hp.narrow_last hc (by omega)
      · rw [hsize, maxSlots]
        omega
    · refine ⟨hrewrites, iff_of_false (by omega) fun h => ?_, fun hlast => ?_⟩
      · rw [slot_of_getElem? (by omega) hc, hw] at h
        cases h.2
      · rw [hsize, maxSlots]
        by_contra hmost
        rw [show count.toNat - 1 = 65534 by omega] at hc
        have hslot : p.slot 65534 = c := slot_of_getElem? (by decide) hc
        rw [hslot, hw] at hlast
        cases hlast

/-- A pool that is not too large is stored with its number of slots, the constants as they were but
for texts that are not shortest. -/
theorem Found.encode {p : Pool} {count : UInt16} {body : Bytes} (h : p.Found count body)
    (hsize : p.size ≤ maxSlots) : ∃ new,
      p.encode = .ok (BigEndian.u16 (UInt16.ofNat p.size) ++ new) ∧
      ∀ rest, Shortened (∀ payload ∈ textPayloads (count.toNat - 1) (body ++ rest),
        ModifiedUtf8.Shortest payload) body new := by
  obtain ⟨new, entries, hslots, hentries, hshort⟩ := h.rewrites
  refine ⟨entries.flatten, ?_, hshort⟩
  have hall : p.slots.toList.mapM Constant.encode = .ok ([] :: entries) := by
    rw [hslots]
    exact except_mapM_eq_ok.mpr (.cons rfl (except_mapM_eq_ok.mp hentries))
  rw [Pool.encode, if_pos hsize, hall]
  rfl

end Pool

end Reshape
