import Reshape.ClassFile.Member
import Reshape.Proofs.Attribute.Annotations
import Reshape.Proofs.ClassFile.Stored

/-!
# What setting an attribute replaces

An attribute is looked up by the text of its name and replaced by the index of the name.  A pool
that was read may hold one text in several slots, and an attribute may be named by any of them; a
text is interned to the first.  So what was set is found again exactly if the first attribute of the
name has that index, or there is none, or its content was the same before.  This decides for bodies
and for annotations, too.
-/

namespace Reshape

/-! ## §1 The index of a text -/

namespace Attribute

variable {p q pool : Pool} {name : String} {a b : Attribute} {attributes : List Attribute}

theorem isNamed_iff : a.isNamed pool name = true ↔ pool.utf8 a.name = .ok name := by
  unfold isNamed
  split
  · next text htext => rw [htext, beq_iff_eq, Except.ok.injEq]
  · next e he => simp [he]

theorem isNamed_congr (h : a.name = b.name) : a.isNamed pool name = b.isNamed pool name := by
  unfold isNamed
  rw [h]

/-- The first attribute of a name is the first one ever after. -/
theorem find?_isNamed_grown (hgrowth : Pool.Growth p q) (hnamed : ∀ a ∈ attributes, a.Named p) :
    attributes.find? (isNamed q name) = attributes.find? (isNamed p name) := by
  rw [← List.head?_filter, ← List.head?_filter,
    List.filter_congr fun a ha => isNamed_grown hgrowth (hnamed a ha)]

/-- Where all attributes can be named, look-up finds the first of the name. -/
theorem find?_eq (hnamed : ∀ a ∈ attributes, a.Named pool) :
    find? pool name attributes = .ok (attributes.find? (isNamed pool name)) := by
  suffices hall : ∀ position, (locate? pool name position attributes).map (·.map Prod.snd) =
      .ok (attributes.find? (isNamed pool name)) from hall 0
  induction attributes with
  | nil => exact fun _ => rfl
  | cons a attributes ih =>
      intro position
      obtain ⟨⟨text, htext⟩, hrest⟩ := List.forall_mem_cons.mp hnamed
      unfold locate?
      rw [htext]
      by_cases hname : text = name
      · have hfirst : a.isNamed pool name = true := isNamed_iff.mpr (hname ▸ htext)
        dsimp only
        rw [if_pos hname, List.find?_cons_of_pos hfirst]
        rfl
      · have hother : ¬ a.isNamed pool name = true := by
          rw [isNamed_iff, htext, Except.ok.injEq]
          exact hname
        dsimp only
        rw [if_neg hname, List.find?_cons_of_neg hother]
        exact ih hrest (position + 1)

/-! ## §2 Putting an attribute -/

theorem put_cons (b a : Attribute) (rest : List Attribute) :
    put b (a :: rest) = if a.name = b.name then b :: rest else a :: put b rest := by
  unfold put
  rw [List.findIdx?_cons]
  by_cases h : a.name = b.name
  · simp [h]
  · rw [if_neg h, if_neg (by simpa using h)]
    cases rest.findIdx? (·.name == b.name) with
    | none => rfl
    | some position => rfl

theorem mem_put (h : a ∈ put b attributes) : a = b ∨ a ∈ attributes := by
  induction attributes with
  | nil => exact .inl (List.mem_singleton.mp h)
  | cons x rest ih =>
      rw [put_cons] at h
      split at h
      · exact (List.mem_cons.mp h).imp_right (List.mem_cons_of_mem x)
      · rcases List.mem_cons.mp h with rfl | h
        · exact .inr List.mem_cons_self
        · exact (ih h).imp_right (List.mem_cons_of_mem x)

section Put

variable {passes : Attribute → Bool}
  (hcongr : ∀ a b : Attribute, a.name = b.name → passes a = passes b)
include hcongr

/-- What the new attribute is none of stays, in its order. -/
theorem filter_put (hb : passes b = false) :
    (put b attributes).filter passes = attributes.filter passes := by
  induction attributes with
  | nil => simp [put, hb]
  | cons a rest ih =>
      rw [put_cons]
      by_cases hname : a.name = b.name
      · have ha : passes a = false := (hcongr a b hname).trans hb
        rw [if_pos hname, List.filter_cons_of_neg (by simp [hb]),
          List.filter_cons_of_neg (by simp [ha])]
      · rw [if_neg hname, List.filter_cons, List.filter_cons, ih]

/-- The new attribute is the first of its kind unless one with another index is before it. -/
theorem find?_put (hb : passes b = true) : (put b attributes).find? passes =
    some (match attributes.find? passes with
      | none => b
      | some first => if first.name = b.name then b else first) := by
  induction attributes with
  | nil => simp [put, hb]
  | cons a rest ih =>
      rw [put_cons]
      by_cases hname : a.name = b.name
      · have ha : passes a = true := (hcongr a b hname).trans hb
        rw [if_pos hname, List.find?_cons_of_pos hb, List.find?_cons_of_pos ha]
        simp only [hname, if_true]
      · rw [if_neg hname]
        by_cases ha : passes a = true
        · rw [List.find?_cons_of_pos ha, List.find?_cons_of_pos ha]
          simp only [hname, if_false]
        · rw [List.find?_cons_of_neg ha, List.find?_cons_of_neg ha, ih]

/-- There is one more of its kind unless one has its index. -/
theorem countP_put (hb : passes b = true) : (put b attributes).countP passes =
    if ∃ a ∈ attributes, a.name = b.name then attributes.countP passes
    else attributes.countP passes + 1 := by
  induction attributes with
  | nil => simp [put, hb]
  | cons a rest ih =>
      rw [put_cons]
      by_cases hname : a.name = b.name
      · have ha : passes a = true := (hcongr a b hname).trans hb
        rw [if_pos hname, if_pos ⟨a, List.mem_cons_self, hname⟩, List.countP_cons_of_pos hb,
          List.countP_cons_of_pos ha]
      · have hexists : (∃ x ∈ a :: rest, x.name = b.name) ↔ ∃ x ∈ rest, x.name = b.name := by
          rw [List.exists_mem_cons_iff]
          exact or_iff_right hname
        rw [if_neg hname, List.countP_cons, ih, List.countP_cons]
        simp only [hexists]
        split <;> omega

end Put

/-! ## §3 Setting an attribute -/

/-- The new attribute is put with the index to which its name is interned. -/
theorem set_ok {payload : Bytes} {attributes' : List Attribute} (hp : p.Addressable)
    (h : set name payload attributes p = .ok attributes' q) :
    ∃ i, q.find? (.utf8 name) = some i ∧ isNamed q name ⟨i, payload⟩ = true ∧
      attributes' = put ⟨i, payload⟩ attributes := by
  obtain ⟨i, p₁, hadd, h⟩ := state_bind_eq_ok.mp h
  obtain ⟨rfl, rfl⟩ := state_pure_eq_ok.mp h
  exact ⟨i, Pool.find?_of_intern hadd, isNamed_iff.mpr (Pool.utf8_of_addUtf8 hp hadd), rfl⟩

/-- The first attribute of the name, if there is one, has the index or is as wanted. -/
def FirstOr (pool : Pool) (name : String) (i : UInt16) (wanted : Attribute → Prop)
    (attributes : List Attribute) : Prop :=
  ∀ first, attributes.find? (isNamed pool name) = some first → first.name = i ∨ wanted first

theorem firstOr_grown {i : UInt16} {wanted : Attribute → Prop} (hgrowth : Pool.Growth p q)
    (hnamed : ∀ a ∈ attributes, a.Named p) :
    FirstOr q name i wanted attributes ↔ FirstOr p name i wanted attributes := by
  unfold FirstOr
  rw [find?_isNamed_grown hgrowth hnamed]

/-- What setting an attribute is to do. -/
structure Replaces (p q : Pool) (name : String) (payload : Bytes)
    (attributes attributes' : List Attribute) : Prop where
  found : ∃ a, find? q name attributes' = .ok (some a) ∧ a.payload = payload
  others : attributes'.filter (!isNamed q name ·) = attributes.filter (!isNamed p name ·)
  count : attributes'.countP (isNamed q name) = max 1 (attributes.countP (isNamed p name))

section Set

variable {payload : Bytes} {attributes' : List Attribute} (hp : p.Addressable)
  (hnamed : ∀ a ∈ attributes, a.Named p)
  (h : set name payload attributes p = .ok attributes' q)
include hp hnamed h

theorem filter_of_set :
    attributes'.filter (!isNamed q name ·) = attributes.filter (!isNamed p name ·) := by
  obtain ⟨i, -, hi, rfl⟩ := set_ok hp h
  rw [filter_put (fun a b hab => congrArg _ (isNamed_congr hab)) (by simp [hi])]
  exact List.filter_congr fun a ha => by
    rw [isNamed_grown ((grows_set _ _ _).growth h) (hnamed a ha)]

/-- What is found after setting is as wanted exactly if the first attribute of the name had the
index of the new one or was as wanted before. -/
theorem found_iff_of_set {i : UInt16} (hindex : q.find? (.utf8 name) = some i)
    {wanted : Attribute → Prop} (hwanted : wanted ⟨i, payload⟩) :
    (∃ a, find? q name attributes' = .ok (some a) ∧ wanted a) ↔
      FirstOr p name i wanted attributes := by
  have hgrowth := (grows_set _ _ _).growth h
  obtain ⟨j, hj, hi, rfl⟩ := set_ok hp h
  cases hindex.symm.trans hj
  have hnew : ∀ a ∈ put ⟨i, payload⟩ attributes, a.Named q := by
    intro a ha
    rcases mem_put ha with rfl | ha
    · exact ⟨name, isNamed_iff.mp hi⟩
    · exact (hnamed a ha).grown hgrowth
  rw [find?_eq hnew, find?_put (fun _ _ => isNamed_congr) hi, find?_isNamed_grown hgrowth hnamed]
  unfold FirstOr
  cases hfirst : attributes.find? (isNamed p name) with
  | none => simp [hwanted]
  | some first =>
      by_cases hindex : first.name = i
      · simp [hindex, hwanted]
      · simp [hindex]

/-- The number of attributes of the name is as before, or one, unless those that had it had other
indices. -/
theorem countP_iff_of_set {i : UInt16} (hindex : q.find? (.utf8 name) = some i) :
    attributes'.countP (isNamed q name) = max 1 (attributes.countP (isNamed p name)) ↔
      ((∃ a ∈ attributes, a.isNamed p name = true) → ∃ a ∈ attributes, a.name = i) := by
  have hgrowth := (grows_set _ _ _).growth h
  obtain ⟨j, hj, hi, rfl⟩ := set_ok hp h
  cases hindex.symm.trans hj
  have hsame : attributes.countP (isNamed q name) = attributes.countP (isNamed p name) :=
    List.countP_congr fun a ha => by rw [isNamed_grown hgrowth (hnamed a ha)]
  rw [countP_put (fun _ _ => isNamed_congr) hi, hsame, ← List.countP_pos_iff]
  split
  · next hexists =>
    obtain ⟨a, ha, hname⟩ := hexists
    have hpos : 0 < attributes.countP (isNamed p name) := by
      rw [← hsame]
      exact List.countP_pos_iff.mpr ⟨a, ha, (isNamed_congr hname).trans hi⟩
    exact ⟨fun _ _ => ⟨a, ha, hname⟩, fun _ => (Nat.max_eq_right hpos).symm⟩
  · next hnone =>
    constructor
    · intro hcount hpos
      rw [Nat.max_eq_right hpos] at hcount
      exact (Nat.succ_ne_self _ hcount).elim
    · intro himp
      have hzero : attributes.countP (isNamed p name) = 0 :=
        Nat.eq_zero_of_not_pos fun hpos => hnone (himp hpos)
      rw [hzero]
      rfl

/-- **Setting replaces exactly if it meets the attribute that look-up finds.** -/
theorem replaces_iff {i : UInt16} (hindex : q.find? (.utf8 name) = some i) :
    Replaces p q name payload attributes attributes' ↔
      FirstOr p name i (·.payload = payload) attributes ∧
        ((∃ a ∈ attributes, a.isNamed p name = true) → ∃ a ∈ attributes, a.name = i) := by
  have hfound : (∃ a, find? q name attributes' = .ok (some a) ∧ a.payload = payload) ↔
      FirstOr p name i (·.payload = payload) attributes :=
    found_iff_of_set hp hnamed h hindex rfl
  have hcount := countP_iff_of_set hp hnamed h hindex
  constructor
  · exact fun hall => ⟨hfound.mp hall.found, hcount.mp hall.count⟩
  · exact fun ⟨hfirst, hexists⟩ =>
      ⟨hfound.mpr hfirst, filter_of_set hp hnamed h, hcount.mpr hexists⟩

theorem replaces_of_namedOnce (honce : p.NamedOnce name) :
    Replaces p q name payload attributes attributes' := by
  have hgrowth := (grows_set _ _ _).growth h
  obtain ⟨i, hindex, hi, -⟩ := set_ok hp h
  have hall (a : Attribute) (ha : a.isNamed p name = true) : a.name = i :=
    (hgrowth.namedOnce honce).eq_of_utf8 (hgrowth.utf8 (isNamed_iff.mp ha)) (isNamed_iff.mp hi)
  refine (replaces_iff hp hnamed h hindex).mpr ⟨?_, ?_⟩
  · exact fun first hfirst => .inl (hall first (List.find?_some hfirst))
  · rintro ⟨a, ha, hname⟩
    exact ⟨a, ha, hall a hname⟩

end Set

end Attribute

/-! ## §4 Bodies and annotations -/

section Content

variable {p q : Pool}

/-- There is content exactly if something is found and its content can be read. -/
theorem content_eq_ok {α β : Type} {found : Except FormatError (Option α)}
    {content : Option α → Except FormatError (Option β)} {read : α → Except FormatError β}
    {b : β} (hnone : content none = .ok none)
    (hsome : ∀ a, content (some a) = do return some (← read a)) :
    (found >>= content) = .ok (some b) ↔ ∃ a, found = .ok (some a) ∧ read a = .ok b := by
  constructor
  · intro h
    obtain ⟨located, hlocated, h⟩ := except_bind_eq_ok.mp h
    cases located with
    | none => cases hnone.symm.trans h
    | some a =>
        rw [hsome] at h
        obtain ⟨b', hread, h⟩ := except_bind_eq_ok.mp h
        cases except_pure_eq_ok.mp h
        exact ⟨a, hlocated, hread⟩
  · rintro ⟨a, hlocated, hread⟩
    refine except_bind_eq_ok.mpr ⟨some a, hlocated, ?_⟩
    rw [hsome]
    exact except_bind_eq_ok.mpr ⟨b, hread, rfl⟩

/-- The body that was set is the body of the method exactly if its code attribute was met. -/
theorem Method.body?_iff_of_setBody {b : Body} {m m' : Method} (hp : p.Addressable)
    (hnamed : ∀ a ∈ m.attributes, a.Named p) (hshort : ∀ a ∈ b.attributes, a.ShortPayload)
    (h : m.setBody b p = .ok m' q) :
    ∃ i, q.find? (.utf8 Attribute.codeName) = some i ∧
      (m'.body? q = .ok (some b) ↔
        Attribute.FirstOr p Attribute.codeName i (Body.parse ·.payload = .ok b) m.attributes) := by
  obtain ⟨payload, p₁, hpayload, h⟩ := state_bind_eq_ok.mp h
  obtain ⟨hencoded, rfl⟩ := Interning.ofExcept_eq_ok.mp hpayload
  obtain ⟨attributes, p₂, hset, h⟩ := state_bind_eq_ok.mp h
  obtain ⟨rfl, rfl⟩ := state_pure_eq_ok.mp h
  obtain ⟨i, hindex, -⟩ := Attribute.set_ok hp hset
  have hwanted : Body.parse payload = .ok b := Body.parse_of_encode hshort hencoded
  refine ⟨i, hindex, ?_⟩
  rw [← Attribute.found_iff_of_set hp hnamed hset hindex hwanted]
  exact content_eq_ok rfl fun _ => rfl

/-- The annotations that were set are the visible ones exactly if their attribute was met. -/
theorem AnnotationUse.visible?_iff_of_setVisible {annotations : List AnnotationUse}
    {attributes attributes' : List Attribute} (hp : p.Addressable)
    (hnamed : ∀ a ∈ attributes, a.Named p)
    (h : setVisible annotations attributes p = .ok attributes' q) :
    ∃ i, q.find? (.utf8 Attribute.visibleAnnotationsName) = some i ∧
      (visible? q attributes' = .ok (some annotations) ↔
        Attribute.FirstOr p Attribute.visibleAnnotationsName i
          (readAll q ·.payload = .ok annotations) attributes) := by
  obtain ⟨payload, p₁, hpayload, hset⟩ := state_bind_eq_ok.mp h
  obtain ⟨hgrowth, hread⟩ := readAll_of_encodeAll hp hpayload
  have hmore := (Attribute.grows_set _ _ _).growth hset
  have hp₁ := hgrowth.addressable hp
  have hnamed₁ : ∀ a ∈ attributes, a.Named p₁ := fun a ha => (hnamed a ha).grown hgrowth
  obtain ⟨i, hindex, -⟩ := Attribute.set_ok hp₁ hset
  refine ⟨i, hindex, ?_⟩
  rw [← Attribute.firstOr_grown hgrowth hnamed,
    ← Attribute.found_iff_of_set hp₁ hnamed₁ hset hindex (readAll_grown hmore hread)]
  exact content_eq_ok rfl fun _ => rfl

end Content

namespace Attribute

/-- **What was set is found again exactly if the attribute that look-up finds has the index of its
name.**  Attributes of other names always stay, and where a pool has the name once, setting always
replaces.  Otherwise an attribute that another slot names keeps its place and its content, and the
new one stands behind it. -/
theorem setting_replaces_iff (p : Pool) (hp : p.Addressable) :
    (∀ name payload attributes attributes' q, (∀ a ∈ attributes, a.Named p) →
      set name payload attributes p = .ok attributes' q →
        attributes'.filter (!isNamed q name ·) = attributes.filter (!isNamed p name ·) ∧
        (p.NamedOnce name → Replaces p q name payload attributes attributes') ∧
        ∃ i, q.find? (.utf8 name) = some i ∧
          (Replaces p q name payload attributes attributes' ↔
            FirstOr p name i (·.payload = payload) attributes ∧
              ((∃ a ∈ attributes, a.isNamed p name = true) → ∃ a ∈ attributes, a.name = i))) ∧
    (∀ b (m m' : Method) q, (∀ a ∈ m.attributes, a.Named p) →
      (∀ a ∈ b.attributes, a.ShortPayload) → m.setBody b p = .ok m' q →
        ∃ i, q.find? (.utf8 codeName) = some i ∧
          (m'.body? q = .ok (some b) ↔
            FirstOr p codeName i (Body.parse ·.payload = .ok b) m.attributes)) ∧
    ∀ annotations attributes attributes' q, (∀ a ∈ attributes, a.Named p) →
      AnnotationUse.setVisible annotations attributes p = .ok attributes' q →
        ∃ i, q.find? (.utf8 visibleAnnotationsName) = some i ∧
          (AnnotationUse.visible? q attributes' = .ok (some annotations) ↔
            FirstOr p visibleAnnotationsName i
              (AnnotationUse.readAll q ·.payload = .ok annotations) attributes) := by
  refine ⟨?_, ?_, ?_⟩
  · intro name payload attributes attributes' q hnamed h
    obtain ⟨i, hindex, -⟩ := set_ok hp h
    exact ⟨filter_of_set hp hnamed h, replaces_of_namedOnce hp hnamed h, i, hindex,
      replaces_iff hp hnamed h hindex⟩
  · exact fun b m m' q hnamed hshort h => Method.body?_iff_of_setBody hp hnamed hshort h
  · exact fun annotations attributes attributes' q hnamed h =>
      AnnotationUse.visible?_iff_of_setVisible hp hnamed h

/-- A pool that holds the name of code attributes twice. -/
def twoNames : Pool := ⟨#[.unused, .utf8 codeName, .utf8 codeName]⟩

/-- A code attribute with the second of the names, of code that returns at once. -/
def secondNamed : Attribute := ⟨2, [0, 0, 0, 0, 0, 0, 0, 1, 0xb1, 0, 0, 0, 0]⟩

/-- The new attribute comes behind the old one, which is still the one that is found. -/
theorem setting_replaces_iff_twoNames :
    (∃ attributes q, set codeName [] [secondNamed] twoNames = .ok attributes q ∧
      attributes = [secondNamed, ⟨1, []⟩] ∧
        ¬ Replaces twoNames q codeName [] [secondNamed] attributes) ∧
    (∃ (m : Method) (q : Pool), Method.setBody ⟨0, 0, #[0, 0xb1], [], []⟩
        ⟨⟨0⟩, 1, 1, [secondNamed]⟩ twoNames = .ok m q ∧
      m.body? q ≠ .ok (some ⟨0, 0, #[0, 0xb1], [], []⟩)) ∧
    ∃ attributes q, AnnotationUse.setVisible [] [secondNamed] twoNames = .ok attributes q ∧
      AnnotationUse.visible? q attributes = .ok (some []) := by
  have hnamed : ∀ a ∈ [secondNamed], a.Named twoNames := by
    intro a ha
    rw [List.mem_singleton.mp ha]
    exact ⟨codeName, rfl⟩
  obtain ⟨hset, hbody, hvisible⟩ := setting_replaces_iff twoNames (by decide : 3 ≤ 65536)
  refine ⟨?_, ?_, ?_⟩
  · obtain ⟨attributes, q, hrun, hcheck⟩ := accepts_eq_true.mp (show accepts
      (fun attributes q => attributes == [secondNamed, ⟨1, []⟩] &&
        q.find? (.utf8 codeName) == some 1) (set codeName [] [secondNamed] twoNames) = true by
          decide +kernel)
    rw [Bool.and_eq_true, beq_iff_eq, beq_iff_eq] at hcheck
    obtain ⟨-, -, i, hindex, hiff⟩ := hset _ _ _ _ _ hnamed hrun
    cases hcheck.2.symm.trans hindex
    refine ⟨attributes, q, hrun, hcheck.1, fun hreplaces => ?_⟩
    rcases (hiff.mp hreplaces).1 secondNamed rfl with h | h
    · cases h
    · cases h
  · obtain ⟨m, q, hrun, hcheck⟩ := accepts_eq_true.mp (show accepts
      (fun _ q => q.find? (.utf8 codeName) == some 1) (Method.setBody ⟨0, 0, #[0, 0xb1], [], []⟩
        ⟨⟨0⟩, 1, 1, [secondNamed]⟩ twoNames) = true by decide +kernel)
    rw [beq_iff_eq] at hcheck
    obtain ⟨i, hindex, hiff⟩ := hbody _ _ _ _ hnamed (by exact nofun) hrun
    cases hcheck.symm.trans hindex
    refine ⟨m, q, hrun, fun hsame => ?_⟩
    rcases hiff.mp hsame secondNamed rfl with h | h
    · cases h
    · exact absurd h (by decide)
  · obtain ⟨attributes, q, hrun, -⟩ := accepts_eq_true.mp (show accepts (fun _ _ => true)
      (AnnotationUse.setVisible [] [secondNamed] twoNames) = true by decide +kernel)
    obtain ⟨i, -, hiff⟩ := hvisible _ _ _ _ hnamed hrun
    have hnone : [secondNamed].find? (isNamed twoNames visibleAnnotationsName) = none := by decide
    exact ⟨attributes, q, hrun, hiff.mpr fun first h => nomatch hnone.symm.trans h⟩

end Attribute

end Reshape
