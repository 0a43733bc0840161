import Reshape.Proofs.Descriptor.Grammar

/-!
# Host names are read back

Host names have three notations: the keyword of a primitive, a class name with dots, and the
descriptor of an array with dots.  They share one space of texts, and a text is looked at as a keyword
first, then as an array, then as a class.  So a type is lost if it is an object whose class has the
name of something that comes first; otherwise only a dot in a class name is, which comes back as a
slash.
-/

namespace Reshape

/-! ## §1 Slashes and dots -/

/-- Putting one sign for another can be undone if and only if that sign was not there. -/
theorem map_swap_eq_self_iff {a b : Char} (hab : a ≠ b) {cs : List Char} :
    (cs.map fun c => if c = a then b else c).map (fun c => if c = b then a else c) = cs ↔
      b ∉ cs := by
  induction cs with
  | nil => simp
  | cons c cs ih =>
      rw [List.map_cons, List.map_cons, List.cons.injEq, ih, List.mem_cons, not_or]
      refine and_congr_left fun _ => ?_
      by_cases hc : c = a
      · subst hc
        simp [hab.symm]
      · by_cases hb : c = b
        · subst hb
          simp [hab, hc]
        · simp [hc, hb, Ne.symm hb]

theorem map_swap_of_notMem {a b : Char} {cs : List Char} (h : a ∉ cs) :
    (cs.map fun c => if c = a then b else c) = cs :=
  (List.map_congr_left fun _ hc => if_neg (ne_of_mem_of_not_mem hc h)).trans (List.map_id' cs)

section Signs

variable {name : String}

theorem slashed_dotted_iff : slashed (dotted name) = name ↔ '.' ∉ name.toList := by
  rw [← String.toList_inj, slashed, dotted, String.toList_map, String.toList_map,
    map_swap_eq_self_iff (by decide)]

theorem dotted_slashed_iff : dotted (slashed name) = name ↔ '/' ∉ name.toList := by
  rw [← String.toList_inj, slashed, dotted, String.toList_map, String.toList_map,
    map_swap_eq_self_iff (by decide)]

/-- A bracket in front stays where it is. -/
theorem bracket_slashed_iff : (slashed name).toList.head? = some '[' ↔ name.toList.head? = some '[' := by
  rw [slashed, String.toList_map, List.head?_map]
  cases name.toList with
  | nil => simp
  | cons c cs => by_cases hc : c = '.' <;> simp [hc]

end Signs

namespace Primitive

theorem ofKeyword?_eq_some {word : String} {p : Primitive} :
    ofKeyword? word = some p ↔ p.keyword = word := by
  constructor
  · intro h
    simpa using List.find?_some h
  · rintro rfl
    cases p <;> decide

theorem ofKeyword?_eq_none {word : String} :
    ofKeyword? word = none ↔ ∀ p : Primitive, p.keyword ≠ word := by
  rw [Option.eq_none_iff_forall_ne_some]
  exact forall_congr' fun p => not_congr ofKeyword?_eq_some

/-- A keyword has none of the signs that the other notations are made of. -/
theorem keyword_plain (p : Primitive) :
    '/' ∉ p.keyword.toList ∧ '.' ∉ p.keyword.toList ∧ p.keyword.toList.head? ≠ some '[' := by
  cases p <;> decide

theorem dotted_keyword (p : Primitive) : dotted p.keyword = p.keyword := by
  rw [← String.toList_inj, dotted, String.toList_map, map_swap_of_notMem p.keyword_plain.1]

theorem slashed_keyword (p : Primitive) : slashed p.keyword = p.keyword := by
  rw [← String.toList_inj, slashed, String.toList_map, map_swap_of_notMem p.keyword_plain.2.1]

end Primitive

namespace FieldType

/-! ## §2 The three notations -/

/-- The texts that stand for a type. -/
inductive HasHostName : FieldType → String → Prop
  | primitive {p : Primitive} {name : String} (keyword : p.keyword = name) :
      HasHostName (.primitive p) name
  | array {element : FieldType} {name : String}
      (descriptor : ofDescriptor? (slashed name) = .ok (.array element)) :
      HasHostName (.array element) name
  | object {cls name : String} (parts : slashed name = cls) (nonempty : name ≠ "")
      (notKeyword : ∀ p : Primitive, p.keyword ≠ name)
      (notArray : name.toList.head? ≠ some '[') : HasHostName (.object cls) name

/-- The descriptors of arrays are those that begin with a bracket. -/
theorem bracket_descriptor_iff {t : FieldType} :
    t.descriptor.toList.head? = some '[' ↔ ∃ element, t = .array element := by
  rw [toList_descriptor]
  cases t with
  | primitive p => cases p <;> simp [letters, Primitive.letter]
  | object name => simp [letters]
  | array element => simp [letters]

theorem bracket_of_array {element : FieldType} {name : String}
    (h : ofDescriptor? (slashed name) = .ok (.array element)) : name.toList.head? = some '[' := by
  rw [← bracket_slashed_iff, ← (ofDescriptor?_eq_ok.mp h).2]
  exact bracket_descriptor_iff.mpr ⟨element, rfl⟩

/-- **A name is read in exactly one of the three notations.** -/
theorem ofHostName?_eq_ok {name : String} {t : FieldType} :
    ofHostName? name = .ok t ↔ t.HasHostName name := by
  unfold ofHostName?
  cases hword : Primitive.ofKeyword? name with
  | some p =>
      have hp := Primitive.ofKeyword?_eq_some.mp hword
      constructor
      · rintro ⟨⟩
        exact .primitive hp
      · intro h
        cases h with
        | primitive keyword =>
            rw [Primitive.ofKeyword?_eq_some.mpr keyword] at hword
            cases hword
            rfl
        | array descriptor =>
            exact absurd (bracket_of_array descriptor) (hp ▸ p.keyword_plain.2.2)
        | object _ _ notKeyword _ => exact absurd hp (notKeyword p)
  | none =>
      have hnone := Primitive.ofKeyword?_eq_none.mp hword
      dsimp only
      split
      · next hnil =>
        have hempty := String.toList_eq_nil_iff.mp hnil
        refine ⟨nofun, fun h => ?_⟩
        cases h with
        | primitive keyword => exact absurd keyword (hnone _)
        | array descriptor => simpa [hempty] using bracket_of_array descriptor
        | object _ nonempty _ _ => exact absurd hempty nonempty
      · next rest hbracket =>
        have hhead : name.toList.head? = some '[' := by rw [hbracket]; rfl
        constructor
        · intro h
          have hslashed := (ofDescriptor?_eq_ok.mp h).2 ▸ bracket_slashed_iff.mpr hhead
          obtain ⟨element, rfl⟩ := bracket_descriptor_iff.mp hslashed
          exact .array h
        · intro h
          cases h with
          | primitive keyword => exact absurd keyword (hnone _)
          | array descriptor => exact descriptor
          | object _ _ _ notArray => exact absurd hhead notArray
      · next hnil hbracket =>
        constructor
        · rintro ⟨⟩
          refine .object rfl (fun hempty => hnil (String.toList_eq_nil_iff.mpr hempty)) hnone ?_
          intro hhead
          obtain ⟨rest, hrest⟩ := List.head?_eq_some_iff.mp hhead
          exact hbracket rest hrest
        · intro h
          cases h with
          | primitive keyword => exact absurd keyword (hnone _)
          | array descriptor =>
              obtain ⟨rest, hrest⟩ := List.head?_eq_some_iff.mp (bracket_of_array descriptor)
              exact absurd hrest (hbracket rest)
          | object parts _ _ _ => rw [parts]

/-! ## §3 Types that come back -/

/-- No class name has a dot in it. -/
def Undotted : FieldType → Prop
  | primitive _ => True
  | object name => '.' ∉ name.toList
  | array element => element.Undotted

/-- An object whose class has the name of a primitive or of an array. -/
def Mistakable : FieldType → Prop
  | object name => (∃ p : Primitive, p.keyword = name) ∨ name.toList.head? = some '['
  | _ => False

theorem undotted_iff {t : FieldType} : t.Undotted ↔ '.' ∉ t.descriptor.toList := by
  rw [toList_descriptor]
  induction t with
  | primitive p => cases p <;> simp [Undotted, letters, Primitive.letter]
  | object name => simp [Undotted, letters]
  | array element ih => simp [Undotted, letters, ih]

/-- The dotted name of a class stands for it if no dot was there and no other notation applies. -/
theorem hasHostName_object {cls : String} (hcls : cls ≠ "") :
    (object cls).HasHostName (dotted cls) ↔ '.' ∉ cls.toList ∧ ¬ (object cls).Mistakable := by
  constructor
  · intro h
    cases h with
    | object parts _ notKeyword notArray =>
      refine ⟨slashed_dotted_iff.mp parts, ?_⟩
      rintro (⟨p, rfl⟩ | hbracket)
      · exact notKeyword p p.dotted_keyword.symm
      · rw [← parts, bracket_slashed_iff] at hbracket
        exact notArray hbracket
  · rintro ⟨hdots, hclear⟩
    have hback := slashed_dotted_iff.mpr hdots
    refine .object hback ?_ ?_ ?_
    · intro hempty
      rw [hempty] at hback
      exact hcls (hback.symm.trans (by simp [slashed]))
    · intro p hkeyword
      rw [← hkeyword, p.slashed_keyword] at hback
      exact hclear (.inl ⟨p, hback⟩)
    · intro hbracket
      rw [← bracket_slashed_iff, hback] at hbracket
      exact hclear (.inr hbracket)

theorem hasHostName_hostName {t : FieldType} (ht : t.Spellable) :
    t.HasHostName t.hostName ↔ t.Undotted ∧ ¬ t.Mistakable := by
  cases t with
  | primitive p => exact ⟨fun _ => ⟨trivial, id⟩, fun _ => .primitive rfl⟩
  | object cls => exact hasHostName_object ht.1
  | array element =>
      rw [undotted_iff, ← slashed_dotted_iff]
      constructor
      · intro h
        cases h with
        | array descriptor => exact ⟨(ofDescriptor?_eq_ok.mp descriptor).2.symm, id⟩
      · rintro ⟨hback, -⟩
        exact .array (ofDescriptor?_eq_ok.mpr ⟨ht, hback.symm⟩)

/-- The name that a type is given is the one it was read from, if this had no slash. -/
theorem HasHostName.hostName_eq_iff {t : FieldType} {name : String} (h : t.HasHostName name) :
    t.hostName = name ↔ '/' ∉ name.toList := by
  rw [← dotted_slashed_iff]
  cases h with
  | @primitive p name keyword =>
      subst keyword
      rw [p.slashed_keyword, p.dotted_keyword]
      rfl
  | array descriptor => rw [← (ofDescriptor?_eq_ok.mp descriptor).2]; rfl
  | object parts _ _ _ => rw [parts]; rfl

/-- **Which types and names come back.**  A type that is read from a descriptor is read back from its
host name if and only if no class name in it has a dot and it is not an object named like a primitive
or an array.  A text that is read as a host name is the host name of what was read if and only if it
has no slash. -/
theorem host_names_invertible :
    (∀ (text : String) (t : FieldType), ofDescriptor? text = .ok t →
      (ofHostName? t.hostName = .ok t ↔ t.Undotted ∧ ¬ t.Mistakable)) ∧
    ∀ (name : String) (t : FieldType), ofHostName? name = .ok t →
      (t.hostName = name ↔ '/' ∉ name.toList) := by
  refine ⟨fun text t h => ?_, fun name t h => ?_⟩
  · rw [ofHostName?_eq_ok]
    exact hasHostName_hostName (ofDescriptor?_eq_ok.mp h).1
  · exact (ofHostName?_eq_ok.mp h).hostName_eq_iff

/-- An array of objects that are named like a primitive comes back, but one of the objects does not;
and a name with a slash is read, but given back with a dot. -/
theorem host_names_invertible_keyword :
    ofDescriptor? "[[Lint;" = .ok (.array (.array (.object "int"))) ∧
      ofHostName? (FieldType.array (.array (.object "int"))).hostName =
        .ok (.array (.array (.object "int"))) ∧
      ofDescriptor? "Lint;" = .ok (.object "int") ∧
      ofHostName? (FieldType.object "int").hostName ≠ .ok (.object "int") ∧
      ofHostName? "io.int" = .ok (.object "io/int") ∧
      (FieldType.object "io/int").hostName = "io.int" ∧
      ofHostName? "io/int" = .ok (.object "io/int") ∧
      (FieldType.object "io/int").hostName ≠ "io/int" := by
  obtain ⟨htypes, hnames⟩ := host_names_invertible
  have harray : ofDescriptor? "[[Lint;" = .ok (.array (.array (.object "int"))) := by cbv
  have hobject : ofDescriptor? "Lint;" = .ok (.object "int") := by cbv
  have hdotted : ofHostName? "io.int" = .ok (.object "io/int") := by cbv
  have hslashed : ofHostName? "io/int" = .ok (.object "io/int") := by cbv
  refine ⟨harray, ?_, hobject, ?_, hdotted, ?_, hslashed, ?_⟩
  · exact (htypes _ _ harray).mpr ⟨(by decide : '.' ∉ "int".toList), id⟩
  · intro h
    exact ((htypes _ _ hobject).mp h).2 (.inl ⟨.int, rfl⟩)
  · exact (hnames _ _ hdotted).mpr (by decide)
  · intro h
    exact absurd ((hnames _ _ hslashed).mp h) (by decide)

end FieldType

end Reshape
