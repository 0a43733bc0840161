import Reshape.Descriptor.MethodType
import Reshape.Proofs.Results
import Reshape.Proofs.Text.Split

/-!
# The grammar of descriptors

A field descriptor is a letter, a class name between `L` and a semicolon, or a bracket in front of
another field descriptor.  A method descriptor is a row of field descriptors in parentheses with one
more behind it, or a `V`.  Exactly the texts of this grammar are read, and reading and printing undo
each other on all types whose class names fit between `L` and the semicolon.
-/

namespace Reshape

/-! ## §1 The grammar -/

/-- The letters of the primitives. -/
def typeLetters : List Char := ['B', 'C', 'D', 'F', 'I', 'J', 'S', 'Z']

inductive IsFieldDescriptor : List Char → Prop
  | primitive {c : Char} (h : c ∈ typeLetters) : IsFieldDescriptor [c]
  | object {name : List Char} (nonempty : name ≠ []) (unbroken : ';' ∉ name) :
      IsFieldDescriptor ('L' :: (name ++ [';']))
  | array {element : List Char} (h : IsFieldDescriptor element) :
      IsFieldDescriptor ('[' :: element)

inductive IsMethodDescriptor : List Char → Prop
  | mk {parameters : List (List Char)} {result : List Char}
      (hparameters : ∀ p ∈ parameters, IsFieldDescriptor p)
      (hresult : IsFieldDescriptor result ∨ result = ['V']) :
      IsMethodDescriptor ('(' :: (parameters.flatten ++ ')' :: result))

namespace Primitive

theorem ofLetter?_eq_some {c : Char} {p : Primitive} : ofLetter? c = some p ↔ p.letter = c := by
  constructor
  · intro h
    unfold ofLetter? at h
    split at h <;> cases h <;> rfl
  · rintro rfl
    cases p <;> rfl

theorem mem_typeLetters_iff {c : Char} : c ∈ typeLetters ↔ ∃ p : Primitive, p.letter = c := by
  have hall : typeLetters = all.map letter := rfl
  rw [hall, List.mem_map]
  constructor
  · rintro ⟨p, -, hp⟩
    exact ⟨p, hp⟩
  · rintro ⟨p, hp⟩
    exact ⟨p, by cases p <;> decide, hp⟩

end Primitive

namespace FieldType

/-- The class name fits between `L` and a semicolon. -/
def Spellable : FieldType → Prop
  | primitive _ => True
  | object name => name ≠ "" ∧ ';' ∉ name.toList
  | array element => element.Spellable

theorem letters_object (name : List Char) :
    (object (String.ofList name)).letters = 'L' :: (name ++ [';']) := by
  rw [letters, String.toList_ofList]

theorem spellable_object {name : List Char} :
    (object (String.ofList name)).Spellable ↔ name ≠ [] ∧ ';' ∉ name := by
  rw [Spellable, String.toList_ofList, ne_eq, String.ofList_eq_empty_iff]

/-- The texts of the grammar are the descriptors of types. -/
theorem isFieldDescriptor_iff {cs : List Char} :
    IsFieldDescriptor cs ↔ ∃ t : FieldType, t.Spellable ∧ t.letters = cs := by
  constructor
  · intro h
    induction h with
    | primitive h =>
        obtain ⟨p, rfl⟩ := Primitive.mem_typeLetters_iff.mp h
        exact ⟨.primitive p, trivial, rfl⟩
    | @object name nonempty unbroken =>
        exact ⟨.object (String.ofList name), spellable_object.mpr ⟨nonempty, unbroken⟩,
          letters_object name⟩
    | array _ ih =>
        obtain ⟨t, ht, rfl⟩ := ih
        exact ⟨.array t, ht, rfl⟩
  · rintro ⟨t, ht, rfl⟩
    induction t with
    | primitive p => exact .primitive (Primitive.mem_typeLetters_iff.mpr ⟨p, rfl⟩)
    | object name => exact .object (fun hnil => ht.1 (String.toList_eq_nil_iff.mp hnil)) ht.2
    | array element ih => exact .array (ih ht)

/-! ## §2 Field descriptors -/

/-- What is read from the front of a text stands there. -/
theorem letters_of_parse {cs rest : List Char} {t : FieldType} (h : parse cs = .ok (t, rest)) :
    t.Spellable ∧ cs = t.letters ++ rest := by
  induction cs generalizing t with
  | nil => cases h
  | cons c cs ih =>
      unfold parse at h
      split at h
      · next hc =>
        subst hc
        split at h
        · cases h
        · next hsign =>
          split at h
          · cases h
          · next hname =>
            cases h
            obtain ⟨hunbroken, hcut⟩ := cut_of_dropWhile hsign
            refine ⟨spellable_object.mpr ⟨hname, hunbroken⟩, ?_⟩
            rw [letters_object, List.cons_append, List.append_assoc]
            exact congrArg ('L' :: ·) hcut
      · split at h
        · next hc =>
          subst hc
          split at h
          · next hp =>
            cases h
            obtain ⟨ht, rfl⟩ := ih hp
            exact ⟨ht, rfl⟩
          · cases h
        · split at h
          · next hp =>
            cases h
            obtain rfl := Primitive.ofLetter?_eq_some.mp hp
            exact ⟨trivial, rfl⟩
          · cases h

/-- A descriptor is read whatever follows it. -/
theorem parse_letters {t : FieldType} (ht : t.Spellable) (rest : List Char) :
    parse (t.letters ++ rest) = .ok (t, rest) := by
  induction t with
  | primitive p => cases p <;> rfl
  | object name =>
      obtain ⟨hnonempty, hunbroken⟩ := ht
      rw [letters, List.cons_append, List.append_assoc, List.singleton_append, parse, if_pos rfl,
        dropWhile_front hunbroken, takeWhile_front hunbroken]
      dsimp only
      split
      · next hnil => exact absurd (String.toList_eq_nil_iff.mp hnil) hnonempty
      · rw [String.ofList_toList]
  | array element ih =>
      rw [letters, List.cons_append, parse, if_neg (by decide), if_pos rfl, ih ht]

/-- **One descriptor is read from the front of a text exactly if the text begins with it.** -/
theorem parse_eq_ok {cs rest : List Char} {t : FieldType} :
    parse cs = .ok (t, rest) ↔ t.Spellable ∧ cs = t.letters ++ rest := by
  constructor
  · exact letters_of_parse
  · rintro ⟨ht, rfl⟩
    exact parse_letters ht rest

theorem toList_descriptor (t : FieldType) : t.descriptor.toList = t.letters := by
  rw [descriptor, String.toList_ofList]

/-- The types that are read from whole texts. -/
theorem ofDescriptor?_eq_ok {text : String} {t : FieldType} :
    ofDescriptor? text = .ok t ↔ t.Spellable ∧ t.descriptor = text := by
  have hwhole : ofDescriptor? text = .ok t ↔ parse text.toList = .ok (t, []) := by
    unfold ofDescriptor?
    split
    · next hp => simp [hp]
    · next hne hp => simpa [hp] using fun _ => hne
    · next hp => simp [hp]
  rw [hwhole, parse_eq_ok, List.append_nil, ← String.toList_inj, toList_descriptor,
    @eq_comm _ text.toList]

/-- A descriptor begins with neither of the signs that stand in the place of one. -/
theorem exists_letters (t : FieldType) : ∃ c cs, t.letters = c :: cs ∧ c ≠ ')' ∧ c ≠ 'V' := by
  cases t with
  | primitive p => exact ⟨p.letter, [], rfl, by cases p <;> decide⟩
  | object name => exact ⟨'L', _, rfl, by decide⟩
  | array element => exact ⟨'[', _, rfl, by decide⟩

theorem letters_ne_void (t : FieldType) : t.letters ≠ ['V'] := by
  obtain ⟨c, cs, hletters, -, hvoid⟩ := t.exists_letters
  rw [hletters]
  rintro ⟨⟩
  exact hvoid rfl

end FieldType

namespace MethodType

/-! ## §3 Method descriptors -/

/-- All class names fit into the descriptor. -/
structure Spellable (m : MethodType) : Prop where
  parameters : ∀ t ∈ m.parameters, t.Spellable
  result : ∀ t ∈ m.result, t.Spellable

/-- The letters of a result, `V` for none. -/
def resultLetters : Option FieldType → List Char
  | none => ['V']
  | some t => t.letters

theorem toList_resultDescriptor (m : MethodType) :
    m.resultDescriptor.toList = resultLetters m.result := by
  unfold resultDescriptor
  cases m.result with
  | none => rfl
  | some t => exact t.toList_descriptor

theorem toList_descriptor (m : MethodType) :
    m.descriptor.toList =
      '(' :: (m.parameters.flatMap FieldType.letters ++ ')' :: resultLetters m.result) := by
  rw [descriptor, String.toList_append, String.toList_ofList, toList_resultDescriptor,
    List.cons_append, List.append_assoc, List.singleton_append]

/-- Parameters are read up to the parenthesis that stands in the place of one more. -/
theorem letters_of_parseParameters {done : List FieldType} {cs : List Char}
    {parameters : List FieldType} {rest : List Char}
    (h : parseParameters done cs = .ok (parameters, rest)) :
    ∃ new, parameters = done.reverse ++ new ∧ (∀ t ∈ new, t.Spellable) ∧
      cs = new.flatMap FieldType.letters ++ ')' :: rest := by
  fun_induction parseParameters done cs with
  | case1 => cases h
  | case2 done rest' =>
      cases h
      exact ⟨[], (List.append_nil _).symm, nofun, rfl⟩
  | case3 => cases h
  | case4 done c cs _ t after hp _ ih =>
      obtain ⟨new, rfl, hnew, rfl⟩ := ih h
      obtain ⟨ht, hcs⟩ := FieldType.letters_of_parse hp
      refine ⟨t :: new, ?_, List.forall_mem_cons.mpr ⟨ht, hnew⟩, ?_⟩
      · rw [List.reverse_cons, List.append_assoc, List.singleton_append]
      · rw [hcs, List.flatMap_cons, List.append_assoc]

theorem parseParameters_letters {new : List FieldType} (hnew : ∀ t ∈ new, t.Spellable)
    (rest : List Char) : ∀ done,
      parseParameters done (new.flatMap FieldType.letters ++ ')' :: rest) =
        .ok (done.reverse ++ new, rest) := by
  induction new with
  | nil =>
      intro done
      rw [List.flatMap_nil, List.nil_append, parseParameters, if_pos rfl, List.append_nil]
  | cons t new ih =>
      intro done
      obtain ⟨ht, hnew⟩ := List.forall_mem_cons.mp hnew
      have hparse := FieldType.parse_letters ht (new.flatMap FieldType.letters ++ ')' :: rest)
      obtain ⟨c, cs, hletters, hc, -⟩ := t.exists_letters
      rw [hletters, List.cons_append] at hparse
      rw [List.flatMap_cons, List.append_assoc, hletters, List.cons_append, parseParameters,
        if_neg hc]
      split
      · next hfail => simp [hparse] at hfail
      · next hread =>
        cases hparse.symm.trans hread
        rw [ih hnew, List.reverse_cons, List.append_assoc, List.singleton_append]

theorem parseResult_eq_ok {cs : List Char} {result : Option FieldType} :
    parseResult cs = .ok result ↔
      (∀ t ∈ result, t.Spellable) ∧ resultLetters result = cs := by
  unfold parseResult
  by_cases hvoid : cs = ['V']
  · subst hvoid
    rw [if_pos rfl, Except.ok.injEq]
    constructor
    · rintro rfl
      exact ⟨nofun, rfl⟩
    · rintro ⟨-, hletters⟩
      cases result with
      | none => rfl
      | some t => exact absurd hletters t.letters_ne_void
  · rw [if_neg hvoid]
    cases result with
    | none =>
        have hne : ¬ resultLetters none = cs := fun h => hvoid h.symm
        simp only [hne, and_false, iff_false]
        cases FieldType.ofDescriptor? (String.ofList cs) <;> nofun
    | some t =>
        have hread : FieldType.ofDescriptor? (String.ofList cs) = .ok t ↔
            t.Spellable ∧ t.letters = cs := by
          rw [FieldType.ofDescriptor?_eq_ok, FieldType.descriptor, String.ofList_inj]
        rw [except_map_eq_ok]
        constructor
        · rintro ⟨u, hu, ⟨⟩⟩
          obtain ⟨ht, hletters⟩ := hread.mp hu
          exact ⟨fun v hv => by cases hv; exact ht, hletters⟩
        · rintro ⟨ht, hletters⟩
          exact ⟨t, hread.mpr ⟨ht t rfl, hletters⟩, rfl⟩

/-- Descriptors in a row are those of a row of types. -/
theorem exists_parameters {parameters : List (List Char)}
    (h : ∀ p ∈ parameters, IsFieldDescriptor p) :
    ∃ types : List FieldType, (∀ t ∈ types, t.Spellable) ∧
      types.flatMap FieldType.letters = parameters.flatten := by
  induction parameters with
  | nil => exact ⟨[], nofun, rfl⟩
  | cons p parameters ih =>
      obtain ⟨hp, hrest⟩ := List.forall_mem_cons.mp h
      obtain ⟨t, ht, rfl⟩ := FieldType.isFieldDescriptor_iff.mp hp
      obtain ⟨types, htypes, hletters⟩ := ih hrest
      refine ⟨t :: types, List.forall_mem_cons.mpr ⟨ht, htypes⟩, ?_⟩
      rw [List.flatMap_cons, hletters, List.flatten_cons]

/-- The method types that are read. -/
theorem ofDescriptor?_eq_ok {text : String} {m : MethodType} :
    ofDescriptor? text = .ok m ↔ m.Spellable ∧ m.descriptor = text := by
  rw [← String.toList_inj, toList_descriptor]
  constructor
  · intro h
    unfold ofDescriptor? at h
    split at h
    · next cs hopen =>
      split at h
      · cases h
      · cases h
      · next hparameters =>
        split at h
        · next hresult =>
          cases h
          obtain ⟨new, rfl, hnew, rfl⟩ := letters_of_parseParameters hparameters
          obtain ⟨hspellable, rfl⟩ := parseResult_eq_ok.mp hresult
          exact ⟨⟨hnew, hspellable⟩, hopen.symm⟩
        · cases h
    · cases h
  · rintro ⟨hm, hletters⟩
    have hparameters := parseParameters_letters hm.parameters (resultLetters m.result) []
    have hresult := parseResult_eq_ok.mpr ⟨hm.result, rfl⟩
    unfold ofDescriptor?
    rw [← hletters]
    simp only [hparameters, hresult]
    rfl

/-- The texts of the grammar are the descriptors of method types. -/
theorem isMethodDescriptor_iff {cs : List Char} :
    IsMethodDescriptor cs ↔ ∃ m : MethodType, m.Spellable ∧ m.descriptor.toList = cs := by
  constructor
  · rintro ⟨hparameters, hresult⟩
    obtain ⟨types, htypes, hletters⟩ := exists_parameters hparameters
    rcases hresult with hresult | rfl
    · obtain ⟨t, ht, rfl⟩ := FieldType.isFieldDescriptor_iff.mp hresult
      refine ⟨⟨types, some t⟩, ⟨htypes, fun u hu => by cases hu; exact ht⟩, ?_⟩
      rw [toList_descriptor, hletters, resultLetters]
    · refine ⟨⟨types, none⟩, ⟨htypes, nofun⟩, ?_⟩
      rw [toList_descriptor, hletters, resultLetters]
  · rintro ⟨⟨parameters, result⟩, hm, rfl⟩
    rw [toList_descriptor, List.flatMap_def]
    refine .mk (fun p hp => ?_) ?_
    · obtain ⟨t, ht, rfl⟩ := List.mem_map.mp hp
      exact FieldType.isFieldDescriptor_iff.mpr ⟨t, hm.parameters t ht, rfl⟩
    · cases result with
      | none => exact .inr rfl
      | some t => exact .inl (FieldType.isFieldDescriptor_iff.mpr ⟨t, hm.result t rfl, rfl⟩)

end MethodType

/-! ## §4 Reading and printing -/

/-- **Exactly the texts of the grammar are read**, and what is read from a text is the one type with
class names that fit whose descriptor is the text.  From the front of a text one descriptor is taken
and all that follows it is left. -/
theorem descriptors_exact :
    (∀ text : String,
      (∃ t, FieldType.ofDescriptor? text = .ok t) ↔ IsFieldDescriptor text.toList) ∧
    (∀ text : String,
      (∃ m, MethodType.ofDescriptor? text = .ok m) ↔ IsMethodDescriptor text.toList) ∧
    (∀ (text : String) (t : FieldType),
      FieldType.ofDescriptor? text = .ok t ↔ t.Spellable ∧ t.descriptor = text) ∧
    (∀ (text : String) (m : MethodType),
      MethodType.ofDescriptor? text = .ok m ↔ m.Spellable ∧ m.descriptor = text) ∧
    ∀ (text rest : String) (t : FieldType),
      FieldType.parse text.toList = .ok (t, rest.toList) ↔
        t.Spellable ∧ text = t.descriptor ++ rest := by
  refine ⟨fun text => ?_, fun text => ?_, fun text t => FieldType.ofDescriptor?_eq_ok,
    fun text m => MethodType.ofDescriptor?_eq_ok, fun text rest t => ?_⟩
  · rw [FieldType.isFieldDescriptor_iff]
    refine exists_congr fun t => ?_
    rw [FieldType.ofDescriptor?_eq_ok, ← String.toList_inj, FieldType.toList_descriptor]
  · rw [MethodType.isMethodDescriptor_iff]
    refine exists_congr fun m => ?_
    rw [MethodType.ofDescriptor?_eq_ok, ← String.toList_inj]
  · rw [FieldType.parse_eq_ok, ← String.toList_inj, String.toList_append,
      FieldType.toList_descriptor]

/-- Arrays within parameters, and a name that has signs of the grammar in it. -/
example : MethodType.ofDescriptor? "([[JL[I(V)/$é;)[LV;" =
    .ok ⟨[.array (.array (.primitive .long)), .object "[I(V)/$é"], some (.array (.object "V"))⟩ := by
  cbv

end Reshape
