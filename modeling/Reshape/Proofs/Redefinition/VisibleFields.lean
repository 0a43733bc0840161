import Reshape.Proofs.Redefinition.Partition

/-!
# What reflection reports

A class that was redefined a few times declares more than its newest definition does: shells of
fields that are gone, and the storage field.  And it declares less, since added fields are kept in
generated classes.  Reflection goes by the schema instead.  A pass leaves out the added fields of
the passes before it and enters its own, so what is reported depends on the newest definition alone,
but for the flags of fields that were loaded.
-/

namespace Reshape

/-- Name, descriptor and flags of a candidate. -/
def Candidate.row (x : Candidate) : FieldRow := (x.name, x.descriptor, x.access)

/-! ## §1 Visible entries -/

/-- An entry is visible if it can be matched or stands for an added field. -/
theorem Schema.visibleFields_eq (s : Schema) (storageName : String) :
    s.visibleFields storageName =
      s.fields.filter fun e => e.isMatchable storageName || e.isFake := by
  refine List.filter_congr fun e _ => ?_
  cases hkind : e.kind with
  | normal => simp [SchemaField.isMatchable, SchemaField.isNormal, SchemaField.isFake, hkind]
  | removed => simp [SchemaField.isMatchable, SchemaField.isNormal, SchemaField.isFake, hkind]
  | fake proxy => simp [SchemaField.isFake, hkind]

theorem Schema.visibleFields_perm (s : Schema) (storageName : String) :
    (s.fields.filter (·.isMatchable storageName) ++ s.fakeFields).Perm
      (s.visibleFields storageName) := by
  have hsplit := List.filter_append_perm (·.isMatchable storageName) (s.visibleFields storageName)
  rw [s.visibleFields_eq, List.filter_filter, List.filter_filter] at hsplit
  have hmatchable : (s.fields.filter fun e => e.isMatchable storageName &&
      (e.isMatchable storageName || e.isFake)) = s.fields.filter (·.isMatchable storageName) := by
    refine List.filter_congr fun e _ => ?_
    cases e.isMatchable storageName <;> rfl
  have hfake : (s.fields.filter fun e => !e.isMatchable storageName &&
      (e.isMatchable storageName || e.isFake)) = s.fakeFields := by
    refine List.filter_congr fun e _ => ?_
    cases hm : e.isMatchable storageName with
    | false => rfl
    | true => exact (SchemaField.isFake_of_isMatchable hm).symm
  rwa [hmatchable, hfake, ← s.visibleFields_eq] at hsplit

namespace Pass

/-! ## §2 The entries of added fields -/

namespace Ran

variable {source : AnnotationSource} {old : Schema} {c : ClassFile} {r r' : Registries}
  {o : Outcome}

/-- The entry of an accessor class describes the field that the class was generated for. -/
theorem declares_proxied (t : Ran source old c r o r') :
    List.Forall₂ (Field.Declares t.shape.shaped.pool) t.shape.draft.instances
      (t.proxied.map Prod.fst) := by
  rw [List.forall₂_map_right_iff]
  refine t.proxied_rows.2.imp ?_
  rintro f x ⟨record, -, hidentity, proxy, generated, bytes, -, -, rfl⟩
  exact ⟨hidentity, rfl⟩

/-- The entry of a holder describes the field that is held. -/
theorem declares_held (t : Ran source old c r o r') :
    List.Forall₂ (Field.Declares t.shape.shaped.pool) t.shape.draft.statics
      (t.held.map Held.entry) := by
  rw [List.forall₂_map_right_iff]
  refine (state_mapM_forall₂ t.holding).imp ?_
  rintro f held ⟨u, u', hmade⟩
  obtain ⟨hheld, -⟩ := holdStatic_made hmade
  rw [hheld.entry]
  exact ⟨hheld.identity, rfl⟩

end Ran

theorem name_ne_of_candidates {storageName : String} {c : ClassFile} {xs : List Candidate}
    (h : c.candidates storageName = .ok xs) : ∀ x ∈ xs, x.name ≠ storageName := by
  obtain ⟨ys, -, rfl⟩ := candidates_eq_ok.mp h
  intro x hx
  simpa using (List.mem_filter.mp hx).2

/-- An entry for a field that was a candidate before the pool grew says what the candidate did. -/
theorem rows_of_declares {p q : Pool} {fields : List Field} {entries : List SchemaField}
    {xs : List Candidate} (hgrowth : Pool.Growth p q)
    (hentries : List.Forall₂ (Field.Declares q) fields entries)
    (hxs : List.Forall₂ (fun f x => Field.candidateIn p f = .ok x) fields xs) :
    entries.map SchemaField.row = xs.map Candidate.row := by
  refine map_eq_map_of_forall₂ hentries hxs ?_
  rintro f e x ⟨hidentity, haccess⟩ hx
  obtain ⟨-, hflags⟩ := Field.candidateIn_eq_ok.mp hx
  have hsame : (e.name, e.descriptor) = (x.name, x.descriptor) :=
    Except.ok.inj (hidentity.symm.trans (Field.identityIn_of_candidateIn hgrowth hx))
  rw [SchemaField.row, Candidate.row, ← haccess, hflags, (Prod.mk.inj hsame).1,
    (Prod.mk.inj hsame).2]

theorem identities_of_rows {entries : List SchemaField} {xs : List Candidate}
    (h : entries.map SchemaField.row = xs.map Candidate.row) :
    entries.map SchemaField.identity = xs.map Candidate.identity :=
  map_eq_of_forall₂ ((map_eq_iff_forall₂.mp h).imp fun _ _ hrow =>
    congrArg (fun row : FieldRow => (row.1, row.2.1)) hrow)

/-! ## §3 One pass -/

/-- What is visible are the fields of the newest definition.  A normal one is as it was loaded, and
all others are as declared. -/
structure Reports (storageName : String) (start : Schema) (xs : List Candidate)
    (visible : List SchemaField) : Prop where
  /-- Each declared field is reported once, and nothing else is. -/
  declared : (visible.map SchemaField.identity).Perm (xs.map Candidate.identity)
  once : (visible.map SchemaField.identity).Nodup
  normal : ∀ e ∈ visible, e.kind = .normal → e ∈ start.fields ∧ ∃ x ∈ xs,
    x.identity = e.identity ∧ (e.access = x.access ∨ e.access.differsOnlyInStatic x.access = true)
  fake : ∀ e ∈ visible, e.isFake = true → ∃ x ∈ xs, x.row = e.row
  hidden : ∀ e ∈ visible, e.kind ≠ .removed ∧ e.name ≠ storageName

/-- Every entry that can be matched is one of those that were loaded. -/
def KeepsTo (storageName : String) (start s : Schema) : Prop :=
  ∀ e ∈ s.fields, e.isMatchable storageName = true → e ∈ start.fields

namespace Classified

variable {s : Setting} {old : Schema} {xs : List Candidate} {taken : List SchemaField}
  {o : Outcome} (h : Classified s old xs taken o)
include h

theorem nodup_matched : (taken.map SchemaField.identity).Nodup := by
  rw [h.matched_eq_filter]
  exact (h.distinct.matchable s.config.storageName).sublist (List.filter_sublist.map _)

/-- The matched entries are those of the candidates that have a match. -/
theorem matched_perm : (taken.map SchemaField.identity).Perm
    ((xs.filter (old.hasMatch s.config.storageName)).map Candidate.identity) := by
  rw [List.perm_ext_iff_of_nodup h.nodup_matched (h.identities.sublist (List.filter_sublist.map _))]
  intro id
  constructor
  · intro hid
    obtain ⟨e, he, rfl⟩ := List.mem_map.mp hid
    rw [h.matched, List.mem_filter, Bool.and_eq_true] at he
    obtain ⟨he, hm, hany⟩ := he
    obtain ⟨x, hx, haccepts⟩ := List.any_eq_true.mp hany
    rw [SchemaField.identity_of_accepts haccepts]
    refine List.mem_map_of_mem (List.mem_filter.mpr ⟨hx, ?_⟩)
    exact List.any_eq_true.mpr ⟨e, he, by rw [hm, haccepts]; rfl⟩
  · intro hid
    obtain ⟨x, hx, rfl⟩ := List.mem_map.mp hid
    obtain ⟨hx, hmatch⟩ := List.mem_filter.mp hx
    obtain ⟨e, he, hboth⟩ := List.any_eq_true.mp hmatch
    rw [Bool.and_eq_true] at hboth
    rw [← SchemaField.identity_of_accepts hboth.2]
    refine List.mem_map_of_mem ((h.mem_matched he hboth.1).mpr ?_)
    exact List.any_eq_true.mpr ⟨x, hx, hboth.2⟩

theorem keepsTo {start : Schema} (hold : KeepsTo s.config.storageName start old) :
    KeepsTo s.config.storageName start o.schema := by
  intro e he hm
  have hmem : e ∈ o.schema.fields.filter (·.isMatchable s.config.storageName) :=
    List.mem_filter.mpr ⟨he, hm⟩
  rw [h.kept, h.matched] at hmem
  exact hold e (List.mem_filter.mp hmem).1 hm

end Classified

/-- The entries of added fields say what the new definition does. -/
theorem Ran.rows_generated {source : AnnotationSource} {old : Schema} {c : ClassFile}
    {r r' : Registries} {o : Outcome} (t : Ran source old c r o r') (hp : c.pool.Addressable)
    {xs : List Candidate} (hxs : c.candidates t.setting.config.storageName = .ok xs) :
    (t.proxied.map Prod.fst).map SchemaField.row =
        (xs.filter fun x => !old.hasMatch t.setting.config.storageName x &&
          !x.access.isStatic).map Candidate.row ∧
      (t.held.map Held.entry).map SchemaField.row =
        (xs.filter fun x => !old.hasMatch t.setting.config.storageName x &&
          x.access.isStatic).map Candidate.row := by
  obtain ⟨hgrowth, -⟩ := reshape_ok hp t.reshaped
  have hd := t.accounts hp hxs
  constructor
  · exact rows_of_declares hgrowth t.declares_proxied hd.instances
  · exact rows_of_declares hgrowth t.declares_held hd.statics

theorem Ran.rows_fakeFields {source : AnnotationSource} {old : Schema} {c : ClassFile}
    {r r' : Registries} {o : Outcome} (t : Ran source old c r o r') (hp : c.pool.Addressable)
    {xs : List Candidate} (hxs : c.candidates t.setting.config.storageName = .ok xs) :
    o.schema.fakeFields.map SchemaField.row =
      (xs.filter (fun x => !old.hasMatch t.setting.config.storageName x && !x.access.isStatic) ++
        xs.filter fun x => !old.hasMatch t.setting.config.storageName x && x.access.isStatic).map
        Candidate.row := by
  obtain ⟨hproxied, hheld⟩ := t.rows_generated hp hxs
  rw [t.fakeFields_eq, List.map_append, List.map_append, hproxied, hheld]

/-- Each field of the new definition is visible once. -/
theorem Ran.declared_perm {source : AnnotationSource} {old : Schema} {c : ClassFile}
    {r r' : Registries} {o : Outcome} (t : Ran source old c r o r') (hp : c.pool.Addressable)
    {xs : List Candidate} (hxs : c.candidates t.setting.config.storageName = .ok xs)
    (h : Classified t.setting old xs t.shape.draft.matched o) :
    ((t.shape.draft.matched ++ o.schema.fakeFields).map SchemaField.identity).Perm
      (xs.map Candidate.identity) := by
  have hfakes := identities_of_rows (t.rows_fakeFields hp hxs)
  rw [List.map_append]
  refine (h.matched_perm.append (List.Perm.of_eq hfakes)).trans ?_
  have hparts := partition_perm (old.hasMatch t.setting.config.storageName)
    (fun x => x.access.isStatic) xs
  have hidentities := hparts.map Candidate.identity
  rwa [List.map_append] at hidentities

/-- **One pass.**  If the entries of the old schema that can be matched are loaded ones, then those
of the new schema are, and what is visible of the new schema are the fields of the definition. -/
theorem Ran.reports {source : AnnotationSource} {old : Schema} {c : ClassFile}
    {r r' : Registries} {o : Outcome} {start : Schema} (t : Ran source old c r o r')
    (hp : c.pool.Addressable) (hold : KeepsTo t.setting.config.storageName start old) :
    ∃ xs, c.candidates t.setting.config.storageName = .ok xs ∧
      Reports t.setting.config.storageName start xs
        (o.schema.visibleFields t.setting.config.storageName) ∧
      KeepsTo t.setting.config.storageName start o.schema := by
  obtain ⟨xs, hxs, h⟩ := t.classified hp
  have hvisible := o.schema.visibleFields_perm t.setting.config.storageName
  rw [h.kept] at hvisible
  have hdeclared := (hvisible.map SchemaField.identity).symm.trans (t.declared_perm hp hxs h)
  refine ⟨xs, hxs, ⟨hdeclared, hdeclared.nodup_iff.mpr h.identities, ?_, ?_, ?_⟩,
    h.keepsTo hold⟩
  · intro e he hnormal
    rcases List.mem_append.mp (hvisible.mem_iff.mpr he) with he | he
    · rw [h.matched, List.mem_filter, Bool.and_eq_true] at he
      obtain ⟨hmem, hm, hany⟩ := he
      obtain ⟨x, hx, haccepts⟩ := List.any_eq_true.mp hany
      refine ⟨hold e hmem hm, x, hx, (SchemaField.identity_of_accepts haccepts).symm, ?_⟩
      simp only [SchemaField.accepts, Bool.and_eq_true, Bool.or_eq_true, beq_iff_eq] at haccepts
      exact haccepts.2
    · have hfake := (List.mem_filter.mp he).2
      simp [SchemaField.isFake, hnormal] at hfake
  · intro e he hfake
    rcases List.mem_append.mp (hvisible.mem_iff.mpr he) with he | he
    · rw [h.matched, List.mem_filter, Bool.and_eq_true] at he
      rw [SchemaField.isFake_of_isMatchable he.2.1] at hfake
      cases hfake
    · have hrow := List.mem_map_of_mem (f := SchemaField.row) he
      rw [t.rows_fakeFields hp hxs] at hrow
      obtain ⟨x, hx, hsame⟩ := List.mem_map.mp hrow
      refine ⟨x, ?_, hsame⟩
      rcases List.mem_append.mp hx with hx | hx
      · exact (List.mem_filter.mp hx).1
      · exact (List.mem_filter.mp hx).1
  · intro e he
    constructor
    · intro hremoved
      rw [Schema.visibleFields, List.mem_filter, hremoved] at he
      cases he.2
    · obtain ⟨x, hx, hsame⟩ := List.mem_map.mp (hdeclared.mem_iff.mp (List.mem_map_of_mem he))
      have hname : x.name = e.name := congrArg Prod.fst hsame
      rw [← hname]
      exact name_ne_of_candidates hxs x hx

/-! ## §4 Chains of passes -/

/-- Versions of a class, each with the outcome of the pass that brought it in.  Each pass starts
from the schema that the one before it left; between them the registries may change as they
like. -/
inductive Versions (storageName : String) (start : Schema) :
    List (ClassFile × Outcome) → Schema → Prop
  | loaded : Versions storageName start [] start
  | pass {versions : List (ClassFile × Outcome)} {s : Schema} {source : AnnotationSource}
      {c : ClassFile} {r r' : Registries} {o : Outcome}
      (before : Versions storageName start versions s) (addressable : c.pool.Addressable)
      (configured : r.context.config.storageName = storageName)
      (ran : run source s c r = .ok o r') :
      Versions storageName start (versions ++ [(c, o)]) o.schema

theorem Versions.reports {storageName : String} {start last : Schema}
    {versions : List (ClassFile × Outcome)} (chain : Versions storageName start versions last) :
    KeepsTo storageName start last ∧ ∀ c o, (c, o) ∈ versions → ∃ xs,
      c.candidates storageName = .ok xs ∧
        Reports storageName start xs (o.schema.visibleFields storageName) := by
  induction chain with
  | loaded => exact ⟨fun e he _ => he, nofun⟩
  | @pass versions s source c r r' o before addressable configured ran ih =>
      obtain ⟨hkept, hreports⟩ := ih
      obtain ⟨t⟩ := run_ok ran
      have hsetting : t.setting.config.storageName = storageName := by rw [t.fixed, ← configured]
      subst hsetting
      obtain ⟨xs, hxs, hlast, hnext⟩ := t.reports addressable hkept
      refine ⟨hnext, ?_⟩
      intro c' o' hmem
      rcases List.mem_append.mp hmem with hmem | hmem
      · exact hreports c' o' hmem
      · cases List.mem_singleton.mp hmem
        exact ⟨xs, hxs, hlast⟩

/-- **Reflection reports the newest definition.**  In a chain of passes, what is visible after each
of them are the fields that its definition declares apart from the storage field, each once: as
loaded where they take the place of a loaded field, which differs from them in the static bit at
most, and as declared where they are kept in generated classes.  Nothing of an earlier definition is
seen, nor a shell or the storage field. -/
theorem visible_fields_newest {storageName : String} {start last : Schema}
    {versions : List (ClassFile × Outcome)} (chain : Versions storageName start versions last) :
    ∀ c o, (c, o) ∈ versions → ∃ xs, c.candidates storageName = .ok xs ∧
      Reports storageName start xs (o.schema.visibleFields storageName) :=
  chain.reports.2

/-- The only field of this version is the loaded one, which has become static. -/
def staticVersion : ClassFile :=
  { sample [] with fields := [⟨⟨9⟩, 10, 11, []⟩] }

/-- The first version adds a field, the second drops it again, and the third has it in place of the
loaded one. -/
theorem visible_fields_newest_dropped :
    ∃ o₁ o₂ o₃ : Outcome, Versions ({} : Config).storageName loaded
        [(sample [10, 12], o₁), (staticVersion, o₂), (sample [12], o₃)] o₃.schema ∧
      (∃ xs, Reports ({} : Config).storageName loaded xs
        (o₁.schema.visibleFields ({} : Config).storageName)) ∧
      (o₁.schema.visibleFields ({} : Config).storageName).map SchemaField.row =
        [("x", "I", ⟨1⟩), ("y", "I", ⟨1⟩)] ∧
      (o₂.schema.visibleFields ({} : Config).storageName).map SchemaField.row =
        [("x", "I", ⟨1⟩)] ∧
      (o₃.schema.visibleFields ({} : Config).storageName).map SchemaField.row =
        [("y", "I", ⟨1⟩)] := by
  have runs : ((succeeded (run noAnnotations loaded (sample [10, 12]) (.start {} "app"))).any
      fun (o₁, r₁) => r₁.context.config == {} &&
        (o₁.schema.visibleFields ({} : Config).storageName).map SchemaField.row ==
          [("x", "I", ⟨1⟩), ("y", "I", ⟨1⟩)] &&
        (succeeded (run noAnnotations o₁.schema staticVersion r₁)).any fun (o₂, r₂) =>
          r₂.context.config == {} &&
          (o₂.schema.visibleFields ({} : Config).storageName).map SchemaField.row ==
            [("x", "I", ⟨1⟩)] &&
          (succeeded (run noAnnotations o₂.schema (sample [12]) r₂)).any fun (o₃, _) =>
            (o₃.schema.visibleFields ({} : Config).storageName).map SchemaField.row ==
              [("y", "I", ⟨1⟩)]) = true := by
    decide +kernel
  obtain ⟨⟨o₁, r₁⟩, ran₁, h⟩ := (Option.any_eq_true _ _).mp runs
  simp only [Bool.and_eq_true, beq_iff_eq] at h
  obtain ⟨⟨hconfig₁, hvisible₁⟩, h⟩ := h
  obtain ⟨⟨o₂, r₂⟩, ran₂, h⟩ := (Option.any_eq_true _ _).mp h
  simp only [Bool.and_eq_true, beq_iff_eq] at h
  obtain ⟨⟨hconfig₂, hvisible₂⟩, h⟩ := h
  obtain ⟨⟨o₃, r₃⟩, ran₃, hvisible₃⟩ := (Option.any_eq_true _ _).mp h
  have small (fields : List Field) : ({ sample [] with fields } : ClassFile).pool.Addressable := by
    show 13 ≤ 65536
    decide
  have chain : Versions ({} : Config).storageName loaded
      [(sample [10, 12], o₁), (staticVersion, o₂), (sample [12], o₃)] o₃.schema :=
    .pass (.pass (.pass .loaded (small _) rfl (eq_ok_of_succeeded ran₁)) (small _)
      (congrArg Config.storageName hconfig₁) (eq_ok_of_succeeded ran₂)) (small _)
      (congrArg Config.storageName hconfig₂) (eq_ok_of_succeeded ran₃)
  obtain ⟨xs, -, hreports⟩ := visible_fields_newest chain (sample [10, 12]) o₁ List.mem_cons_self
  exact ⟨o₁, o₂, o₃, chain, ⟨xs, hreports⟩, hvisible₁, hvisible₂, beq_iff_eq.mp hvisible₃⟩

end Pass

end Reshape
