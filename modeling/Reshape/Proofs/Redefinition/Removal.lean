import Reshape.Proofs.Redefinition.Replay

/-!
# Fields that are removed

A class that was loaded declares its fields for good.  A definition that has nothing for one of
them leaves a shell in its place: the field is announced as removed, and from then on it is listed
as removed where it has always stood.  There is no way back.  A later definition that declares the
field again does not match the shell, so the field counts as added and is kept in a generated class.
-/

namespace Reshape

/-! ## §1 Entries from one schema to the next -/

/-- Some field of the definition matches the entry. -/
def ClassFile.covers (storageName : String) (c : ClassFile) (e : SchemaField) : Bool :=
  match c.candidates storageName with
  | .ok xs => xs.any e.accepts
  | .error _ => false

theorem ClassFile.covers_eq {storageName : String} {c : ClassFile} {xs : List Candidate}
    (h : c.candidates storageName = .ok xs) (e : SchemaField) :
    c.covers storageName e = xs.any e.accepts := by
  rw [covers, h]

namespace SchemaField

/-- The entry as the next schema lists it. -/
def after (storageName : String) (c : ClassFile) (e : SchemaField) : SchemaField :=
  if e.isMatchable storageName && !c.covers storageName e then e.toRemoved else e

/-- Every version so far has had a field for the entry. -/
def survives (storageName : String) (versions : List (ClassFile × Outcome)) (e : SchemaField) :
    Bool :=
  versions.all fun v => v.1.covers storageName e

/-- The entry as it is listed after the versions so far. -/
def behind (storageName : String) (versions : List (ClassFile × Outcome)) (e : SchemaField) :
    SchemaField :=
  if e.survives storageName versions then e else e.toRemoved

section

variable {storageName : String} {versions : List (ClassFile × Outcome)} {c : ClassFile}
  {o : Outcome} {e : SchemaField}

theorem survives_append : e.survives storageName (versions ++ [(c, o)]) =
    (e.survives storageName versions && c.covers storageName e) := by
  simp [survives]

@[simp] theorem identity_behind : (e.behind storageName versions).identity = e.identity := by
  unfold behind
  split <;> rfl

/-- Only an entry that has survived so far can be matched. -/
theorem isMatchable_behind (hm : e.isMatchable storageName = true) :
    (e.behind storageName versions).isMatchable storageName = e.survives storageName versions := by
  unfold behind
  split
  · next h => rw [hm, h]
  · next h =>
    rw [Bool.not_eq_true] at h
    rw [h]
    rfl

/-- One more version. -/
theorem after_behind (hm : e.isMatchable storageName = true) :
    (e.behind storageName versions).after storageName c =
      e.behind storageName (versions ++ [(c, o)]) := by
  rw [after, isMatchable_behind hm]
  unfold behind
  rw [survives_append]
  by_cases hsurvives : e.survives storageName versions = true
  · cases hcovers : c.covers storageName e <;> simp [hsurvives, hcovers]
  · simp [hsurvives]

end

end SchemaField

/-- Whether the request is for the given field of a class. -/
def RemovedField.concerns (owner loader : String) (field : String × String) (x : RemovedField) :
    Bool :=
  x.owner == owner && x.loader == loader && x.identity == field

namespace Pass

/-! ## §2 One pass -/

namespace Classified

variable {s : Setting} {old : Schema} {xs : List Candidate} {taken : List SchemaField}
  {o : Outcome} (h : Classified s old xs taken o)
include h

/-- A field that the class declares is announced once if it loses its match, and else not at all. -/
theorem count_removed {e : SchemaField} (he : e ∈ old.fields.filter (!·.isFake)) :
    (o.removed.map RemovedField.identity).count e.identity =
      if e.isMatchable s.config.storageName && !xs.any e.accepts then 1 else 0 := by
  have hdeclared : (old.fields.filter fun e =>
      e.isMatchable s.config.storageName && !xs.any e.accepts) =
        (old.fields.filter (!·.isFake)).filter fun e =>
          e.isMatchable s.config.storageName && !xs.any e.accepts := by
    rw [List.filter_filter]
    refine List.filter_congr fun e _ => ?_
    cases hm : e.isMatchable s.config.storageName with
    | false => rfl
    | true => simp [SchemaField.isFake_of_isMatchable hm]
  rw [h.removed, List.map_map, hdeclared]
  exact count_map_filter h.distinct _ he

/-- All requests of a pass are for its class. -/
theorem countP_removed (field : String × String) :
    o.removed.countP (·.concerns s.owner s.loader field) =
      (o.removed.map RemovedField.identity).count field := by
  rw [List.count, List.countP_map]
  refine List.countP_congr fun x hx => ?_
  rw [h.removed] at hx
  obtain ⟨e, -, rfl⟩ := List.mem_map.mp hx
  simp [RemovedField.concerns, SchemaField.removal]

/-- A candidate with the name and descriptor of a declared field that it cannot match is added. -/
theorem hasMatch_eq_false {e : SchemaField} (he : e ∈ old.fields.filter (!·.isFake))
    (hlost : (e.isMatchable s.config.storageName && xs.any e.accepts) = false) {x : Candidate}
    (hx : x ∈ xs) (hsame : x.identity = e.identity) :
    old.hasMatch s.config.storageName x = false := by
  rw [Schema.hasMatch, List.any_eq_false]
  intro e' he' hboth
  rw [Bool.and_eq_true] at hboth
  obtain ⟨hm', haccepts⟩ := hboth
  have hidentity : e'.identity = e.identity :=
    (SchemaField.identity_of_accepts haccepts).trans hsame
  have hdeclared : e' ∈ old.fields.filter (!·.isFake) :=
    List.mem_filter.mpr ⟨he', by simp [SchemaField.isFake_of_isMatchable hm']⟩
  cases List.inj_on_of_nodup_map h.distinct hdeclared he hidentity
  rw [hm', Bool.true_and, List.any_eq_false] at hlost
  exact hlost x hx haccepts

end Classified

namespace Ran

variable {source : AnnotationSource} {old : Schema} {c : ClassFile} {r r' : Registries}
  {o : Outcome} (t : Ran source old c r o r')
include t

/-- What the class declares, entry by entry. -/
theorem declared_eq : t.declared =
    (old.fields.filter (!·.isFake)).map (·.after r.context.config.storageName c) ++
      if t.shape.appendsStorage then [storageEntry r.context.config] else [] := by
  obtain ⟨xs, hxs, -⟩ := t.classified t.addressable
  have hkept := (t.accounts t.addressable hxs).keptFields_eq
  have hconfig : t.setting.config = r.context.config := by rw [t.fixed]
  rw [hconfig] at hxs hkept
  rw [declared, hkept]
  simp only [SchemaField.after, ClassFile.covers_eq hxs]

/-- A declared field stays in its place. -/
theorem getElem?_declared {k : Nat} {e : SchemaField}
    (he : (old.fields.filter (!·.isFake))[k]? = some e) :
    t.declared[k]? = some (e.after r.context.config.storageName c) := by
  obtain ⟨hk, -⟩ := List.getElem?_eq_some_iff.mp he
  rw [t.declared_eq, List.getElem?_append_left (by rwa [List.length_map]), List.getElem?_map, he,
    Option.map_some]

theorem getElem?_schema {k : Nat} {e : SchemaField}
    (he : (old.fields.filter (!·.isFake))[k]? = some e) :
    o.schema.fields[k]? = some (e.after r.context.config.storageName c) := by
  have hdeclared := t.getElem?_declared he
  obtain ⟨hk, -⟩ := List.getElem?_eq_some_iff.mp hdeclared
  rw [t.schema_fields, List.getElem?_append_left hk, hdeclared]

/-- A declared field that is not matched is not listed as a normal one anywhere. -/
theorem isNormal_eq_false {e : SchemaField} (he : e ∈ old.fields.filter (!·.isFake))
    (hname : e.name ≠ r.context.config.storageName)
    (hlost : (e.after r.context.config.storageName c).isNormal = false) :
    ∀ e' ∈ o.schema.fields, e'.identity = e.identity → e'.isNormal = false := by
  intro e' he' hsame
  rw [t.schema_fields] at he'
  rcases List.mem_append.mp he' with he' | he'
  · rw [t.declared_eq] at he'
    rcases List.mem_append.mp he' with he' | he'
    · obtain ⟨before, hbefore, rfl⟩ := List.mem_map.mp he'
      have hidentity : before.identity = e.identity := by
        rw [← hsame]
        unfold SchemaField.after
        split <;> rfl
      cases List.inj_on_of_nodup_map (distinct_of_reshape t.addressable t.reshaped) hbefore he
        hidentity
      exact hlost
    · split at he'
      · cases List.mem_singleton.mp he'
        exact (hname (congrArg Prod.fst hsame).symm).elim
      · cases he'
  · have hfake := t.isFake_of_mem_generated e' he'
    cases hkind : e'.kind <;> simp_all [SchemaField.isFake, SchemaField.isNormal]

end Ran

/-- A field that was loaded and is not declared any more, as a pass leaves it. -/
structure Shelved (storageName : String) (e : SchemaField) (k : Nat) (c : ClassFile)
    (o : Outcome) : Prop where
  listed : o.schema.fields[k]? = some e.toRemoved
  notNormal : ∀ e' ∈ o.schema.fields, e'.identity = e.identity → e'.isNormal = false
  /-- A field of the same name and descriptor is an added one, whatever its flags. -/
  added : ∀ xs, c.candidates storageName = .ok xs → ∀ x ∈ xs, x.identity = e.identity →
    (∃ e' ∈ o.schema.fakeFields, e'.row = x.row) ∧
      x.identity ∈ if x.access.isStatic then o.redirected.map StaticRedirect.identity
        else o.added.map AddedField.identity

/-- What a pass makes of an entry that has survived the versions before it, or has not. -/
theorem Ran.shelved {source : AnnotationSource} {old : Schema} {c : ClassFile}
    {r r' : Registries} {o : Outcome} (t : Ran source old c r o r')
    {versions : List (ClassFile × Outcome)} {e : SchemaField} {k : Nat}
    (hm : e.isMatchable r.context.config.storageName = true)
    (he : (old.fields.filter (!·.isFake))[k]? =
      some (e.behind r.context.config.storageName versions))
    (hlost : e.survives r.context.config.storageName (versions ++ [(c, o)]) = false) :
    Shelved r.context.config.storageName e k c o := by
  have hconfig : t.setting.config = r.context.config := by rw [t.fixed]
  have hnext : (e.behind r.context.config.storageName versions).after
      r.context.config.storageName c = e.toRemoved := by
    rw [SchemaField.after_behind (o := o) hm, SchemaField.behind, hlost]
    rfl
  have hmem := List.mem_of_getElem? he
  have hname : (e.behind r.context.config.storageName versions).name ≠
      r.context.config.storageName := by
    have hsame : (e.behind r.context.config.storageName versions).name = e.name :=
      congrArg Prod.fst SchemaField.identity_behind
    rw [hsame]
    simp only [SchemaField.isMatchable, Bool.and_eq_true, bne_iff_ne] at hm
    exact hm.2
  refine ⟨by rw [t.getElem?_schema he, hnext], ?_, ?_⟩
  · intro e' he' hsame
    refine t.isNormal_eq_false hmem hname (by rw [hnext]; rfl) e' he' ?_
    rw [hsame, SchemaField.identity_behind]
  · intro xs hxs x hx hsame
    obtain ⟨ys, hys, h⟩ := t.classified t.addressable
    rw [hconfig] at hys
    cases hxs.symm.trans hys
    have hnone : ((e.behind r.context.config.storageName versions).isMatchable
        t.setting.config.storageName &&
          xs.any (e.behind r.context.config.storageName versions).accepts) = false := by
      rw [hconfig, SchemaField.isMatchable_behind hm]
      rw [SchemaField.survives_append, ClassFile.covers_eq hxs] at hlost
      by_cases hsurvives : e.survives r.context.config.storageName versions = true
      · rw [hsurvives, Bool.true_and] at hlost
        rw [SchemaField.behind, if_pos hsurvives, hsurvives, Bool.true_and, hlost]
      · simp [hsurvives]
    have hno := h.hasMatch_eq_false hmem hnone hx (by rw [hsame, SchemaField.identity_behind])
    constructor
    · have hrows := t.rows_fakeFields t.addressable (hconfig ▸ hxs)
      have hrow : x.row ∈ o.schema.fakeFields.map SchemaField.row := by
        rw [hrows]
        refine List.mem_map_of_mem (List.mem_append.mpr ?_)
        cases hstatic : x.access.isStatic with
        | false => exact .inl (List.mem_filter.mpr ⟨hx, by simp [hno, hstatic]⟩)
        | true => exact .inr (List.mem_filter.mpr ⟨hx, by simp [hno, hstatic]⟩)
      obtain ⟨e', he', hrow⟩ := List.mem_map.mp hrow
      exact ⟨e', he', hrow⟩
    · split
      · next hstatic =>
        rw [h.redirected_eq]
        exact List.mem_map_of_mem (List.mem_filter.mpr ⟨hx, by simp [hno, hstatic]⟩)
      · next hstatic =>
        rw [h.added_eq]
        exact List.mem_map_of_mem (List.mem_filter.mpr ⟨hx, by simp [hno, hstatic]⟩)

/-- What a pass says of a field that was loaded, given the versions before it. -/
structure Follows (storageName : String) (e : SchemaField) (k : Nat)
    (before : List (ClassFile × Outcome)) (c : ClassFile) (o : Outcome) : Prop where
  /-- The removal is announced by the first definition that has nothing for the field. -/
  announced : (o.removed.map RemovedField.identity).count e.identity =
    if e.survives storageName before && !c.covers storageName e then 1 else 0
  kept : e.survives storageName (before ++ [(c, o)]) = true → o.schema.fields[k]? = some e
  lost : e.survives storageName (before ++ [(c, o)]) = false → Shelved storageName e k c o

theorem Ran.follows {source : AnnotationSource} {old : Schema} {c : ClassFile}
    {r r' : Registries} {o : Outcome} (t : Ran source old c r o r')
    {versions : List (ClassFile × Outcome)} {e : SchemaField} {k : Nat}
    (hm : e.isMatchable r.context.config.storageName = true)
    (he : (old.fields.filter (!·.isFake))[k]? =
      some (e.behind r.context.config.storageName versions)) :
    Follows r.context.config.storageName e k versions c o := by
  constructor
  · obtain ⟨xs, hxs, h⟩ := t.classified t.addressable
    have hcount := h.count_removed (List.mem_of_getElem? he)
    have hconfig : t.setting.config = r.context.config := by rw [t.fixed]
    rw [hconfig] at hxs hcount
    rw [SchemaField.isMatchable_behind hm, SchemaField.identity_behind] at hcount
    rw [hcount, ClassFile.covers_eq hxs]
    by_cases hsurvives : e.survives r.context.config.storageName versions = true
    · rw [SchemaField.behind, if_pos hsurvives]
    · simp [hsurvives]
  · intro hsurvives
    rw [t.getElem?_schema he, SchemaField.after_behind (o := o) hm, SchemaField.behind,
      if_pos hsurvives]
  · intro hlost
    exact t.shelved hm he hlost

/-! ## §3 Chains of passes -/

/-- Versions of one class in one loader scope, each with the outcome of the pass that brought it in,
and the requests that have been made by then.  Each pass starts from the schema that the one before
it left; between them other classes may make requests. -/
inductive Succession (owner loader storageName : String) (start : Schema) (asked : Requests) :
    List (ClassFile × Outcome) → Schema → Requests → Prop
  | loaded : Succession owner loader storageName start asked [] start asked
  | pass {versions : List (ClassFile × Outcome)} {s : Schema} {asked' : Requests}
      {source : AnnotationSource} {c : ClassFile} {r r' : Registries} {o : Outcome}
      (before : Succession owner loader storageName start asked versions s asked')
      (named : c.name = .ok owner) (inScope : r.context.loader = loader)
      (configured : r.context.config.storageName = storageName)
      (others : ∃ more, r.requests.removed = asked'.removed ++ more ∧
        ∀ x ∈ more, x.owner ≠ owner ∨ x.loader ≠ loader)
      (ran : run source s c r = .ok o r') :
      Succession owner loader storageName start asked (versions ++ [(c, o)]) o.schema r'.requests

/-- Requests for other classes do not count. -/
theorem countP_others {owner loader : String} {field : String × String} {more : List RemovedField}
    (h : ∀ x ∈ more, x.owner ≠ owner ∨ x.loader ≠ loader) :
    more.countP (·.concerns owner loader field) = 0 := by
  rw [List.countP_eq_zero]
  intro x hx hconcerns
  simp only [RemovedField.concerns, Bool.and_eq_true, beq_iff_eq] at hconcerns
  rcases h x hx with hother | hother
  · exact hother hconcerns.1.1
  · exact hother hconcerns.1.2

/-- The requests that a pass adds for a field are those of its outcome. -/
theorem Ran.countP_requests {source : AnnotationSource} {old : Schema} {c : ClassFile}
    {r r' : Registries} {o : Outcome} (t : Ran source old c r o r') (field : String × String) :
    r'.requests.removed.countP (·.concerns t.owner r.context.loader field) =
      r.requests.removed.countP (·.concerns t.owner r.context.loader field) +
        (o.removed.map RemovedField.identity).count field := by
  obtain ⟨xs, -, h⟩ := t.classified t.addressable
  have hown := h.countP_removed field
  have howner : t.setting.owner = t.owner := by rw [t.fixed]
  have hloader : t.setting.loader = r.context.loader := by rw [t.fixed]
  rw [howner, hloader] at hown
  obtain ⟨-, -, hrequests⟩ := conclude_ok t.concluded
  have hstart : t.afterHolders.requests = r.requests := by rw [t.drawn.2]
  have hall : r'.requests.removed = r.requests.removed ++ o.removed := by
    rw [hrequests, hstart, t.removed]
    rfl
  rw [hall, List.countP_append, hown]

/-- **What becomes of a field that was loaded.**  Take a chain of passes on one class, and a normal
field other than the storage field that the class declares at its start, with the `k`-th place among
the declared ones.  As long as each definition has a field that matches it, it is listed in its
place as it was.  The first definition that has none announces its removal, once, and no other pass
does; there is one request for it in all.  From then on it is listed as removed in the same place
and nowhere as a normal field, and a definition that declares its name and descriptor again, with
whatever flags, gets an added field. -/
theorem removal_announced_once {owner loader storageName : String} {start last : Schema}
    {asked asked' : Requests} {versions : List (ClassFile × Outcome)}
    (chain : Succession owner loader storageName start asked versions last asked')
    {e : SchemaField} {k : Nat} (he : (start.fields.filter (!·.isFake))[k]? = some e)
    (hm : e.isMatchable storageName = true) :
    (∀ before c o after, versions = before ++ (c, o) :: after →
      Follows storageName e k before c o) ∧
    asked'.removed.countP (·.concerns owner loader e.identity) =
      asked.removed.countP (·.concerns owner loader e.identity) +
        if e.survives storageName versions then 0 else 1 := by
  suffices h : (last.fields.filter (!·.isFake))[k]? = some (e.behind storageName versions) ∧
      (∀ before c o after, versions = before ++ (c, o) :: after →
        Follows storageName e k before c o) ∧
      asked'.removed.countP (·.concerns owner loader e.identity) =
        asked.removed.countP (·.concerns owner loader e.identity) +
          if e.survives storageName versions then 0 else 1 from h.2
  induction chain with
  | loaded =>
      refine ⟨he, ?_, rfl⟩
      intro before c o after hnil
      simp at hnil
  | @pass versions s asked' source c r r' o before named inScope configured others ran ih =>
      obtain ⟨hplace, hfollows, hcount⟩ := ih
      obtain ⟨t⟩ := run_ok ran
      subst configured inScope
      have hlast := t.follows hm hplace
      refine ⟨?_, ?_, ?_⟩
      · rw [t.filter_declared, t.getElem?_declared hplace, SchemaField.after_behind hm]
      · intro before' c' o' after hsplit
        rcases List.eq_nil_or_concat after with rfl | ⟨after', v, rfl⟩
        · obtain ⟨rfl, hv⟩ := List.append_inj' hsplit rfl
          cases List.singleton_inj.mp hv
          exact hlast
        · rw [List.concat_eq_append, ← List.cons_append, ← List.append_assoc] at hsplit
          exact hfollows before' c' o' after' (List.append_inj' hsplit rfl).1
      · obtain ⟨more, hmore, hothers⟩ := others
        cases named.symm.trans t.named
        rw [t.countP_requests, hmore, List.countP_append, countP_others hothers, hcount,
          hlast.announced, SchemaField.survives_append]
        cases e.survives r.context.config.storageName versions <;>
          cases c.covers r.context.config.storageName e <;> simp

/-- The first version drops the loaded field, and the second declares it again as it was. -/
theorem removal_announced_once_redeclared :
    ∃ (o₁ o₂ : Outcome) (asked : Requests),
      Succession "A" "app" ({} : Config).storageName loaded {}
        [(sample [12], o₁), (sample [10, 12], o₂)] o₂.schema asked ∧
      (o₁.removed.map RemovedField.identity).count ("x", "I") = 1 ∧
      (o₂.removed.map RemovedField.identity).count ("x", "I") = 0 ∧
      o₂.schema.fields[0]? = some ⟨"x", "I", ⟨1⟩, .removed⟩ ∧
      (∃ e ∈ o₂.schema.fakeFields, e.row = ("x", "I", ⟨1⟩)) ∧
      asked.removed.countP (·.concerns "A" "app" ("x", "I")) = 1 := by
  have runs : ((succeeded (run noAnnotations loaded (sample [12]) (.start {} "app"))).any
      fun (o₁, r₁) => r₁.context.loader == "app" && r₁.context.config == {} &&
        (succeeded (run noAnnotations o₁.schema (sample [10, 12]) r₁)).isSome) = true := by
    decide +kernel
  obtain ⟨⟨o₁, r₁⟩, ran₁, h⟩ := (Option.any_eq_true _ _).mp runs
  simp only [Bool.and_eq_true, beq_iff_eq] at h
  obtain ⟨⟨hloader, hconfig⟩, hran₂⟩ := h
  obtain ⟨⟨o₂, r₂⟩, ran₂⟩ := Option.isSome_iff_exists.mp hran₂
  have chain : Succession "A" "app" ({} : Config).storageName loaded {}
      [(sample [12], o₁), (sample [10, 12], o₂)] o₂.schema r₂.requests :=
    .pass (.pass .loaded rfl rfl rfl ⟨[], rfl, nofun⟩ (eq_ok_of_succeeded ran₁)) rfl
      hloader (congrArg Config.storageName hconfig) ⟨[], (List.append_nil _).symm, nofun⟩
      (eq_ok_of_succeeded ran₂)
  have hplace : (loaded.fields.filter (!·.isFake))[0]? = some ⟨"x", "I", ⟨1⟩, .normal⟩ := by
    decide +kernel
  obtain ⟨hfollows, hcount⟩ := removal_announced_once chain hplace (by decide)
  have hfirst := hfollows [] _ _ _ rfl
  have hsecond := hfollows [_] _ _ [] rfl
  have hdropped : (sample [12]).covers ({} : Config).storageName ⟨"x", "I", ⟨1⟩, .normal⟩ =
      false := by
    decide +kernel
  have hlost := hsecond.lost (by simp [SchemaField.survives, hdropped])
  obtain ⟨hagain, -⟩ := hlost.added [⟨"x", "I", ⟨1⟩⟩, ⟨"y", "I", ⟨1⟩⟩] (by decide +kernel) _
    List.mem_cons_self rfl
  refine ⟨o₁, o₂, r₂.requests, chain, ?_, ?_, hlost.listed, hagain, ?_⟩
  · exact hfirst.announced.trans (by simp [SchemaField.survives, hdropped])
  · exact hsecond.announced.trans (by simp [SchemaField.survives, hdropped])
  · exact hcount.trans (by simp [SchemaField.survives, hdropped])

/-- The storage field is declared by the class and by no definition, and it is not removed. -/
theorem storage_field_not_removed :
    ∃ (o : Outcome) (asked : Requests) (e : SchemaField),
      Succession "A" "app" ({} : Config).storageName loaded {} [(sample [10], o)] o.schema asked ∧
      (∀ e' ∈ loaded.fields, e'.kind ≠ .removed) ∧ e ∈ loaded.fields ∧ e.isNormal = true ∧
      (∀ f ∈ (sample [10]).fields, f.identityIn (sample [10]).pool ≠ .ok e.identity) ∧
      o.removed = [] ∧ e ∈ o.schema.fields := by
  have runs : ((succeeded (run noAnnotations loaded (sample [10]) (.start {} "app"))).any
      fun (o, _) => o.removed.isEmpty && storageEntry {} ∈ o.schema.fields) = true := by
    decide +kernel
  obtain ⟨⟨o, r⟩, ran, h⟩ := (Option.any_eq_true _ _).mp runs
  simp only [Bool.and_eq_true, List.isEmpty_iff, decide_eq_true_eq] at h
  obtain ⟨hremoved, hlisted⟩ := h
  have chain : Succession "A" "app" ({} : Config).storageName loaded {} [(sample [10], o)] o.schema
      r.requests :=
    .pass .loaded rfl rfl rfl ⟨[], rfl, nofun⟩ (eq_ok_of_succeeded ran)
  exact ⟨o, r.requests, storageEntry {}, chain, by decide +kernel, by decide +kernel, rfl,
    by decide +kernel, hremoved, hlisted⟩

end Pass

end Reshape
