import Mathlib.Data.List.Nodup
import Reshape.Proofs.Redefinition.FieldTable
import Reshape.Proofs.Registry.Commit
import Reshape.Proofs.Storage.Accessor

/-!
# Fields that stay added

An added instance field is kept in one slot of its object's container, and the slot has the
number of the field among the added fields of the definition.  A later definition numbers its
added fields afresh, while the containers of existing objects stay as they are.  So a field that
stays added keeps its value exactly if as many added fields stand before it as did; where a
definition drops or inserts one further up, the field reads what was written for another one.
-/

namespace Reshape

/-- What a field is known by. -/
def AddedField.identity (r : AddedField) : String × String := (r.name, r.descriptor)

/-- The accessor that a schema names for an added instance field. -/
def Schema.accessor? (s : Schema) (context : Context) (field : String × String) :
    Option Accessor :=
  match s.fakeFields.find? (·.isNamed field.1 field.2) with
  | some ⟨_, _, _, .fake proxy⟩ => context.accessor? proxy
  | _ => none

/-- How many added fields a definition declares before the given one. -/
def Outcome.rank (o : Outcome) (field : String × String) : Nat :=
  (o.added.map AddedField.identity).idxOf field

/-- The accessors for the other fields that were added. -/
def Outcome.Others (o : Outcome) (context : Context) (field : String × String)
    (a : Accessor) : Prop :=
  ∃ record ∈ o.added, record.identity ≠ field ∧
    o.schema.accessor? context record.identity = some a

namespace Pass

/-! ## §1 The fields that are added -/

theorem nodup_of_firstRepeated {members : List (String × String)} :
    ∀ {seen : List (String × String)}, firstRepeated seen members = none →
      members.Nodup ∧ ∀ m ∈ members, m ∉ seen := by
  induction members with
  | nil => exact fun _ => ⟨.nil, nofun⟩
  | cons m members ih =>
      intro seen h
      unfold firstRepeated at h
      split at h
      · cases h
      · next hnew =>
        rw [List.contains_iff_mem] at hnew
        obtain ⟨hnodup, hfresh⟩ := ih h
        constructor
        · rw [List.nodup_cons]
          exact ⟨fun hm => hfresh m hm List.mem_cons_self, hnodup⟩
        · intro n hn
          rcases List.mem_cons.mp hn with rfl | hn
          · exact hnew
          · exact fun hseen => hfresh n hn (List.mem_cons_of_mem m hseen)

/-- A field of the definition becomes an added instance field as it is, or not at all. -/
theorem place_instances {s : Setting} {className : String} {d d' : Draft} {f : Field}
    (h : place s className d f = .ok d') :
    d'.instances = d.instances ∨ d'.instances = d.instances ++ [f] := by
  obtain ⟨name, descriptor, -, hplaced⟩ := place_ok h
  cases hplaced with
  | passedOver => exact .inl rfl
  | seated => exact .inl rfl
  | added =>
      unfold Draft.add
      split
      · exact .inl rfl
      · exact .inr rfl

theorem foldlM_place_instances {s : Setting} {className : String} {fields : List Field} :
    ∀ {d d' : Draft}, fields.foldlM (place s className) d = .ok d' →
      ∃ more, d'.instances = d.instances ++ more ∧ more.Sublist fields := by
  induction fields with
  | nil =>
      intro d d' h
      cases except_pure_eq_ok.mp h
      exact ⟨[], (List.append_nil _).symm, .slnil⟩
  | cons f fields ih =>
      intro d d' h
      rw [List.foldlM_cons] at h
      obtain ⟨d₁, hplace, h⟩ := except_bind_eq_ok.mp h
      obtain ⟨more, hmore, hsub⟩ := ih h
      rcases place_instances hplace with hsame | hnext
      · exact ⟨more, by rw [hmore, hsame], hsub.cons f⟩
      · exact ⟨f :: more, by rw [hmore, hnext]; simp, hsub.cons_cons f⟩

/-- The added instance fields stand in the order in which the definition declares them, and no
two fields of the definition have the same name and descriptor. -/
theorem placeAll_instances {s : Setting} {old : Schema} {c : ClassFile} {d : Draft}
    (h : placeAll s old c = .ok d) :
    d.instances.Sublist c.fields ∧ ∃ identities : List (String × String), identities.Nodup ∧
      List.Forall₂ (fun f id => f.identityIn c.pool = .ok id) c.fields identities := by
  obtain ⟨identities, hidentities, h⟩ := except_bind_eq_ok.mp h
  split at h
  · exact (except_throw_eq_ok.mp h).elim
  · next hfirst =>
    obtain ⟨more, hmore, hsub⟩ := foldlM_place_instances h
    rw [List.nil_append] at hmore
    refine ⟨hmore ▸ hsub, identities, (nodup_of_firstRepeated hfirst).1, ?_⟩
    exact except_mapM_eq_ok.mp (mapError_eq_ok.mp hidentities)

/-- What a reshaped definition says of its added instance fields. -/
structure Reshaped.Numbers (c : ClassFile) (r : Reshaped) : Prop where
  /-- They stand in the order of declaration. -/
  declared : ∃ identities : List (String × String), identities.Nodup ∧
    List.Forall₂ (fun f id => f.identityIn c.pool = .ok id) c.fields identities ∧
    (r.added.map AddedField.identity).Sublist identities
  /-- They are numbered in that order. -/
  numbered : r.added.map AddedField.ordinal = List.range' 0 r.added.length
  paired : r.added.length = r.draft.instances.length
  fits : r.layout.size = r.added.length

theorem reshape_numbers {s : Setting} {old : Schema} {c : ClassFile} {r : Reshaped}
    (hp : c.pool.Addressable) (h : reshape s old c = .ok r) : r.Numbers c := by
  obtain ⟨hgrowth, -⟩ := reshape_ok hp h
  obtain ⟨hd, -, hadded, hlayout, -⟩ := reshape_steps h
  obtain ⟨hinstances, identities, hnodup, hidentities⟩ := placeAll_instances hd
  have hrecords := addedRecords_ok hadded
  have hlength : r.added.length = r.draft.instances.length := by
    rw [← hrecords.length_eq, List.length_zipIdx]
  refine ⟨⟨identities, hnodup, hidentities, ?_⟩, ?_, hlength, ?_⟩
  · have hnamed : List.Forall₂ (fun f id => Member.identityIn r.shaped.pool f = .ok id)
        r.draft.instances (r.added.map AddedField.identity) := by
      rw [List.forall₂_map_right_iff, ← List.zipIdx_map_fst 0 r.draft.instances,
        List.forall₂_map_left_iff]
      refine hrecords.imp ?_
      rintro x record ⟨name, descriptor, hidentity, rfl⟩
      exact hidentity
    refine sublist_of_forall₂ hinstances hidentities hnamed ?_
    intro f id id' hid hid'
    have hlater := Member.identityIn_grown hid hgrowth
    exact Except.ok.inj (hlater.symm.trans hid')
  · rw [hlength, ← List.zipIdx_map_snd 0 r.draft.instances]
    refine (map_eq_of_forall₂ (hrecords.imp ?_)).symm
    rintro x record ⟨name, descriptor, -, rfl⟩
    rfl
  · exact StorageLayout.size_ofRecords hlayout

/-! ## §2 What a pass registers -/

/-- The context knows an accessor for each added field: that of the slot with its number. -/
structure Registered (o : Outcome) (context : Context) : Prop where
  ordinal : ∀ record ∈ o.added, record.ordinal = o.rank record.identity
  accessor : ∃ layout : StorageLayout, layout.size = o.added.length ∧
    ∀ record ∈ o.added, o.schema.accessor? context record.identity = some ⟨record.ordinal, layout⟩

theorem Registered.retained {o : Outcome} {c d : Context} (h : Registered o c)
    (hkept : c.Retains d) : Registered o d := by
  obtain ⟨hordinal, layout, hsize, haccessor⟩ := h
  refine ⟨hordinal, layout, hsize, fun record hrecord => ?_⟩
  have hfound := haccessor record hrecord
  unfold Schema.accessor? at hfound ⊢
  split at hfound
  · next proxy hproxy => exact hkept proxy _ hfound
  · cases hfound

theorem rank_lt {o : Outcome} {record : AddedField} (h : record ∈ o.added) :
    o.rank record.identity < o.added.length := by
  have hlt := List.idxOf_lt_length_of_mem (List.mem_map_of_mem (f := AddedField.identity) h)
  rwa [List.length_map] at hlt

/-- Different added fields have different numbers of fields before them. -/
theorem rank_inj {o : Outcome} {record : AddedField} {field : String × String}
    (h : record ∈ o.added) :
    o.rank record.identity = o.rank field ↔ record.identity = field :=
  ⟨fun heq => (List.idxOf_inj (List.mem_map_of_mem h)).mp heq, fun heq => by rw [heq]⟩

namespace Ran

variable {source : AnnotationSource} {old : Schema} {c : ClassFile} {r r' : Registries}
  {o : Outcome}

theorem ordinal_eq (t : Ran source old c r o r') (hp : c.pool.Addressable) :
    ∀ record ∈ o.added, record.ordinal = o.rank record.identity := by
  obtain ⟨⟨identities, hnodup, -, hsub⟩, hnumbered, -, -⟩ := reshape_numbers hp t.reshaped
  rw [← t.added] at hsub hnumbered
  intro record hrecord
  obtain ⟨k, hk, rfl⟩ := List.getElem_of_mem hrecord
  have hordinal : (o.added.map AddedField.ordinal)[k]? = some k := by
    rw [hnumbered, List.getElem?_range' hk]
    simp
  rw [List.getElem?_map, List.getElem?_eq_getElem hk, Option.map_some, Option.some.injEq]
    at hordinal
  have hrank := (hsub.nodup hnodup).idxOf_getElem k (by rwa [List.length_map])
  rw [List.getElem_map] at hrank
  rw [hordinal]
  exact hrank.symm

/-- Each record is that of the added instance field at its place. -/
theorem records (t : Ran source old c r o r') :
    List.Forall₂ (fun (record : AddedField) (f : Field) =>
      f.identityIn t.shape.shaped.pool = .ok record.identity) o.added t.shape.draft.instances := by
  obtain ⟨-, -, hrecorded, -⟩ := reshape_steps t.reshaped
  rw [t.added, ← List.zipIdx_map_fst 0 t.shape.draft.instances, List.forall₂_map_right_iff]
  refine (addedRecords_ok hrecorded).flip.imp ?_
  rintro record ⟨f, ordinal⟩ ⟨name, descriptor, hidentity, rfl⟩
  exact hidentity

/-- What is generated for an added instance field: an accessor class, and an entry that names it. -/
structure Proxied (t : Ran source old c r o r') (record : AddedField) (f : Field)
    (x : SchemaField × Pending) : Prop where
  identity : f.identityIn t.shape.shaped.pool = .ok record.identity
  made : ∃ proxy generated bytes,
    Generated.accessor t.shape.shaped.majorVersion proxy t.shape.shaped.pool f = .ok generated ∧
      generated.encode = .ok bytes ∧
      x = (⟨record.name, record.descriptor, f.access, .fake proxy⟩,
        .accessor ⟨t.setting.owner, proxy, ⟨record.ordinal, t.shape.layout⟩⟩ bytes)

/-- The accessor classes stand in the order of the records and of the fields. -/
theorem proxied_rows (t : Ran source old c r o r') :
    List.Forall₂ (fun record x => ∃ f ∈ t.shape.draft.instances, t.Proxied record f x) o.added
        t.proxied ∧
      List.Forall₂ (fun f x => ∃ record ∈ o.added, t.Proxied record f x) t.shape.draft.instances
        t.proxied := by
  have hmade := state_mapM_forall₂ t.generated
  rw [← t.added] at hmade
  obtain ⟨hrecords, hfields⟩ := forall₂_zip (forall₂_with_mem t.records) hmade
  have hproxied {record : AddedField} {f : Field} {x : SchemaField × Pending} {s s' : Registries}
      (hidentity : f.identityIn t.shape.shaped.pool = .ok record.identity)
      (h : generateAccessor t.setting t.shape.shaped t.shape.layout record f s = .ok x s') :
      t.Proxied record f x := by
    obtain ⟨proxy, generated, bytes, -, hclass, hencoded, hx, -⟩ := generateAccessor_steps h
    exact ⟨hidentity, proxy, generated, bytes, hclass, hencoded, hx⟩
  constructor
  · refine hrecords.imp ?_
    rintro record x ⟨f, ⟨-, hf, hidentity⟩, s, s', h⟩
    exact ⟨f, hf, hproxied hidentity h⟩
  · refine hfields.imp ?_
    rintro f x ⟨record, ⟨hrecord, -, hidentity⟩, s, s', h⟩
    exact ⟨record, hrecord, hproxied hidentity h⟩

/-- For each record there is an accessor class, and nothing else comes from a record. -/
theorem proxied_of_mem (t : Ran source old c r o r') :
    ∀ p ∈ t.proxied, ∃ record ∈ o.added, ∃ f : Field, ∃ proxy bytes,
      p = (⟨record.name, record.descriptor, f.access, .fake proxy⟩,
        .accessor ⟨t.setting.owner, proxy, ⟨record.ordinal, t.shape.layout⟩⟩ bytes) := by
  intro p hp
  obtain ⟨record, hrecord, f, -, -, proxy, generated, bytes, -, -, hp⟩ :=
    exists_left_of_forall₂ t.proxied_rows.1 hp
  exact ⟨record, hrecord, f, proxy, bytes, hp⟩

theorem exists_proxied (t : Ran source old c r o r') {record : AddedField}
    (h : record ∈ o.added) :
    ∃ p ∈ t.proxied, p.1.isNamed record.name record.descriptor = true := by
  obtain ⟨p, hp, f, -, -, proxy, generated, bytes, -, -, rfl⟩ :=
    exists_right_of_forall₂ t.proxied_rows.1 h
  exact ⟨_, hp, by simp [SchemaField.isNamed]⟩

theorem registered (t : Ran source old c r o r') (hp : c.pool.Addressable) :
    Registered o r'.context := by
  have hordinal := t.ordinal_eq hp
  obtain ⟨hcommit, -⟩ := conclude_ok t.concluded
  obtain ⟨-, -, hfound⟩ := Context.commit_ok hcommit
  have hsize := (reshape_numbers hp t.reshaped).fits
  rw [← t.added] at hsize
  refine ⟨hordinal, t.shape.layout, hsize, fun record hrecord => ?_⟩
  obtain ⟨p₀, hp₀, hnamed₀⟩ := t.exists_proxied hrecord
  obtain ⟨e, he⟩ : ∃ e, (t.proxied.map Prod.fst).find?
      (·.isNamed record.name record.descriptor) = some e :=
    Option.isSome_iff_exists.mp
      (List.find?_isSome.mpr ⟨p₀.1, List.mem_map_of_mem hp₀, hnamed₀⟩)
  obtain ⟨p, hmem, rfl⟩ := List.mem_map.mp (List.mem_of_find?_eq_some he)
  have hnamed := List.find?_some he
  obtain ⟨record', hrecord', f, proxy, bytes, rfl⟩ := t.proxied_of_mem p hmem
  simp only [SchemaField.isNamed, Bool.and_eq_true, beq_iff_eq] at hnamed
  have hsame : record'.identity = record.identity := Prod.ext hnamed.1 hnamed.2
  have hslot : record'.ordinal = record.ordinal := by
    rw [hordinal record' hrecord', hordinal record hrecord, hsame]
  have hpending : Pending.accessor ⟨t.setting.owner, proxy, ⟨record'.ordinal, t.shape.layout⟩⟩
      bytes ∈ t.proxied.map Prod.snd ++ t.held.filterMap Held.pending :=
    List.mem_append_left _ (List.mem_map_of_mem hmem)
  have haccessor := hfound _ _ hpending
  rw [hslot] at haccessor
  rw [Schema.accessor?, t.fakeFields_eq, List.find?_append]
  simp only [AddedField.identity, he, Option.some_or]
  exact haccessor

/-- Whatever accessors there were are there still. -/
theorem retains (t : Ran source old c r o r') : r.context.Retains r'.context := by
  obtain ⟨hcommit, -⟩ := conclude_ok t.concluded
  obtain ⟨hkept, -⟩ := Context.commit_ok hcommit
  intro proxy a ha
  refine hkept proxy a ?_
  rw [Context.accessor?, t.accessors_afterHolders]
  exact ha

end Ran

/-! ## §3 Chains of passes in one context -/

/-- Passes made one after the other, each from the schema that the one before it left.  Between
them the context may learn more accessors. -/
inductive Lifetime (start : Schema) : List Outcome → Schema → Context → Prop
  | loaded {context : Context} : Lifetime start [] start context
  | pass {outcomes : List Outcome} {s : Schema} {context : Context} {source : AnnotationSource}
      {c : ClassFile} {r r' : Registries} {o : Outcome}
      (before : Lifetime start outcomes s context) (kept : context.Retains r.context)
      (addressable : c.pool.Addressable) (ran : run source s c r = .ok o r') :
      Lifetime start (outcomes ++ [o]) o.schema r'.context

/-- The accessors of all passes stay registered. -/
theorem Lifetime.registered {start last : Schema} {outcomes : List Outcome} {context : Context}
    (h : Lifetime start outcomes last context) : ∀ o ∈ outcomes, Registered o context := by
  induction h with
  | loaded => exact nofun
  | pass before kept addressable ran ih =>
      obtain ⟨t⟩ := run_ok ran
      intro o ho
      rcases List.mem_append.mp ho with ho | ho
      · exact (ih o ho).retained (kept.trans t.retains)
      · cases List.mem_singleton.mp ho
        exact t.registered addressable

/-- **Fields that stay added.**  Take two passes of a chain, and a field that both of them add.
Each has an accessor for it.  The two records have the same ordinal, and the later accessor reads
what was last written through the earlier one, whatever is written to the other added fields in
between, exactly if both definitions add as many fields before this one. -/
theorem kept_iff_rank_eq {start last : Schema} {outcomes : List Outcome} {context : Context}
    {o₁ o₂ : Outcome} {record₁ record₂ : AddedField} {field : String × String}
    (chain : Lifetime start outcomes last context) (h₁ : o₁ ∈ outcomes) (h₂ : o₂ ∈ outcomes)
    (hrecord₁ : record₁ ∈ o₁.added) (hrecord₂ : record₂ ∈ o₂.added)
    (hfield₁ : record₁.identity = field) (hfield₂ : record₂.identity = field) :
    ∃ a₁ a₂, o₁.schema.accessor? context field = some a₁ ∧
      o₂.schema.accessor? context field = some a₂ ∧
      (record₁.ordinal = record₂.ordinal ↔ o₁.rank field = o₂.rank field) ∧
      (a₁.Keeps a₂ (fun a => o₁.Others context field a ∨ o₂.Others context field a) ↔
        o₁.rank field = o₂.rank field) := by
  obtain ⟨hordinal₁, layout₁, hsize₁, haccessor₁⟩ := chain.registered o₁ h₁
  obtain ⟨hordinal₂, layout₂, hsize₂, haccessor₂⟩ := chain.registered o₂ h₂
  have hrank₁ : record₁.ordinal = o₁.rank field := by rw [hordinal₁ _ hrecord₁, hfield₁]
  have hrank₂ : record₂.ordinal = o₂.rank field := by rw [hordinal₂ _ hrecord₂, hfield₂]
  refine ⟨⟨record₁.ordinal, layout₁⟩, ⟨record₂.ordinal, layout₂⟩,
    hfield₁ ▸ haccessor₁ _ hrecord₁, hfield₂ ▸ haccessor₂ _ hrecord₂, ?_, ?_⟩
  · rw [hrank₁, hrank₂]
  · have hin₁ : Accessor.InLayout ⟨record₁.ordinal, layout₁⟩ := by
      rw [Accessor.InLayout, hsize₁, hordinal₁ _ hrecord₁]
      exact rank_lt hrecord₁
    have hin₂ : Accessor.InLayout ⟨record₂.ordinal, layout₂⟩ := by
      rw [Accessor.InLayout, hsize₂, hordinal₂ _ hrecord₂]
      exact rank_lt hrecord₂
    rw [Accessor.keeps_iff hin₁ hin₂, hrank₁, hrank₂]
    rintro a (⟨record, hrecord, hother, ha⟩ | ⟨record, hrecord, hother, ha⟩) hsame
    · cases (haccessor₁ record hrecord).symm.trans ha
      intro heq
      rw [hordinal₁ record hrecord] at heq
      exact hother ((rank_inj hrecord).mp (heq.trans hrank₁))
    · cases (haccessor₂ record hrecord).symm.trans ha
      intro heq
      rw [hordinal₂ record hrecord] at heq
      exact hother ((rank_inj hrecord).mp ((heq.trans hsame).trans hrank₂))

/-- The first pass adds `x` and `y`; the second drops `x`, and `y` does not keep its value. -/
theorem second_field_not_kept :
    ∃ (o o' : Outcome) (context : Context) (a a' : Accessor),
      Lifetime ⟨"A", [storageEntry {}]⟩ [o, o'] o'.schema context ∧
      o.added.map (fun r => (r.name, r.ordinal)) = [("x", 0), ("y", 1)] ∧
      o'.added.map (fun r => (r.name, r.ordinal)) = [("y", 0)] ∧
      o.schema.accessor? context ("y", "I") = some a ∧
      o'.schema.accessor? context ("y", "I") = some a' ∧
      ¬ a.Keeps a' (fun b => o.Others context ("y", "I") b ∨ o'.Others context ("y", "I") b) := by
  have runs : ((succeeded (run noAnnotations ⟨"A", [storageEntry {}]⟩ (sample [10, 12])
      (.start {} "app"))).any fun (o, r) =>
        o.added == [⟨0, "x", "I", "A", "app"⟩, ⟨1, "y", "I", "A", "app"⟩] &&
        (succeeded (run noAnnotations o.schema (sample [12]) r)).any fun (o', _) =>
          o'.added == [⟨0, "y", "I", "A", "app"⟩]) = true := by
    decide +kernel
  obtain ⟨⟨o, r⟩, ran₁, h⟩ := (Option.any_eq_true _ _).mp runs
  rw [Bool.and_eq_true, beq_iff_eq] at h
  obtain ⟨hadded, h⟩ := h
  obtain ⟨⟨o', r'⟩, ran₂, hadded'⟩ := (Option.any_eq_true _ _).mp h
  rw [beq_iff_eq] at hadded'
  have small (names : List UInt16) : (sample names).pool.Addressable := by
    show 13 ≤ 65536
    decide
  have chain : Lifetime ⟨"A", [storageEntry {}]⟩ [o, o'] o'.schema r'.context :=
    .pass (.pass .loaded (.refl _) (small _) (eq_ok_of_succeeded ran₁)) (.refl _) (small _)
      (eq_ok_of_succeeded ran₂)
  have hy : (⟨1, "y", "I", "A", "app"⟩ : AddedField) ∈ o.added := by simp [hadded]
  have hy' : (⟨0, "y", "I", "A", "app"⟩ : AddedField) ∈ o'.added := by simp [hadded']
  have hfield (n : Nat) : (⟨n, "y", "I", "A", "app"⟩ : AddedField).identity = ("y", "I") := rfl
  obtain ⟨a, a', ha, ha', -, hkeeps⟩ := kept_iff_rank_eq chain List.mem_cons_self
    (List.mem_cons_of_mem _ List.mem_cons_self) hy hy' (hfield 1) (hfield 0)
  refine ⟨o, o', r'.context, a, a', chain, by simp [hadded], by simp [hadded'], ha, ha', ?_⟩
  rw [hkeeps, Outcome.rank, Outcome.rank, hadded, hadded']
  decide

end Pass

end Reshape
