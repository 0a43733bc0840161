import Mathlib.Data.List.Perm.Basic
import Reshape.Proofs.Redefinition.Matching
import Reshape.Proofs.Redefinition.Naming

/-!
# What becomes of the fields

A pass leaves none of the fields out and counts none twice: a field of the new definition takes the
place of an old one, or it is added, and an old field has its place taken, or it is removed.  Which
of these it is can be read off the old schema and the names, descriptors and flags of the new
fields.  So the order in which the new definition declares its fields makes a difference to nothing
but the order of the fields that are added.
-/

namespace Reshape

def StaticRedirect.identity (x : StaticRedirect) : String × String := (x.name, x.descriptor)

def RemovedField.identity (x : RemovedField) : String × String := (x.name, x.descriptor)

/-- The request without its number. -/
def AddedField.unnumbered (x : AddedField) : AddedField := { x with ordinal := 0 }

/-- The request for a field that is added to objects, but for its number. -/
def Candidate.addition (owner loader : String) (x : Candidate) : AddedField :=
  ⟨0, x.name, x.descriptor, owner, loader⟩

/-- The request for a static field that is added, but for its holder. -/
def Candidate.redirect (owner loader : String) (x : Candidate) : StaticRedirect :=
  ⟨owner, "", x.name, x.descriptor, loader⟩

/-- The request for a field that is removed. -/
def SchemaField.removal (owner loader : String) (e : SchemaField) : RemovedField :=
  ⟨owner, e.name, e.descriptor, e.access, loader⟩

/-! ## §1 Parts of a row without repetitions -/

section Parts

variable {α β : Type} [BEq β] [LawfulBEq β] {f : α → β} {as : List α}

/-- An item is in a part of a row once if the part takes it, and else not at all. -/
theorem count_map_filter (h : (as.map f).Nodup) (p : α → Bool) {a : α} (ha : a ∈ as) :
    ((as.filter p).map f).count (f a) = if p a then 1 else 0 := by
  rw [(h.sublist (List.filter_sublist.map f)).count]
  refine if_congr ?_ rfl rfl
  constructor
  · intro hmem
    obtain ⟨b, hb, hfb⟩ := List.mem_map.mp hmem
    obtain ⟨hb, hp⟩ := List.mem_filter.mp hb
    exact List.inj_on_of_nodup_map h hb ha hfb ▸ hp
  · exact fun hp => List.mem_map_of_mem (List.mem_filter.mpr ⟨ha, hp⟩)

/-- At most one item has a property that only items of one image have. -/
theorem countP_of_image (h : (as.map f).Nodup) {p : α → Bool} {b : β}
    (hp : ∀ a ∈ as, p a = true → f a = b) : as.countP p = if as.any p then 1 else 0 := by
  have hle : as.countP p ≤ 1 := by
    calc as.countP p ≤ as.countP fun a => f a == b :=
          List.countP_mono_left fun a ha hpa => beq_iff_eq.mpr (hp a ha hpa)
      _ = (as.map f).count b := by rw [List.count, List.countP_map]; rfl
      _ ≤ 1 := List.nodup_iff_count_le_one.mp h b
  by_cases hany : as.any p = true
  · rw [if_pos hany]
    obtain ⟨a, ha, hpa⟩ := List.any_eq_true.mp hany
    have hpos := List.countP_pos_iff.mpr ⟨a, ha, hpa⟩
    omega
  · rw [if_neg hany]
    exact List.countP_eq_zero.mpr fun a ha hpa => hany (List.any_eq_true.mpr ⟨a, ha, hpa⟩)

end Parts

/-- The items of a row by whether they match, and those that do not by whether they are static. -/
theorem partition_perm {α : Type} (matched static : α → Bool) (as : List α) :
    (as.filter matched ++ (as.filter (fun a => !matched a && !static a) ++
      as.filter fun a => !matched a && static a)).Perm as := by
  have hrest := List.filter_append_perm (fun a => !static a) (as.filter fun a => !matched a)
  simp only [List.filter_filter, Bool.not_not] at hrest
  have hsplit := List.filter_append_perm matched as
  refine List.Perm.trans (List.Perm.append_left _ ?_) hsplit
  simpa only [Bool.and_comm] using hrest

namespace Pass

/-- The entries of the old schema whose places are taken by fields of the new definition. -/
def Draft.matched (d : Draft) : List SchemaField :=
  (d.seats.filter (·.occupant.isSome)).map Seat.entry

/-! ## §2 One pass -/

namespace Draft.Accounts

variable {s : Setting} {old : Schema} {p : Pool} {xs : List Candidate} {d : Draft}
  (hd : d.Accounts s old p xs)
include hd

/-- What holds of some seats can be told by their entries and whether they are taken. -/
theorem filter_seats (q : SchemaField × Bool → Bool) :
    (d.seats.filter fun seat => q (seat.entry, seat.occupant.isSome)).map Seat.entry =
      old.fields.filter fun e =>
        q (e, e.isMatchable s.config.storageName && xs.any e.accepts) := by
  have htaken := congrArg (fun rows => (rows.filter q).map Prod.fst) hd.taken
  simpa [List.filter_map, List.map_map, Function.comp_def] using htaken

theorem matched_eq : d.matched = old.fields.filter fun e =>
    e.isMatchable s.config.storageName && xs.any e.accepts :=
  hd.filter_seats Prod.snd

theorem removals_eq : removals s d.seats =
    (old.fields.filter fun e => e.isMatchable s.config.storageName && !xs.any e.accepts).map
      (SchemaField.removal s.owner s.loader) := by
  have hopen := hd.filter_seats fun x => x.1.isMatchable s.config.storageName && !x.2
  have hsame (e : SchemaField) : (e.isMatchable s.config.storageName &&
      !(e.isMatchable s.config.storageName && xs.any e.accepts)) =
        (e.isMatchable s.config.storageName && !xs.any e.accepts) := by
    cases e.isMatchable s.config.storageName <;> rfl
  simp only [hsame] at hopen
  rw [← hopen, List.map_map, removals]
  simp only [Seat.isOpen, SchemaField.isMatchable, Option.not_isSome]
  rfl

end Draft.Accounts

/-- A normal field is kept as it is only if its place is taken. -/
theorem filter_keptFields (storageName : String) (seats : List Seat) :
    (keptFields storageName seats).filter (·.isMatchable storageName) =
      (seats.filter fun seat =>
        seat.entry.isMatchable storageName && seat.occupant.isSome).map Seat.entry := by
  induction seats with
  | nil => rfl
  | cons seat seats ih =>
      rw [keptFields] at ih ⊢
      rw [List.filterMap_cons]
      have hopen : seat.isOpen storageName =
          (seat.entry.isMatchable storageName && seat.occupant.isNone) := rfl
      rw [hopen]
      by_cases hfake : seat.entry.isFake = true
      · have hm : seat.entry.isMatchable storageName = false :=
          Bool.eq_false_iff.mpr fun hm => by simp [SchemaField.isFake_of_isMatchable hm] at hfake
        simpa [hfake, hm] using ih
      · cases hm : seat.entry.isMatchable storageName with
        | false => simpa [hfake, hm] using ih
        | true =>
            cases hoccupant : seat.occupant with
            | some f => simpa [hfake, hm, hoccupant] using ih
            | none =>
                have hremoved : seat.entry.toRemoved.isMatchable storageName = false := rfl
                simpa [hfake, hm, hoccupant, hremoved] using ih

/-- Neither the storage field nor what a pass adds can be matched by the next pass. -/
theorem Ran.filter_isMatchable_schema {source : AnnotationSource} {old : Schema} {c : ClassFile}
    {r r' : Registries} {o : Outcome} (t : Ran source old c r o r') :
    o.schema.fields.filter (·.isMatchable t.setting.config.storageName) =
      (keptFields t.setting.config.storageName t.shape.draft.seats).filter
        (·.isMatchable t.setting.config.storageName) := by
  have hconfig : r.context.config = t.setting.config := by rw [t.fixed]
  have hgenerated : (t.proxied.map Prod.fst ++ t.held.map Held.entry).filter
      (·.isMatchable t.setting.config.storageName) = [] := by
    refine List.filter_eq_nil_iff.mpr fun e he hm => ?_
    have hfake := t.isFake_of_mem_generated e he
    simp [SchemaField.isFake_of_isMatchable hm] at hfake
  have hstorage : (if t.shape.appendsStorage then [storageEntry t.setting.config] else []).filter
      (·.isMatchable t.setting.config.storageName) = [] := by
    cases t.shape.appendsStorage <;> simp [SchemaField.isMatchable, storageEntry]
  rw [t.schema_fields, Ran.declared, hconfig, List.filter_append, List.filter_append, hgenerated,
    hstorage, List.append_nil, List.append_nil]

/-- What a pass makes of its candidates and of the entries of the old schema. -/
structure Classified (s : Setting) (old : Schema) (xs : List Candidate) (taken : List SchemaField)
    (o : Outcome) : Prop where
  identities : (xs.map Candidate.identity).Nodup
  distinct : old.Distinct
  matched : taken = old.fields.filter fun e =>
    e.isMatchable s.config.storageName && xs.any e.accepts
  kept : o.schema.fields.filter (·.isMatchable s.config.storageName) = taken
  removed : o.removed =
    (old.fields.filter fun e => e.isMatchable s.config.storageName && !xs.any e.accepts).map
      (SchemaField.removal s.owner s.loader)
  redirected : o.redirected.map StaticRedirect.unnamed =
    (xs.filter fun x => !old.hasMatch s.config.storageName x && x.access.isStatic).map
      (Candidate.redirect s.owner s.loader)
  added : o.added.map AddedField.unnumbered =
    (xs.filter fun x => !old.hasMatch s.config.storageName x && !x.access.isStatic).map
      (Candidate.addition s.owner s.loader)
  refused : s.config.accessPolicy = .reject → ∀ x ∈ xs, ∀ e ∈ old.fields,
    e.isMatchable s.config.storageName = true → e.identity = x.identity → e.accepts x = true

theorem Ran.classified {source : AnnotationSource} {old : Schema} {c : ClassFile}
    {r r' : Registries} {o : Outcome} (t : Ran source old c r o r') (hp : c.pool.Addressable) :
    ∃ xs, c.candidates t.setting.config.storageName = .ok xs ∧
      Classified t.setting old xs t.shape.draft.matched o := by
  have hdistinct := distinct_of_reshape hp t.reshaped
  obtain ⟨hplaced, -, hrecorded, -⟩ := reshape_steps t.reshaped
  obtain ⟨xs, hxs, hnodup, hd⟩ := placeAll_accounts hdistinct hplaced
  obtain ⟨hgrowth, -⟩ := reshape_ok hp t.reshaped
  refine ⟨xs, hxs, hnodup, hdistinct, hd.matched_eq, ?_, ?_, ?_, ?_, hd.refused⟩
  · have hkept := hd.filter_seats fun x => x.1.isMatchable t.setting.config.storageName && x.2
    simp only [Bool.and_self_left] at hkept
    rw [t.filter_isMatchable_schema, filter_keptFields, hkept, hd.matched_eq]
  · rw [t.removed, hd.removals_eq]
  · rw [t.redirected, List.map_map]
    refine map_eq_map_of_forall₂ (state_mapM_forall₂ t.holding) hd.statics ?_
    rintro f held x ⟨u, u', hmade⟩ hx
    obtain ⟨hheld, -⟩ := holdStatic_made hmade
    obtain ⟨hname, hdescriptor⟩ := hheld.named hgrowth hx
    rw [Function.comp_apply, hheld.redirect_unnamed, hname, hdescriptor]
    rfl
  · rw [t.added]
    have hrecords := addedRecords_ok hrecorded
    have hinstances := hd.instances
    rw [← List.zipIdx_map_fst 0 t.shape.draft.instances, List.forall₂_map_left_iff] at hinstances
    refine map_eq_map_of_forall₂ hrecords hinstances ?_
    rintro ⟨f, ordinal⟩ record x ⟨name, descriptor, hidentity, rfl⟩ hx
    cases hidentity.symm.trans (Field.identityIn_of_candidateIn hgrowth hx)
    rfl

/-! ## §3 Every field once -/

namespace Classified

variable {s : Setting} {old : Schema} {xs : List Candidate} {taken : List SchemaField}
  {o : Outcome} (h : Classified s old xs taken o)
include h

theorem matched_eq_filter : taken = (old.fields.filter (·.isMatchable s.config.storageName)).filter
    fun e => xs.any e.accepts := by
  rw [h.matched, List.filter_filter]
  exact List.filter_congr fun e _ => Bool.and_comm _ _

theorem removed_eq_filter : o.removed.map RemovedField.identity =
    ((old.fields.filter (·.isMatchable s.config.storageName)).filter
      fun e => !xs.any e.accepts).map SchemaField.identity := by
  rw [h.removed, List.map_map, List.filter_filter]
  refine congrArg _ (List.filter_congr fun e _ => Bool.and_comm _ _)

theorem redirected_eq : o.redirected.map StaticRedirect.identity =
    (xs.filter fun x => !old.hasMatch s.config.storageName x && x.access.isStatic).map
      Candidate.identity := by
  have hsame := congrArg (List.map StaticRedirect.identity) h.redirected
  rwa [List.map_map, List.map_map] at hsame

theorem added_eq : o.added.map AddedField.identity =
    (xs.filter fun x => !old.hasMatch s.config.storageName x && !x.access.isStatic).map
      Candidate.identity := by
  have hsame := congrArg (List.map AddedField.identity) h.added
  rwa [List.map_map, List.map_map] at hsame

/-- A candidate is matched, once, if the old schema has a match for it. -/
theorem count_matched {x : Candidate} (hx : x ∈ xs) :
    (taken.map SchemaField.identity).count x.identity =
      if old.hasMatch s.config.storageName x then 1 else 0 := by
  rw [h.matched_eq_filter]
  by_cases hmatch : old.hasMatch s.config.storageName x = true
  · rw [if_pos hmatch]
    obtain ⟨e, he, hboth⟩ := List.any_eq_true.mp hmatch
    rw [Bool.and_eq_true] at hboth
    rw [← SchemaField.identity_of_accepts hboth.2,
      count_map_filter (h.distinct.matchable _) _ (List.mem_filter.mpr ⟨he, hboth.1⟩),
      if_pos (List.any_eq_true.mpr ⟨x, hx, hboth.2⟩)]
  · rw [if_neg hmatch, List.count_eq_zero]
    intro hmem
    obtain ⟨e, he, hsame⟩ := List.mem_map.mp hmem
    obtain ⟨he, hany⟩ := List.mem_filter.mp he
    obtain ⟨he, hm⟩ := List.mem_filter.mp he
    obtain ⟨y, hy, haccepts⟩ := List.any_eq_true.mp hany
    have hyx : y = x := List.inj_on_of_nodup_map h.identities hy hx
      ((SchemaField.identity_of_accepts haccepts).symm.trans hsame)
    exact hmatch (List.any_eq_true.mpr ⟨e, he, by simp [hm, hyx ▸ haccepts]⟩)

theorem mem_matched {e : SchemaField} (he : e ∈ old.fields)
    (hm : e.isMatchable s.config.storageName = true) :
    e ∈ taken ↔ xs.any e.accepts = true := by
  simp [h.matched, he, hm]

theorem countP_accepts (e : SchemaField) :
    xs.countP e.accepts = if xs.any e.accepts then 1 else 0 :=
  countP_of_image h.identities fun _ _ haccepts =>
    (SchemaField.identity_of_accepts haccepts).symm

end Classified

/-- Every field of the old schema and of the new definition has one fate, and what it is depends on
names, descriptors and flags only. -/
structure Partition (s : Setting) (old : Schema) (xs : List Candidate) (d : Draft) (o : Outcome) :
    Prop where
  /-- A candidate is matched, held by a generated class or added to objects. -/
  candidates : ∀ x ∈ xs,
    (d.matched.map SchemaField.identity).count x.identity =
      (if old.hasMatch s.config.storageName x then 1 else 0) ∧
    (o.redirected.map StaticRedirect.identity).count x.identity =
      (if !old.hasMatch s.config.storageName x && x.access.isStatic then 1 else 0) ∧
    (o.added.map AddedField.identity).count x.identity =
      if !old.hasMatch s.config.storageName x && !x.access.isStatic then 1 else 0
  /-- Where a change of flags is refused, nothing that keeps its name is added. -/
  refused : s.config.accessPolicy = .reject → ∀ x ∈ xs, ∀ e ∈ old.fields,
    e.isNormal = true → e.identity = x.identity →
      x.identity ∉ o.redirected.map StaticRedirect.identity ∧
      x.identity ∉ o.added.map AddedField.identity
  /-- A normal field is matched or removed. -/
  entries : ∀ e ∈ old.fields, e.isMatchable s.config.storageName = true →
    (e ∈ d.matched ∧ xs.countP e.accepts = 1 ∧
      (o.removed.map RemovedField.identity).count e.identity = 0) ∨
    (e ∉ d.matched ∧ xs.countP e.accepts = 0 ∧
      (o.removed.map RemovedField.identity).count e.identity = 1)
  removed : o.removed =
    (old.fields.filter fun e => e.isMatchable s.config.storageName && e ∉ d.matched).map
      (SchemaField.removal s.owner s.loader)
  kept : o.schema.fields.filter (·.isMatchable s.config.storageName) = d.matched

theorem Classified.partition {s : Setting} {old : Schema} {xs : List Candidate} {d : Draft}
    {o : Outcome} (h : Classified s old xs d.matched o)
    (hothers : ∀ x ∈ xs, x.name ≠ s.config.storageName) : Partition s old xs d o := by
  have hredirected {x : Candidate} (hx : x ∈ xs) :
      (o.redirected.map StaticRedirect.identity).count x.identity =
        if !old.hasMatch s.config.storageName x && x.access.isStatic then 1 else 0 := by
    rw [h.redirected_eq]
    exact count_map_filter h.identities _ hx
  have hadded {x : Candidate} (hx : x ∈ xs) :
      (o.added.map AddedField.identity).count x.identity =
        if !old.hasMatch s.config.storageName x && !x.access.isStatic then 1 else 0 := by
    rw [h.added_eq]
    exact count_map_filter h.identities _ hx
  refine ⟨fun x hx => ⟨h.count_matched hx, hredirected hx, hadded hx⟩, ?_, ?_, ?_, h.kept⟩
  · intro hreject x hx e he hnormal hsame
    have hname : e.name = x.name := congrArg Prod.fst hsame
    have hm : e.isMatchable s.config.storageName = true := by
      simp [SchemaField.isMatchable, hnormal, hname, hothers x hx]
    have hmatch : old.hasMatch s.config.storageName x = true :=
      List.any_eq_true.mpr ⟨e, he, by simp [hm, h.refused hreject x hx e he hm hsame]⟩
    constructor
    · rw [← List.count_eq_zero, hredirected hx]
      simp [hmatch]
    · rw [← List.count_eq_zero, hadded hx]
      simp [hmatch]
  · intro e he hm
    have hcount : (o.removed.map RemovedField.identity).count e.identity =
        if !xs.any e.accepts then 1 else 0 := by
      rw [h.removed_eq_filter]
      exact count_map_filter (h.distinct.matchable _) _ (List.mem_filter.mpr ⟨he, hm⟩)
    rw [h.mem_matched he hm, h.countP_accepts, hcount]
    cases xs.any e.accepts with
    | true => exact .inl ⟨rfl, rfl, rfl⟩
    | false => exact .inr ⟨Bool.false_ne_true, rfl, rfl⟩
  · rw [h.removed]
    refine congrArg _ (List.filter_congr fun e he => ?_)
    cases hm : e.isMatchable s.config.storageName with
    | false => rfl
    | true => simp only [h.mem_matched he hm, Bool.true_and, Bool.not_eq_true, Bool.decide_eq_false]

/-! ## §4 Another order -/

theorem candidates_eq_ok {storageName : String} {c : ClassFile} {xs : List Candidate} :
    c.candidates storageName = .ok xs ↔
      ∃ ys, List.Forall₂ (fun f x => Field.candidateIn c.pool f = .ok x) c.fields ys ∧
        ys.filter (·.name != storageName) = xs := by
  rw [ClassFile.candidates, except_bind_eq_ok]
  simp only [except_mapM_eq_ok, except_pure_eq_ok]

/-- Fields in another order are candidates in another order. -/
theorem candidates_perm {storageName : String} {c : ClassFile} {fields : List Field}
    {xs ys : List Candidate} (hperm : fields.Perm c.fields)
    (hxs : c.candidates storageName = .ok xs)
    (hys : ClassFile.candidates storageName { c with fields } = .ok ys) : ys.Perm xs := by
  obtain ⟨xs', hread, rfl⟩ := candidates_eq_ok.mp hxs
  obtain ⟨ys', hread', rfl⟩ := candidates_eq_ok.mp hys
  obtain ⟨zs, hzs, hsame⟩ := List.perm_comp_forall₂ hperm hread
  have hyz : ys' = zs :=
    Except.ok.inj ((except_mapM_eq_ok.mpr hread').symm.trans (except_mapM_eq_ok.mpr hzs))
  exact (hyz ▸ hsame).filter _

/-- Nothing but the order of the fields that are added differs, and with it the numbers of their
slots and the names of their holders. -/
structure Rearranged (storageName : String) (o o' : Outcome) : Prop where
  removed : o'.removed = o.removed
  kept : o'.schema.fields.filter (·.isMatchable storageName) =
    o.schema.fields.filter (·.isMatchable storageName)
  table : o'.schema.fieldTable = o.schema.fieldTable
  redirected : (o'.redirected.map StaticRedirect.unnamed).Perm
    (o.redirected.map StaticRedirect.unnamed)
  added : (o'.added.map AddedField.unnumbered).Perm (o.added.map AddedField.unnumbered)

theorem Ran.rearranged {source : AnnotationSource} {old : Schema} {c : ClassFile}
    {fields : List Field} {r r' r'' : Registries} {o o' : Outcome} (t : Ran source old c r o r')
    (t' : Ran source old { c with fields } r o' r'') (hp : c.pool.Addressable)
    (hperm : fields.Perm c.fields) : Rearranged r.context.config.storageName o o' := by
  obtain ⟨xs, hxs, h⟩ := t.classified hp
  obtain ⟨ys, hys, h'⟩ := t'.classified hp
  have howner : t'.owner = t.owner := Except.ok.inj (t'.named.symm.trans t.named)
  have hsetting : t'.setting = t.setting := by rw [t.fixed, t'.fixed, howner]
  rw [hsetting] at hys h'
  have hcandidates := candidates_perm hperm hxs hys
  have hany (e : SchemaField) : ys.any e.accepts = xs.any e.accepts := hcandidates.any_eq
  have hstorage : r.context.config.storageName = t.setting.config.storageName := by rw [t.fixed]
  have hadded : (o'.added.map AddedField.unnumbered).Perm (o.added.map AddedField.unnumbered) := by
    rw [h.added, h'.added]
    exact (hcandidates.filter _).map _
  refine ⟨?_, ?_, ?_, ?_, hadded⟩
  · rw [h.removed, h'.removed]
    simp only [hany]
  · rw [hstorage, h.kept, h'.kept, h.matched, h'.matched]
    simp only [hany]
  · have hnone : o'.added = [] ↔ o.added = [] := by
      have hlength := hadded.length_eq
      rw [List.length_map, List.length_map] at hlength
      rw [← List.length_eq_zero_iff, hlength, List.length_eq_zero_iff]
    rw [t.fieldTable_grown hp, t'.fieldTable_grown hp]
    simp only [ne_eq, hnone]
  · rw [h.redirected, h'.redirected]
    exact (hcandidates.filter _).map _

/-- **Classification is a partition.**  If a pass succeeds, each field of the new definition but the
storage field is matched, held by a generated class or added to objects, exactly one of these, and
each normal field of the old schema but the storage field is matched by one field or removed; what
it is depends on names, descriptors and flags only.  The fields in another order give the same
removals, the same field table and the same added fields in another order. -/
theorem classification_partition {source : AnnotationSource} {old : Schema} {c : ClassFile}
    {r r' : Registries} {o : Outcome} (hp : c.pool.Addressable)
    (ran : run source old c r = .ok o r') :
    (∃ owner d xs, c.name = .ok owner ∧
      placeAll ⟨owner, r.context.loader, r.context.config, source⟩ old c = .ok d ∧
      c.candidates r.context.config.storageName = .ok xs ∧
      Partition ⟨owner, r.context.loader, r.context.config, source⟩ old xs d o) ∧
    ∀ (fields : List Field) (o' : Outcome) (r'' : Registries), fields.Perm c.fields →
      run source old { c with fields } r = .ok o' r'' →
      Rearranged r.context.config.storageName o o' ∧
      ∃ w w' table, written source r.context old c = .ok w ∧
        written source r.context old { c with fields } = .ok w' ∧
        w.encode = .ok o.bytes ∧ w'.encode = .ok o'.bytes ∧
        w.fieldTable = .ok table ∧ w'.fieldTable = .ok table := by
  obtain ⟨t⟩ := run_ok ran
  constructor
  · obtain ⟨xs, hxs, h⟩ := t.classified hp
    obtain ⟨hplaced, -⟩ := reshape_steps t.reshaped
    have hothers : ∀ x ∈ xs, x.name ≠ t.setting.config.storageName := by
      obtain ⟨ys, -, rfl⟩ := candidates_eq_ok.mp hxs
      exact fun x hx => by simpa using (List.mem_filter.mp hx).2
    have hpartition := h.partition hothers
    rw [t.fixed] at hxs hplaced hpartition
    exact ⟨t.owner, t.shape.draft, xs, t.named, hplaced, hxs, hpartition⟩
  · intro fields o' r'' hperm ran'
    obtain ⟨t'⟩ := run_ok ran'
    have hsame := t.rearranged t' hp hperm
    refine ⟨hsame, t.written, t'.written, o.schema.fieldTable, t.written_eq, t'.written_eq,
      t.encoded, t'.encoded, t.fieldTable_written hp, ?_⟩
    rw [← hsame.table]
    exact t'.fieldTable_written hp

/-- A definition that declares a field which was loaded, a static field and a field of objects. -/
def threeFields : ClassFile :=
  { sample [] with fields := [⟨⟨1⟩, 10, 11, []⟩, ⟨⟨9⟩, 12, 11, []⟩, ⟨⟨1⟩, 7, 11, []⟩] }

/-- What was loaded is the first of the fields, the storage field and a field that is gone. -/
def twoLoaded : Schema :=
  ⟨"A", [⟨"x", "I", ⟨1⟩, .normal⟩, storageEntry {}, ⟨"z", "I", ⟨1⟩, .normal⟩]⟩

theorem classification_partition_threeFields :
    ∃ o o' r r', run noAnnotations twoLoaded threeFields (.start {} "app") = .ok o r ∧
      run noAnnotations twoLoaded { threeFields with fields := threeFields.fields.reverse }
        (.start {} "app") = .ok o' r' ∧
      o.added.map AddedField.identity = [("Code", "I")] ∧
      o.redirected.map StaticRedirect.identity = [("y", "I")] ∧
      o.removed.map RemovedField.identity = [("z", "I")] ∧
      (∃ s xs d, Partition s twoLoaded xs d o) ∧ Rearranged ({} : Config).storageName o o' := by
  have runs : ((succeeded (run noAnnotations twoLoaded threeFields (.start {} "app"))).any
      fun x => x.1.added.map AddedField.identity == [("Code", "I")] &&
        x.1.redirected.map StaticRedirect.identity == [("y", "I")] &&
        x.1.removed.map RemovedField.identity == [("z", "I")]) = true := by
    decide +kernel
  have reversed : (succeeded (run noAnnotations twoLoaded
      { threeFields with fields := threeFields.fields.reverse } (.start {} "app"))).isSome =
        true := by
    decide +kernel
  obtain ⟨⟨o, r⟩, ran, hfates⟩ := (Option.any_eq_true _ _).mp runs
  obtain ⟨⟨o', r'⟩, ran'⟩ := Option.isSome_iff_exists.mp reversed
  simp only [Bool.and_eq_true, beq_iff_eq] at hfates
  obtain ⟨⟨hadded, hredirected⟩, hremoved⟩ := hfates
  have small : threeFields.pool.Addressable := by
    unfold Pool.Addressable
    decide
  obtain ⟨⟨owner, d, xs, -, -, -, hpartition⟩, hrearranged⟩ :=
    classification_partition small (eq_ok_of_succeeded ran)
  exact ⟨o, o', r, r', eq_ok_of_succeeded ran, eq_ok_of_succeeded ran', hadded, hredirected,
    hremoved, ⟨_, xs, d, hpartition⟩,
    (hrearranged _ o' r' (List.reverse_perm _) (eq_ok_of_succeeded ran')).1⟩

end Pass

end Reshape
