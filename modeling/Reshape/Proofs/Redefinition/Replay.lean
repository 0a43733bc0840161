import Reshape.Proofs.Redefinition.Failure
import Reshape.Proofs.Redefinition.Untouched
import Reshape.Proofs.Redefinition.VisibleFields

/-!
# The same definition once more

After a pass the fields that were removed are shells, a storage field that was appended is a normal
field, and the added static fields have their holders.  So if the same definition is brought in once
more, its fields take other ways through the pass: shells are made in another order, holders are
found and not drawn.  What comes of it is the same again, but for the names of accessor classes,
which are drawn each time.
-/

namespace Reshape

/-! ## §1 Holders -/

/-- The static field as its entry reports it once the context knows a holder for it. -/
def Candidate.heldEntry (context : Context) (owner : String) (x : Candidate) : SchemaField :=
  ⟨x.name, x.descriptor, x.access,
    .fake ((context.holderFor? owner x.name x.descriptor).getD "")⟩

/-- The request for a static field once the context knows a holder for it. -/
def Candidate.heldRedirect (context : Context) (owner loader : String) (x : Candidate) :
    StaticRedirect :=
  ⟨owner, (context.holderFor? owner x.name x.descriptor).getD "", x.name, x.descriptor, loader⟩

/-- The names of the methods and of their attributes are within the pool. -/
def ClassFile.NamesMethods (c : ClassFile) : Prop :=
  ∀ m ∈ c.methods, m.name.toNat < c.pool.size ∧
    ∀ a ∈ m.attributes, a.name.toNat < c.pool.size

theorem Attribute.locate?_of_lt {p q : Pool} (hgrowth : Pool.Growth p q) {name : String}
    {attributes : List Attribute} :
    ∀ {position : Nat}, (∀ a ∈ attributes, a.name.toNat < p.size) →
      locate? q name position attributes = locate? p name position attributes := by
  induction attributes with
  | nil =>
      intro position _
      rfl
  | cons a attributes ih =>
      intro position hnames
      obtain ⟨ha, hrest⟩ := List.forall_mem_cons.mp hnames
      unfold locate?
      rw [hgrowth.utf8_of_lt ha, ih hrest]

/-- Whether a method is a constructor with code does not depend on how the pool has grown, if its
names were in it. -/
theorem Prologue.hasConstructorCode_of_lt {p q : Pool} (hgrowth : Pool.Growth p q) {m : Method}
    (hname : m.name.toNat < p.size) (hattributes : ∀ a ∈ m.attributes, a.name.toNat < p.size) :
    hasConstructorCode q m = hasConstructorCode p m := by
  unfold hasConstructorCode Method.isConstructor Member.nameIn Attribute.find?
  rw [hgrowth.utf8_of_lt hname, Attribute.locate?_of_lt hgrowth hattributes]

/-- Entry by entry the schemas are the same, but for the names of the classes that back added
instance fields. -/
def Schema.Reproxied (added : List AddedField) (s s' : Schema) : Prop :=
  s'.className = s.className ∧ List.Forall₂ (fun e e' => e' = e ∨
    e.isFake = true ∧ e.identity ∈ added.map AddedField.identity ∧ e'.unnamed = e.unnamed)
    s.fields s'.fields

theorem SchemaField.unnamed_of_row {e e' : SchemaField} (h : e'.row = e.row)
    (he : e.isFake = true) (he' : e'.isFake = true) : e'.unnamed = e.unnamed := by
  obtain ⟨name, descriptor, access, kind⟩ := e
  obtain ⟨name', descriptor', access', kind'⟩ := e'
  cases h
  cases kind with
  | normal => cases he
  | removed => cases he
  | fake proxy =>
    cases kind' with
    | normal => cases he'
    | removed => cases he'
    | fake proxy' => rfl

namespace Pass

theorem Held.Made.congr {context context' : Context} {s : Setting} {p : Pool} {f : Field}
    {held : Held} (hsame : context.holders = context'.holders) (h : held.Made context s p f) :
    held.Made context' s p f := by
  refine ⟨h.identity, h.owner, h.loader, h.entry, h.declared, ?_⟩
  rw [← Context.holderFor?_congr hsame]
  exact h.holder

namespace Ran

variable {source : AnnotationSource} {old : Schema} {c : ClassFile} {r r' : Registries}
  {o : Outcome}

/-- No holder is registered while classes are generated, so all of them are looked up in the context
that the pass started with. -/
theorem made (t : Ran source old c r o r') :
    List.Forall₂ (fun f held => Held.Made r.context t.setting t.shape.shaped.pool f held)
      t.shape.draft.statics t.held := by
  have hstart : t.afterProxies.context.holders = r.context.holders := by rw [t.drawn.1]
  refine (state_mapM_forall₂_of (fun s => s.context.holders = r.context.holders) ?_ hstart
    t.holding).imp ?_
  · intro f _ s held s' hs hstep
    rw [(draws_holdStatic _ _ _).drawn hstep]
    exact hs
  · rintro f held ⟨s, s', hs, hstep⟩
    exact (holdStatic_made hstep).1.congr hs

/-- The holders that the pass registers are those it has drawn. -/
theorem holders_eq (t : Ran source old c r o r') : r'.context.holders =
    (t.held.filterMap fun held => held.pending.bind Pending.holding?).reverse ++
      r.context.holders := by
  obtain ⟨-, hholders, -⟩ := t.committed
  have hproxies : (t.proxied.map Prod.snd).filterMap Pending.holding? = [] := by
    rw [List.filterMap_eq_nil_iff]
    intro pending hpending
    obtain ⟨p, hp, rfl⟩ := List.mem_map.mp hpending
    obtain ⟨record, -, f, proxy, bytes, rfl⟩ := t.proxied_of_mem p hp
    rfl
  rw [hholders, pending, List.filterMap_append, hproxies, List.nil_append,
    List.filterMap_filterMap]

/-- The added static fields have different names or descriptors. -/
theorem nodup_redirected (t : Ran source old c r o r') (hp : c.pool.Addressable) :
    (t.held.map fun held => held.redirect.identity).Nodup := by
  obtain ⟨xs, -, h⟩ := t.classified hp
  have hnodup : (o.redirected.map StaticRedirect.identity).Nodup := by
    rw [h.redirected_eq]
    exact h.identities.sublist (List.filter_sublist.map _)
  rwa [t.redirected, List.map_map] at hnodup

/-- After the pass the context knows the holder of each added static field. -/
theorem holderFor?_redirect (t : Ran source old c r o r') (hp : c.pool.Addressable)
    {held : Held} (h : held ∈ t.held) :
    r'.context.holderFor? t.setting.owner held.redirect.name held.redirect.descriptor =
      some held.redirect.holder := by
  obtain ⟨f, -, hmade⟩ := exists_left_of_forall₂ t.made h
  have hdrawn : ∀ e ∈ t.held.filterMap (fun held => held.pending.bind Pending.holding?),
      (e.owner == t.setting.owner && e.name == held.redirect.name &&
        e.descriptor == held.redirect.descriptor) = true →
      e.holder = held.redirect.holder ∧ held.pending ≠ none := by
    intro e he hsame
    obtain ⟨held', hheld', hpending'⟩ := List.mem_filterMap.mp he
    obtain ⟨f', -, hmade'⟩ := exists_left_of_forall₂ t.made hheld'
    rcases hmade'.holder with ⟨-, hnone⟩ | ⟨-, bytes, hsome⟩
    · rw [hnone] at hpending'
      cases hpending'
    · rw [hsome] at hpending'
      cases hpending'
      simp only [Bool.and_eq_true, beq_iff_eq] at hsame
      have hidentity : held'.redirect.identity = held.redirect.identity :=
        Prod.ext hsame.1.2 hsame.2
      cases List.inj_on_of_nodup_map (t.nodup_redirected hp) hheld' h hidentity
      refine ⟨rfl, ?_⟩
      rw [hsome]
      exact Option.some_ne_none _
  rw [Context.holderFor?, t.holders_eq, List.find?_append]
  cases hfind : (t.held.filterMap fun held => held.pending.bind Pending.holding?).reverse.find?
      fun e => e.owner == t.setting.owner && e.name == held.redirect.name &&
        e.descriptor == held.redirect.descriptor with
  | some e =>
      have hmem := List.mem_reverse.mp (List.mem_of_find?_eq_some hfind)
      have hfits := List.find?_some hfind
      rw [Option.some_or, Option.map_some, (hdrawn e hmem hfits).1]
  | none =>
      rcases hmade.holder with ⟨hfound, -⟩ | ⟨-, bytes, hsome⟩
      · rwa [Option.none_or]
      · exfalso
        refine List.find?_eq_none.mp hfind ⟨t.setting.owner, held.redirect.name,
          held.redirect.descriptor, held.redirect.holder⟩ ?_ (by simp)
        refine List.mem_reverse.mpr (List.mem_filterMap.mpr ⟨held, h, ?_⟩)
        rw [hsome]
        rfl

/-- Where a context knows the holders of the added static fields, the entries and the requests can
be told from the definition. -/
theorem held_eq (t : Ran source old c r o r') (hp : c.pool.Addressable) {xs : List Candidate}
    (hxs : c.candidates t.setting.config.storageName = .ok xs) (context : Context)
    (hknown : ∀ held ∈ t.held, context.holderFor? t.setting.owner held.redirect.name
      held.redirect.descriptor = some held.redirect.holder) :
    t.held.map Held.entry =
        (xs.filter fun x => !old.hasMatch t.setting.config.storageName x && x.access.isStatic).map
          (Candidate.heldEntry context t.setting.owner) ∧
      o.redirected =
        (xs.filter fun x => !old.hasMatch t.setting.config.storageName x && x.access.isStatic).map
          (Candidate.heldRedirect context t.setting.owner t.setting.loader) := by
  obtain ⟨hgrowth, -⟩ := reshape_ok hp t.reshaped
  have hd := t.accounts hp hxs
  have hmade := forall₂_with_mem t.made
  constructor
  · refine map_eq_map_of_forall₂ hmade hd.statics ?_
    rintro f held x ⟨-, hmem, hheld⟩ hx
    obtain ⟨-, haccess⟩ := Field.candidateIn_eq_ok.mp hx
    obtain ⟨hname, hdescriptor⟩ := hheld.named hgrowth hx
    have hholder := hknown held hmem
    rw [hname, hdescriptor] at hholder
    rw [hheld.entry, hname, hdescriptor, haccess, Candidate.heldEntry, hholder, Option.getD_some]
  · rw [t.redirected]
    refine map_eq_map_of_forall₂ hmade hd.statics ?_
    rintro f held x ⟨-, hmem, hheld⟩ hx
    obtain ⟨hname, hdescriptor⟩ := hheld.named hgrowth hx
    have hholder := hknown held hmem
    rw [hname, hdescriptor] at hholder
    rw [Candidate.heldRedirect, hholder, Option.getD_some, ← hheld.owner, ← hheld.loader, ← hname,
      ← hdescriptor]

end Ran

/-! ## §2 What is matched again -/

/-- The new schema has a match for a candidate exactly if the old one had. -/
theorem Classified.hasMatch_schema {s : Setting} {old : Schema} {xs : List Candidate}
    {taken : List SchemaField} {o : Outcome} (h : Classified s old xs taken o) {x : Candidate}
    (hx : x ∈ xs) :
    o.schema.hasMatch s.config.storageName x = old.hasMatch s.config.storageName x := by
  have hkept := congrArg (List.any · (·.accepts x)) (h.kept.trans h.matched)
  simp only [List.any_filter] at hkept
  unfold Schema.hasMatch
  rw [hkept, Bool.eq_iff_iff, List.any_eq_true, List.any_eq_true]
  simp only [Bool.and_eq_true]
  constructor
  · rintro ⟨e, he, ⟨hm, -⟩, haccepts⟩
    exact ⟨e, he, hm, haccepts⟩
  · rintro ⟨e, he, hm, haccepts⟩
    exact ⟨e, he, ⟨hm, List.any_eq_true.mpr ⟨x, hx, haccepts⟩⟩, haccepts⟩

/-- Every entry of the new schema that can be matched is matched by a candidate. -/
theorem Classified.any_accepts {s : Setting} {old : Schema} {xs : List Candidate}
    {taken : List SchemaField} {o : Outcome} (h : Classified s old xs taken o) {e : SchemaField}
    (he : e ∈ o.schema.fields) (hm : e.isMatchable s.config.storageName = true) :
    xs.any e.accepts = true := by
  have hmem : e ∈ o.schema.fields.filter (·.isMatchable s.config.storageName) :=
    List.mem_filter.mpr ⟨he, hm⟩
  rw [h.kept, h.matched, List.mem_filter, Bool.and_eq_true] at hmem
  exact hmem.2.2

/-- A request is told by its number and the rest of it. -/
theorem added_ext {xs : List AddedField} :
    ∀ {ys : List AddedField}, xs.map AddedField.unnumbered = ys.map AddedField.unnumbered →
      xs.map AddedField.ordinal = ys.map AddedField.ordinal → xs = ys := by
  induction xs with
  | nil =>
      intro ys h _
      exact (List.map_eq_nil_iff.mp h.symm).symm
  | cons x xs ih =>
      intro ys h hnumbers
      cases ys with
      | nil => cases h
      | cons y ys =>
          obtain ⟨hhead, htail⟩ := List.cons.inj h
          obtain ⟨hnumber, hrest⟩ := List.cons.inj hnumbers
          obtain ⟨ordinal, name, descriptor, owner, loader⟩ := x
          cases y
          cases hhead
          cases hnumber
          rw [ih htail hrest]

/-- What is kept of the old schema, entry by entry. -/
theorem Draft.Accounts.keptFields_eq {s : Setting} {old : Schema} {p : Pool} {xs : List Candidate}
    {d : Draft} (hd : d.Accounts s old p xs) : keptFields s.config.storageName d.seats =
      (old.fields.filter (!·.isFake)).map fun e =>
        if e.isMatchable s.config.storageName && !xs.any e.accepts then e.toRemoved else e := by
  have hrows : keptFields s.config.storageName d.seats =
      (d.seats.map fun seat => (seat.entry, seat.occupant.isSome)).filterMap fun row =>
        if row.1.isFake then none
        else if row.1.isMatchable s.config.storageName && !row.2 then some row.1.toRemoved
        else some row.1 := by
    rw [List.filterMap_map]
    refine List.filterMap_congr fun seat _ => ?_
    simp [Seat.isOpen, SchemaField.isMatchable]
  rw [hrows, hd.taken, List.filterMap_map, ← List.filterMap_eq_map, List.filterMap_filter]
  refine List.filterMap_congr fun e _ => ?_
  by_cases hfake : e.isFake = true
  · simp [hfake]
  · have hsame : (e.isMatchable s.config.storageName &&
        !(e.isMatchable s.config.storageName && xs.any e.accepts)) =
          (e.isMatchable s.config.storageName && !xs.any e.accepts) := by
      cases e.isMatchable s.config.storageName <;> rfl
    simp only [Function.comp_apply, hsame, hfake, Bool.not_false, if_true]
    exact (apply_ite some _ _ _).symm

section Again

variable {source : AnnotationSource} {old : Schema} {c : ClassFile} {r r' r'' : Registries}
  {o o' : Outcome} (t : Ran source old c r o r') (t' : Ran source o.schema c r' o' r'')
  (hp : c.pool.Addressable)

namespace Ran

include t t'

theorem setting_again : t'.setting = t.setting := by
  have howner : t'.owner = t.owner := Except.ok.inj (t'.named.symm.trans t.named)
  rw [t.fixed, t'.fixed, howner, ← t.agree.loader, ← t.agree.config]

include hp

theorem classified_again : ∃ xs, c.candidates t.setting.config.storageName = .ok xs ∧
    Classified t.setting old xs t.shape.draft.matched o ∧
    Classified t.setting o.schema xs t'.shape.draft.matched o' := by
  obtain ⟨xs, hxs, h⟩ := t.classified hp
  obtain ⟨ys, hys, h'⟩ := t'.classified hp
  rw [t.setting_again t'] at hys h'
  cases hxs.symm.trans hys
  exact ⟨xs, hxs, h, h'⟩

/-- All that can be matched is matched, so nothing is removed. -/
theorem removed_again : o'.removed = [] := by
  obtain ⟨xs, hxs, h, h'⟩ := t.classified_again t' hp
  rw [h'.removed, List.map_eq_nil_iff, List.filter_eq_nil_iff]
  intro e he hnone
  simp only [Bool.and_eq_true, Bool.not_eq_true'] at hnone
  rw [h.any_accepts he hnone.1] at hnone
  cases hnone.2

theorem added_again : o'.added = o.added := by
  obtain ⟨xs, hxs, h, h'⟩ := t.classified_again t' hp
  have hsame : o'.added.map AddedField.unnumbered = o.added.map AddedField.unnumbered := by
    rw [h.added, h'.added]
    exact congrArg _ (List.filter_congr fun x hx => by rw [h.hasMatch_schema hx])
  have hlength : o'.added.length = o.added.length := by
    simpa only [List.length_map] using congrArg List.length hsame
  have hnumbers := (reshape_numbers hp t.reshaped).numbered
  have hnumbers' := (reshape_numbers hp t'.reshaped).numbered
  rw [← t.added] at hnumbers
  rw [← t'.added] at hnumbers'
  exact added_ext hsame (by rw [hnumbers, hnumbers', hlength])

/-- The second pass finds the holders of all added static fields. -/
theorem known_again {held : Held} (hheld : held ∈ t'.held) :
    held.pending = none ∧ r'.context.holderFor? t.setting.owner held.redirect.name
      held.redirect.descriptor = some held.redirect.holder := by
  obtain ⟨xs, hxs, h, h'⟩ := t.classified_again t' hp
  obtain ⟨f, -, hmade⟩ := exists_left_of_forall₂ t'.made hheld
  have hidentities : o'.redirected.map StaticRedirect.identity =
      o.redirected.map StaticRedirect.identity := by
    rw [h.redirected_eq, h'.redirected_eq]
    exact congrArg _ (List.filter_congr fun x hx => by rw [h.hasMatch_schema hx])
  have hmem : held.redirect.identity ∈ o.redirected.map StaticRedirect.identity := by
    rw [← hidentities, t'.redirected]
    exact List.mem_map_of_mem (List.mem_map_of_mem hheld)
  rw [t.redirected, List.map_map] at hmem
  obtain ⟨first, hfirst, hsame⟩ := List.mem_map.mp hmem
  obtain ⟨hname, hdescriptor⟩ := Prod.mk.inj hsame
  have hregistered := t.holderFor?_redirect hp hfirst
  rw [hname, hdescriptor] at hregistered
  have hholder := hmade.holder
  rw [t.setting_again t'] at hholder
  rcases hholder with ⟨hfound, hnone⟩ | ⟨hmissing, -⟩
  · exact ⟨hnone, hfound⟩
  · cases hmissing.symm.trans hregistered

/-- Static fields have the holders that they had. -/
theorem held_again : o'.redirected = o.redirected ∧
    t'.held.map Held.entry = t.held.map Held.entry := by
  obtain ⟨xs, hxs, h, h'⟩ := t.classified_again t' hp
  have hsetting := t.setting_again t'
  obtain ⟨hentries, hredirected⟩ := t.held_eq hp hxs r'.context fun held hheld =>
    t.holderFor?_redirect hp hheld
  obtain ⟨hentries', hredirected'⟩ := t'.held_eq hp (hsetting ▸ hxs) r'.context
    fun held hheld => hsetting ▸ (t.known_again t' hp hheld).2
  have hsame : (xs.filter fun x =>
      !o.schema.hasMatch t.setting.config.storageName x && x.access.isStatic) =
        xs.filter fun x => !old.hasMatch t.setting.config.storageName x && x.access.isStatic :=
    List.filter_congr fun x hx => by rw [h.hasMatch_schema hx]
  rw [hsetting, hsame] at hentries' hredirected'
  exact ⟨hredirected'.trans hredirected.symm, hentries'.trans hentries.symm⟩

/-- No holder is registered. -/
theorem holders_again : r''.context.holders = r'.context.holders := by
  rw [t'.holders_eq]
  have hnone : t'.held.filterMap (fun held => held.pending.bind Pending.holding?) = [] := by
    rw [List.filterMap_eq_nil_iff]
    intro held hheld
    rw [(t.known_again t' hp hheld).1]
    rfl
  rw [hnone]
  rfl

/-- Nothing is saved but accessor classes of added instance fields. -/
theorem definitions_again : ∃ more, r''.store.definitions = r'.store.definitions ++ more ∧
    ∀ d ∈ more, ∃ e ∈ o'.schema.fields, e.kind = .fake d.name ∧
      e.identity ∈ o'.added.map AddedField.identity := by
  obtain ⟨hdefinitions, -⟩ := t'.committed
  refine ⟨_, hdefinitions, ?_⟩
  intro d hd
  obtain ⟨pending, hpending, rfl⟩ := List.mem_map.mp hd
  rcases List.mem_append.mp hpending with hproxy | hheld
  · obtain ⟨p, hmem, rfl⟩ := List.mem_map.mp hproxy
    obtain ⟨record, hrecord, f, proxy, bytes, rfl⟩ := t'.proxied_of_mem p hmem
    refine ⟨⟨record.name, record.descriptor, f.access, .fake proxy⟩, ?_, rfl, ?_⟩
    · rw [t'.schema]
      exact List.mem_append_left _ (List.mem_append_right _ (List.mem_map.mpr ⟨_, hmem, rfl⟩))
    · exact List.mem_map_of_mem hrecord
  · obtain ⟨held, hmem, hsome⟩ := List.mem_filterMap.mp hheld
    rw [(t.known_again t' hp hmem).1] at hsome
    cases hsome

/-- The storage field is there already, so none is appended. -/
theorem appendsStorage_again : t'.shape.appendsStorage = false := by
  by_contra happends
  rw [Bool.not_eq_false] at happends
  obtain ⟨hadded, hmissing⟩ := (t'.appendsStorage_iff hp).mp happends
  rw [← t.agree.config] at hmissing
  rw [t.added_again t' hp] at hadded
  by_cases hold : old.HasStorage r.context.config
  · exact hmissing (t.hasStorage_schema hp hold)
  · have hfirst := (t.appendsStorage_iff hp).mpr ⟨hadded, hold⟩
    refine hmissing ⟨storageEntry r.context.config, ?_, rfl, rfl⟩
    rw [t.schema_fields]
    refine List.mem_append_left _ (List.mem_append_right _ ?_)
    rw [if_pos hfirst]
    exact List.mem_singleton_self _

/-- What the class declares itself stays as it is. -/
theorem declared_again : t'.declared = t.declared := by
  obtain ⟨xs, hxs, h, -⟩ := t.classified_again t' hp
  have hsetting := t.setting_again t'
  have hkept := (t'.accounts hp (hsetting ▸ hxs)).keptFields_eq
  rw [hsetting] at hkept
  have hstorage : r'.context.config.storageName = t.setting.config.storageName := by
    rw [t.fixed, ← t.agree.config]
  rw [declared, hstorage, hkept, t.appendsStorage_again t' hp, if_neg Bool.false_ne_true,
    List.append_nil, ← t.filter_declared]
  refine (List.map_congr_left fun e he => ?_).trans (List.map_id _)
  refine if_neg fun hopen => ?_
  simp only [Bool.and_eq_true, Bool.not_eq_true'] at hopen
  rw [h.any_accepts (List.mem_filter.mp he).1 hopen.1] at hopen
  cases hopen.2

/-- Added instance fields have new accessor classes, and nothing else is new. -/
theorem reproxied_again : Schema.Reproxied o.added o.schema o'.schema := by
  obtain ⟨xs, hxs, h, h'⟩ := t.classified_again t' hp
  have hsetting := t.setting_again t'
  have hrows := (t.rows_generated hp hxs).1
  have hrows' := (t'.rows_generated hp (hsetting ▸ hxs)).1
  have hsame : (t.proxied.map Prod.fst).map SchemaField.row =
      (t'.proxied.map Prod.fst).map SchemaField.row := by
    rw [hrows, hrows', hsetting]
    exact congrArg _ (List.filter_congr fun x hx => by rw [h.hasMatch_schema hx])
  have hidentities : (t.proxied.map Prod.fst).map SchemaField.identity =
      o.added.map AddedField.identity := by
    rw [h.added_eq]
    exact identities_of_rows hrows
  constructor
  · rw [t.schema, t'.schema]
    exact Except.ok.inj (t'.named.symm.trans t.named)
  · rw [t.schema_fields, t'.schema_fields, t.declared_again t' hp, (t.held_again t' hp).2]
    have hrefl (entries : List SchemaField) : List.Forall₂ (fun e e' => e' = e ∨
        e.isFake = true ∧ e.identity ∈ o.added.map AddedField.identity ∧ e'.unnamed = e.unnamed)
        entries entries :=
      List.forall₂_same.mpr fun e _ => .inl rfl
    refine List.rel_append (hrefl _) (List.rel_append ?_ (hrefl _))
    refine (forall₂_with_mem (map_eq_iff_forall₂.mp hsame)).imp ?_
    rintro e e' ⟨he, he', hrow⟩
    have hfake := t.isFake_of_mem_generated e (List.mem_append_left _ he)
    have hfake' := t'.isFake_of_mem_generated e' (List.mem_append_left _ he')
    exact .inr ⟨hfake, hidentities ▸ List.mem_map_of_mem he,
      SchemaField.unnamed_of_row hrow.symm hfake hfake'⟩

/-- The same constructors are changed, as far as their names can be told from the definition. -/
theorem instrumented_again (hnames : c.NamesMethods) : o'.instrumented = o.instrumented := by
  rw [t.instrumented_eq hp, t'.instrumented_eq hp, t.added_again t' hp]
  refine if_congr Iff.rfl rfl (List.countP_congr fun m hm => ?_)
  obtain ⟨hname, hattributes⟩ := hnames m hm
  rw [Prologue.hasConstructorCode_of_lt (t.declares_written hp).1 hname hattributes,
    Prologue.hasConstructorCode_of_lt (t'.declares_written hp).1 hname hattributes]

end Ran

end Again

/-- What a definition comes to if it is brought in twice. -/
structure Replays (c : ClassFile) (o o' : Outcome) : Prop where
  removed : o'.removed = []
  added : o'.added = o.added
  redirected : o'.redirected = o.redirected
  instrumented : c.NamesMethods → o'.instrumented = o.instrumented
  schema : Schema.Reproxied o.added o.schema o'.schema

/-- **The same definition once more.**  If a definition is brought in and then, in the same
registries, once more from the schema that the first pass has left, then the second pass removes
nothing, it asks for the same added fields and the same static fields with the same holders, and it
writes a class with the same field table.  It changes as many constructors as the first pass if the
names of the methods and of their attributes are in the pool of the definition.  The new schema is
the one before but for the names of accessor classes, no holder is registered, and nothing is saved
but these accessor classes. -/
theorem replay_fixed_point {source : AnnotationSource} {old : Schema} {c : ClassFile}
    {r r' r'' : Registries} {o o' : Outcome} (hp : c.pool.Addressable)
    (ran : run source old c r = .ok o r') (again : run source o.schema c r' = .ok o' r'') :
    Replays c o o' ∧
    (∃ w w' table, written source r.context old c = .ok w ∧
      written source r'.context o.schema c = .ok w' ∧
      w.encode = .ok o.bytes ∧ w'.encode = .ok o'.bytes ∧
      w.fieldTable = .ok table ∧ w'.fieldTable = .ok table) ∧
    r''.context.holders = r'.context.holders ∧
    ∃ more, r''.store.definitions = r'.store.definitions ++ more ∧
      ∀ d ∈ more, ∃ e ∈ o'.schema.fields, e.kind = .fake d.name ∧
        e.identity ∈ o'.added.map AddedField.identity := by
  obtain ⟨t⟩ := run_ok ran
  obtain ⟨t'⟩ := run_ok again
  have htable : o'.schema.fieldTable = o.schema.fieldTable := by
    rw [Schema.fieldTable, Schema.fieldTable, t.filter_declared, t'.filter_declared,
      t.declared_again t' hp]
  refine ⟨⟨t.removed_again t' hp, t.added_again t' hp, (t.held_again t' hp).1,
    t.instrumented_again t' hp, t.reproxied_again t' hp⟩, ?_, t.holders_again t' hp,
    t.definitions_again t' hp⟩
  exact ⟨t.written, t'.written, o.schema.fieldTable, t.written_eq, t'.written_eq, t.encoded,
    t'.encoded, t.fieldTable_written hp, htable ▸ t'.fieldTable_written hp⟩

/-- Both passes add a field, hold a static one, leave a shell and change the one constructor. -/
theorem replay_fixed_point_threeFields :
    ∃ (o o' : Outcome) (r r' : Registries),
      run noAnnotations twoLoaded threeFields (.start {} "app") = .ok o r ∧
      run noAnnotations o.schema threeFields r = .ok o' r' ∧
      o.added ≠ [] ∧ o.redirected ≠ [] ∧ o.removed ≠ [] ∧
      Replays threeFields o o' ∧ r'.context.holders = r.context.holders ∧
      threeFields.NamesMethods ∧ o.instrumented = 1 ∧ o'.instrumented = 1 := by
  have runs : ((succeeded (run noAnnotations twoLoaded threeFields (.start {} "app"))).any
      fun (o, r) => !o.added.isEmpty && !o.redirected.isEmpty && !o.removed.isEmpty &&
        o.instrumented == 1 && (succeeded (run noAnnotations o.schema threeFields r)).isSome) =
      true := by
    decide +kernel
  obtain ⟨⟨o, r⟩, ran, h⟩ := (Option.any_eq_true _ _).mp runs
  simp only [Bool.and_eq_true, Bool.not_eq_true', List.isEmpty_eq_false_iff, beq_iff_eq] at h
  obtain ⟨⟨⟨⟨hadded, hredirected⟩, hremoved⟩, hchanged⟩, hagain⟩ := h
  obtain ⟨⟨o', r'⟩, again⟩ := Option.isSome_iff_exists.mp hagain
  have small : threeFields.pool.Addressable := by
    unfold Pool.Addressable
    decide
  have hnames : threeFields.NamesMethods := by
    unfold ClassFile.NamesMethods
    decide
  obtain ⟨hreplays, -, hholders, -⟩ :=
    replay_fixed_point small (eq_ok_of_succeeded ran) (eq_ok_of_succeeded again)
  exact ⟨o, o', r, r', eq_ok_of_succeeded ran, eq_ok_of_succeeded again, hadded, hredirected,
    hremoved, hreplays, hholders, hnames, hchanged, (hreplays.instrumented hnames).trans hchanged⟩

/-! ### A name that is in no pool yet

The index of a method's name may lie behind the pool.  What it denotes then depends on what is
interned first, and this is not the same in both passes. -/

/-- The method is named by the first constant behind the pool, and so is the one that it calls. -/
def namedLater : ClassFile where
  minorVersion := 0
  majorVersion := 49
  pool := ⟨#[.unused, .utf8 "A", .classRef 1, .utf8 "java/lang/Object", .classRef 3, .utf8 "x",
    .utf8 "I", .utf8 "()V", .utf8 "Code", .nameAndType 11 7, .methodRef 4 9]⟩
  access := ⟨0x21⟩
  thisClass := 2
  superClass := 4
  interfaces := []
  fields := [⟨⟨1⟩, 5, 6, []⟩]
  methods := [⟨⟨1⟩, 11, 7,
    [⟨8, [0, 1, 0, 1, 0, 0, 0, 5, 0x2a, 0xb7, 0, 10, 0xb1, 0, 0, 0, 0]⟩]⟩]
  attributes := []

/-- The second field was loaded and is dropped by the new definition, and the first one was dropped
before. -/
def oneDropped : Schema :=
  ⟨"A", [⟨"p", "I", ⟨1⟩, .removed⟩, ⟨"<init>", "I", ⟨1⟩, .normal⟩, storageEntry {}]⟩

/-- The first pass finds a constructor, and the second one finds none. -/
theorem replay_counts_differ :
    ∃ (o o' : Outcome) (r r' : Registries),
      ClassFile.parse (stored namedLater) = .ok namedLater ∧
      run noAnnotations oneDropped namedLater (.start {} "app") = .ok o r ∧
      run noAnnotations o.schema namedLater r = .ok o' r' ∧
      o.instrumented = 1 ∧ o'.instrumented = 0 := by
  have runs : ((succeeded (run noAnnotations oneDropped namedLater (.start {} "app"))).any
      fun (o, r) => o.instrumented == 1 &&
        (succeeded (run noAnnotations o.schema namedLater r)).any fun (o', _) =>
          o'.instrumented == 0) = true := by
    decide +kernel
  obtain ⟨⟨o, r⟩, ran, h⟩ := (Option.any_eq_true _ _).mp runs
  rw [Bool.and_eq_true, beq_iff_eq] at h
  obtain ⟨hfirst, h⟩ := h
  obtain ⟨⟨o', r'⟩, again, hsecond⟩ := (Option.any_eq_true _ _).mp h
  exact ⟨o, o', r, r', by decide +kernel, eq_ok_of_succeeded ran, eq_ok_of_succeeded again, hfirst,
    beq_iff_eq.mp hsecond⟩

end Pass

end Reshape
