import Reshape.Proofs.Redefinition.Replay

/-!
# Views of the added fields

What a pass adds is entered in many places: in the records and in the schema of its outcome, in the
accessors and the index of the context, in the store, and in the requests to other classes.  They
are filled one after the other, and some of them long before the pass has succeeded.  But all of
them go through the added fields in one order, so that the `i`-th entry of each is about the same
field.
-/

namespace Reshape

/-- An entry as far as it tells what backs a field. -/
def SchemaField.backing (e : SchemaField) : (String × String) × FieldKind := (e.identity, e.kind)

/-- The index of the accessors of an owner lists the classes that are committed, in order. -/
theorem proxies_reporting {owner : String} {pending : List Pending}
    (h : ∀ p ∈ pending, ∃ entry bytes, p = .accessor entry bytes ∧ entry.owner = owner) :
    ((pending.filterMap Pending.reporting?).filter (·.owner == owner)).map AccessorEntry.proxy =
      pending.map Pending.name := by
  induction pending with
  | nil => rfl
  | cons p pending ih =>
      obtain ⟨hfirst, hrest⟩ := List.forall_mem_cons.mp h
      obtain ⟨entry, bytes, rfl, howner⟩ := hfirst
      have hreporting : Pending.reporting? (.accessor entry bytes) = some entry := rfl
      rw [List.filterMap_cons_some hreporting, List.filter_cons_of_pos (by simp [howner]),
        List.map_cons, List.map_cons, ih hrest]
      rfl

namespace Pass

/-! ## §1 Contexts in use -/

/-- Whatever comes of a pass, the accessors there were are there still. -/
theorem retains_stateAfter (source : AnnotationSource) (old : Schema) (c : ClassFile)
    (r : Registries) : r.context.Retains (stateAfter (run source old c) r).context := by
  unfold stateAfter
  split
  · next o r' ran =>
    obtain ⟨t⟩ := run_ok ran
    exact t.retains
  · next e r' failed =>
    intro proxy a ha
    rw [drawn_of_error failed]
    exact ha

/-- The second context is what more passes have made of the first one, whatever came of them and
whatever else they have worked on. -/
inductive Lives (context : Context) : Context → Prop
  | unused : Lives context context
  | pass {source : AnnotationSource} {old : Schema} {c : ClassFile} {r : Registries}
      (before : Lives context r.context) :
      Lives context (stateAfter (run source old c) r).context

theorem Lives.retains {context later : Context} (h : Lives context later) :
    context.Retains later := by
  induction h with
  | unused => exact .refl context
  | pass before ih => exact ih.trans (retains_stateAfter _ _ _ _)

/-! ## §2 One order for all -/

/-- All that is entered for the added fields of a pass, with the names of the accessor classes. -/
structure Views (owner : String) (o : Outcome) (r r' : Registries) (proxies : List String) :
    Prop where
  paired : proxies.length = o.added.length
  numbered : ∀ (i : Nat) (record : AddedField), o.added[i]? = some record → record.ordinal = i
  /-- Added instance fields come first, each backed by its accessor class, and then the static ones,
  each backed by its holder. -/
  listed : o.schema.fakeFields.map SchemaField.backing =
    ((o.added.zip proxies).map fun x => (x.1.identity, .fake x.2)) ++
      o.redirected.map fun x => (x.identity, .fake x.holder)
  /-- The accessors share a layout with one slot for each added field. -/
  accessors : ∃ layout : StorageLayout,
    List.Forall₂ (fun record t => FieldType.ofDescriptor? record.descriptor = .ok t) o.added
      layout.slots ∧
    ∀ (i : Nat) (proxy : String), proxies[i]? = some proxy →
      r'.context.accessor? proxy = some ⟨i, layout⟩
  stored : ∀ proxy ∈ proxies, r'.store.contains r'.context.loader proxy = true
  indexed : r'.context.proxiesOf owner = r.context.proxiesOf owner ++ proxies
  requested : r'.requests = r.requests ++ ⟨o.added, o.redirected, o.removed⟩

namespace Ran

variable {source : AnnotationSource} {old : Schema} {c : ClassFile} {r r' : Registries}
  {o : Outcome} (t : Ran source old c r o r')
include t

theorem ordinal_of_getElem? {i : Nat} {record : AddedField} (h : o.added[i]? = some record) :
    record.ordinal = i := by
  obtain ⟨hi, -⟩ := List.getElem?_eq_some_iff.mp h
  have hnumbered := (reshape_numbers t.addressable t.reshaped).numbered
  rw [← t.added] at hnumbered
  have hordinal : (o.added.map AddedField.ordinal)[i]? = some i := by
    rw [hnumbered, List.getElem?_range' hi]
    simp
  rw [List.getElem?_map, h, Option.map_some, Option.some.injEq] at hordinal
  exact hordinal

theorem slots_layout : List.Forall₂
    (fun record t => FieldType.ofDescriptor? record.descriptor = .ok t) o.added
      t.shape.layout.slots := by
  have hnumbered := (reshape_numbers t.addressable t.reshaped).numbered
  have hsorted : (t.shape.added.map AddedField.ordinal).Pairwise (· ≤ ·) := by
    rw [hnumbered]
    exact List.pairwise_le_range'
  obtain ⟨-, -, -, hlayout, -⟩ := reshape_steps t.reshaped
  rw [t.added]
  exact StorageLayout.slots_ofRecords (List.pairwise_map.mp hsorted) hlayout

/-- The names of the accessor classes that the pass has generated, in order. -/
def proxies : List String := t.proxied.map fun x => x.2.name

/-- What stands at one place: the entry and the pending class are about the field there. -/
theorem proxied_at {i : Nat} {proxy : String} (h : t.proxies[i]? = some proxy) :
    ∃ bytes, Pending.accessor ⟨t.setting.owner, proxy, ⟨i, t.shape.layout⟩⟩ bytes ∈
      t.proxied.map Prod.snd := by
  rw [proxies, List.getElem?_map, Option.map_eq_some_iff] at h
  obtain ⟨x, hx, rfl⟩ := h
  have hrows := t.proxied_rows.1
  obtain ⟨hi, hxi⟩ := List.getElem?_eq_some_iff.mp hx
  have hlt : i < o.added.length := by rwa [hrows.length_eq]
  obtain ⟨f, -, -, proxy, generated, bytes, -, -, hmade⟩ :=
    (List.forall₂_iff_get.mp hrows).2 i hlt hi
  simp only [List.get_eq_getElem, hxi, t.ordinal_of_getElem? (List.getElem?_eq_getElem hlt)]
    at hmade
  subst hmade
  exact ⟨bytes, List.mem_map_of_mem (List.mem_of_getElem? hx)⟩

theorem fakeFields_backing : o.schema.fakeFields.map SchemaField.backing =
    ((o.added.zip t.proxies).map fun x => (x.1.identity, .fake x.2)) ++
      o.redirected.map fun x => (x.identity, .fake x.holder) := by
  rw [t.fakeFields_eq, List.map_append]
  congr 1
  · rw [List.map_map]
    refine (map_zip_of_forall₂ t.proxied_rows.1 ?_).symm
    rintro record x ⟨f, -, -, proxy, generated, bytes, -, -, rfl⟩
    rfl
  · rw [t.redirected, List.map_map, List.map_map]
    refine List.map_congr_left fun held hheld => ?_
    obtain ⟨f, -, hmade⟩ := exists_left_of_forall₂ t.made hheld
    simp only [Function.comp_apply, hmade.entry]
    rfl

/-- No holder reports anything. -/
theorem reporting_held : (t.held.filterMap Held.pending).filterMap Pending.reporting? = [] := by
  rw [List.filterMap_eq_nil_iff]
  intro pending hpending
  obtain ⟨held, hheld, hsome⟩ := List.mem_filterMap.mp hpending
  obtain ⟨f, -, hmade⟩ := exists_left_of_forall₂ t.made hheld
  rcases hmade.holder with ⟨-, hnone⟩ | ⟨-, bytes, hholder⟩
  · cases hnone.symm.trans hsome
  · cases hholder.symm.trans hsome
    rfl

theorem proxiesOf_eq :
    r'.context.proxiesOf t.owner = r.context.proxiesOf t.owner ++ t.proxies := by
  obtain ⟨-, -, haccessors⟩ := t.committed
  have howner : t.setting.owner = t.owner := by rw [t.fixed]
  have hregistered : r'.context.accessors =
      r.context.accessors ++ (t.proxied.map Prod.snd).filterMap Pending.reporting? := by
    rw [haccessors, pending, List.filterMap_append (f := Pending.reporting?), t.reporting_held,
      List.append_nil]
  have hreporting : (((t.proxied.map Prod.snd).filterMap Pending.reporting?).filter
      (·.owner == t.owner)).map AccessorEntry.proxy =
        (t.proxied.map Prod.snd).map Pending.name := by
    refine proxies_reporting fun p hp => ?_
    obtain ⟨x, hx, rfl⟩ := List.mem_map.mp hp
    obtain ⟨record, -, f, -, -, proxy, generated, bytes, -, -, rfl⟩ :=
      exists_left_of_forall₂ t.proxied_rows.1 hx
    exact ⟨_, bytes, rfl, howner⟩
  rw [Context.proxiesOf, hregistered, List.filter_append, List.map_append, hreporting, List.map_map]
  rfl

theorem requests_eq : r'.requests = r.requests ++ ⟨o.added, o.redirected, o.removed⟩ := by
  obtain ⟨-, -, hrequests⟩ := conclude_ok t.concluded
  rw [hrequests, t.drawn.2, t.added, t.redirected, t.removed]

theorem views : Views t.owner o r r' t.proxies := by
  obtain ⟨hcommit, -⟩ := conclude_ok t.concluded
  obtain ⟨-, -, haccessors⟩ := Context.commit_ok hcommit
  obtain ⟨hdefinitions, -⟩ := t.committed
  refine ⟨?_, ?_, t.fakeFields_backing, ⟨t.shape.layout, t.slots_layout, ?_⟩, ?_, t.proxiesOf_eq,
    t.requests_eq⟩
  · rw [proxies, List.length_map, t.proxied_rows.1.length_eq]
  · intro i record hrecord
    exact t.ordinal_of_getElem? hrecord
  · intro i proxy hproxy
    obtain ⟨bytes, hpending⟩ := t.proxied_at hproxy
    exact haccessors _ _ (List.mem_append_left _ hpending)
  · intro proxy hproxy
    obtain ⟨x, hx, rfl⟩ := List.mem_map.mp hproxy
    have hpending : x.2 ∈ t.pending := List.mem_append_left _ (List.mem_map_of_mem hx)
    have hsaved : x.2.definition r.context.loader ∈ r'.store.definitions := by
      rw [hdefinitions]
      exact List.mem_append_right _ (List.mem_map_of_mem hpending)
    have hcontains := Store.contains_of_mem hsaved
    rwa [Pending.scope_definition, Pending.name_definition, t.agree.loader] at hcontains

end Ran

/-- **All views agree.**  After a pass that succeeds, the records of the added instance fields,
their entries in the new schema, their accessors, the classes in the store and the index of the
context stand in one order and are about the same fields, place by place; the requests have grown by
those of the pass.  No later pass changes the accessors, whatever comes of it. -/
theorem views_agree {source : AnnotationSource} {old : Schema} {c : ClassFile}
    {r r' : Registries} {o : Outcome} (ran : run source old c r = .ok o r') :
    ∃ owner proxies, c.name = .ok owner ∧ Views owner o r r' proxies ∧
      ∀ later, Lives r'.context later → ∀ proxy ∈ proxies,
        later.accessor? proxy = r'.context.accessor? proxy := by
  obtain ⟨t⟩ := run_ok ran
  refine ⟨t.owner, t.proxies, t.named, t.views, ?_⟩
  intro later hlater proxy hproxy
  obtain ⟨i, hi, rfl⟩ := List.mem_iff_getElem.mp hproxy
  obtain ⟨layout, -, haccessors⟩ := t.views.accessors
  have haccessor := haccessors i _ (List.getElem?_eq_getElem hi)
  rw [haccessor]
  exact hlater.retains _ _ haccessor

/-- Two fields of objects and a static one are added, and a pass that is refused comes after. -/
theorem views_agree_threeFields :
    ∃ (o : Outcome) (r : Registries) (proxies : List String),
      run noAnnotations ⟨"A", [storageEntry {}]⟩ threeFields (.start {} "app") = .ok o r ∧
      o.added.map AddedField.identity = [("x", "I"), ("Code", "I")] ∧
      o.redirected.map StaticRedirect.identity = [("y", "I")] ∧
      Views "A" o (.start {} "app") r proxies ∧ proxies.length = 2 ∧
      ∀ proxy ∈ proxies,
        (stateAfter (run noAnnotations o.schema withoutCall) r).context.accessor? proxy =
          r.context.accessor? proxy := by
  have runs : ((succeeded (run noAnnotations ⟨"A", [storageEntry {}]⟩ threeFields
      (.start {} "app"))).any fun (o, _) =>
        o.added.map AddedField.identity == [("x", "I"), ("Code", "I")] &&
        o.redirected.map StaticRedirect.identity == [("y", "I")]) = true := by
    decide +kernel
  obtain ⟨⟨o, r⟩, ran, h⟩ := (Option.any_eq_true _ _).mp runs
  simp only [Bool.and_eq_true, beq_iff_eq] at h
  obtain ⟨hadded, hredirected⟩ := h
  obtain ⟨owner, proxies, howner, hviews, hlater⟩ := views_agree (eq_ok_of_succeeded ran)
  have hnamed : threeFields.name = .ok "A" := by decide
  cases hnamed.symm.trans howner
  refine ⟨o, r, proxies, eq_ok_of_succeeded ran, hadded, hredirected, hviews, ?_, ?_⟩
  · rw [hviews.paired, ← List.length_map (f := AddedField.identity), hadded]
    rfl
  · exact hlater _ (.pass .unused)

end Pass

end Reshape
