import Reshape.Proofs.Redefinition.Failure
import Reshape.Proofs.Registry.Names

/-!
# Names drawn by a pass

Whatever a pass generates, it generates under a name that was drawn last.  No name is drawn twice,
since the counters never go back, not even when a pass fails.  So all that a pass wants to commit
has names of its own, which no class has had before, and a commit that finds a name taken cannot
happen.
-/

namespace Reshape.Pass

/-! ## §1 Counters -/

/-- A name that has been drawn. -/
def HasIssued (r : Registries) (name : String) : Prop := r.context.HasIssued r.store.drawn name

/-- Names are drawn, and no counter goes back. -/
structure Advances (r r' : Registries) : Prop where
  drawn : Drawn r r'
  proxies : r.store.drawn ≤ r'.store.drawn
  holders : ∀ owner, r.context.count owner ≤ r'.context.count owner

namespace Advances

variable {r r' r'' : Registries}

theorem refl (r : Registries) : Advances r r := ⟨.refl r, Nat.le_refl _, fun _ => Nat.le_refl _⟩

theorem trans (h : Advances r r') (h' : Advances r' r'') : Advances r r'' :=
  ⟨h.drawn.trans h'.drawn, h.proxies.trans h'.proxies,
    fun owner => (h.holders owner).trans (h'.holders owner)⟩

theorem config (h : Advances r r') : r'.context.config = r.context.config := by rw [h.drawn]

theorem held (h : Advances r r') : r'.context.holders = r.context.holders := by rw [h.drawn]

theorem hasIssued (h : Advances r r') {name : String} (hname : HasIssued r name) :
    HasIssued r' name :=
  hname.mono h.config h.proxies h.holders

end Advances

/-- The registries after a name for an accessor class. -/
theorem advances_nextName (r : Registries) (stem : String) :
    Advances r { r with store := (r.store.nextName stem).2 } :=
  ⟨rfl, Nat.le_succ _, fun _ => Nat.le_refl _⟩

/-- The registries after a name for a holder. -/
theorem advances_nextHolderName (r : Registries) (owner : String) :
    Advances r { r with context := (r.context.nextHolderName owner).2 } := by
  refine ⟨rfl, Nat.le_refl _, fun owner' => ?_⟩
  rw [Context.count_nextHolderName]
  by_cases hsame : owner' = owner
  · subst hsame
    rw [if_pos rfl]
    exact Nat.le_succ _
  · rw [if_neg hsame]

theorem tracks_advances (owner : String) : Tracks owner Advances :=
  ⟨.refl, .trans, fun stem r => advances_nextName r stem,
    fun r => advances_nextHolderName r owner⟩

/-! ## §2 What has been generated -/

/-- On the way from `r` to `r'` the pending classes were generated, each under a name that was new,
and the holders among them for fields that had none. -/
structure Issues (r : Registries) (pending : List Pending) (r' : Registries) : Prop where
  advances : Advances r r'
  distinct : (pending.map Pending.name).Nodup
  fresh : ∀ p ∈ pending, ¬ HasIssued r p.name
  issued : ∀ p ∈ pending, HasIssued r' p.name
  unheld : ∀ entry ∈ pending.filterMap Pending.holding?,
    r.context.holderFor? entry.owner entry.name entry.descriptor = none

namespace Issues

variable {r r' r'' : Registries} {pending : List Pending}

theorem of_advances (h : Advances r r') : Issues r [] r' := ⟨h, .nil, nofun, nofun, nofun⟩

/-- One more class. -/
theorem next (h : Issues r pending r') {p : Pending} (hadvances : Advances r' r'')
    (hfresh : ¬ HasIssued r' p.name) (hissued : HasIssued r'' p.name)
    (hunheld : ∀ entry, p.holding? = some entry →
      r'.context.holderFor? entry.owner entry.name entry.descriptor = none) :
    Issues r (pending ++ [p]) r'' := by
  constructor
  · exact h.advances.trans hadvances
  · rw [List.map_append, List.map_singleton, ← List.concat_eq_append]
    apply List.Nodup.concat _ h.distinct
    intro hmem
    obtain ⟨q, hq, hsame⟩ := List.mem_map.mp hmem
    exact hfresh (hsame ▸ h.issued q hq)
  · intro q hq
    rcases List.mem_append.mp hq with hq | hq
    · exact h.fresh q hq
    · cases List.mem_singleton.mp hq
      exact fun hold => hfresh (h.advances.hasIssued hold)
  · intro q hq
    rcases List.mem_append.mp hq with hq | hq
    · exact hadvances.hasIssued (h.issued q hq)
    · cases List.mem_singleton.mp hq
      exact hissued
  · intro entry hentry
    rw [List.filterMap_append] at hentry
    rcases List.mem_append.mp hentry with hold | hnew
    · exact h.unheld entry hold
    · obtain ⟨q, hq, hsome⟩ := List.mem_filterMap.mp hnew
      cases List.mem_singleton.mp hq
      rw [← Context.holderFor?_congr h.advances.held]
      exact hunheld entry hsome

/-- An accessor class is generated under the next name of the store. -/
theorem generateAccessor (h : Issues r pending r') {s : Setting} {c : ClassFile}
    {layout : StorageLayout} {record : AddedField} {f : Field} {x : SchemaField × Pending}
    (hnames : s.config.NamedByDefault) (hconfig : r'.context.config = s.config)
    (hstep : generateAccessor s c layout record f r' = .ok x r'') :
    Issues r (pending ++ [x.2]) r'' := by
  obtain ⟨proxy, generated, bytes, rfl, -, -, rfl, rfl⟩ := generateAccessor_steps hstep
  apply h.next (advances_nextName r' _)
  · show ¬ r'.context.HasIssued r'.store.drawn (s.config.accessorStem ++ toString r'.store.drawn)
    rw [← hconfig] at hnames ⊢
    exact Context.not_hasIssued_accessor hnames
  · show r'.context.HasIssued (r'.store.drawn + 1)
      (s.config.accessorStem ++ toString r'.store.drawn)
    rw [← hconfig]
    exact .accessor (Nat.lt_succ_self _)
  · intro entry hentry
    cases hentry

/-- A holder is generated under the next name of its owner, unless the field has one already. -/
theorem holdStatic (h : Issues r pending r') {s : Setting} {c : ClassFile} {f : Field} {held : Held}
    (hnames : r'.context.config.NamedByDefault) (hstep : holdStatic s c f r' = .ok held r'') :
    Issues r (pending ++ held.pending.toList) r'' := by
  obtain ⟨hmade, ⟨hnone, rfl⟩ | hgenerated⟩ := holdStatic_steps hstep
  · rwa [hnone, Option.toList_none, List.append_nil]
  · obtain ⟨generated, bytes, -, -, hpending⟩ := hgenerated.generated
    rw [hpending, Option.toList_some, hgenerated.drawn]
    apply h.next (advances_nextHolderName r' s.owner)
    · show ¬ r'.context.HasIssued r'.store.drawn held.redirect.holder
      rw [hgenerated.named]
      exact Context.not_hasIssued_holder hnames
    · show (r'.context.nextHolderName s.owner).2.HasIssued r'.store.drawn held.redirect.holder
      rw [hgenerated.named]
      exact Context.hasIssued_nextHolderName s.owner
    · intro entry hentry
      cases hentry
      rcases hmade.holder with ⟨-, hnone⟩ | ⟨hunheld, -⟩
      · cases hnone.symm.trans hpending
      · exact hunheld

end Issues

/-- All classes of one pass are generated, the accessor classes first. -/
structure Generates (s : Setting) (shape : Reshaped) (r : Registries)
    (proxied : List (SchemaField × Pending)) (held : List Held) (r' : Registries) where
  between : Registries
  proxies : ((shape.added.zip shape.draft.instances).mapM fun (record, f) =>
    generateAccessor s shape.shaped shape.layout record f) r = .ok proxied between
  holders : shape.draft.statics.mapM (holdStatic s shape.shaped) between = .ok held r'

theorem Generates.issues {s : Setting} {shape : Reshaped} {r r' : Registries}
    {proxied : List (SchemaField × Pending)} {held : List Held}
    (h : Generates s shape r proxied held r') (hnames : r.context.config.NamedByDefault)
    (hconfig : s.config = r.context.config) :
    Issues r (proxied.map Prod.snd ++ held.filterMap Held.pending) r' := by
  have hproxies : Issues r (proxied.map Prod.snd) h.between := by
    refine state_mapM_accumulates (fun done t => Issues r (done.map Prod.snd) t) ?_
      (.of_advances (.refl r)) h.proxies
    rintro ⟨record, f⟩ - done t x t' hdone hstep
    rw [List.map_append, List.map_singleton]
    exact hdone.generateAccessor (hconfig ▸ hnames) (hdone.advances.config.trans hconfig.symm) hstep
  refine state_mapM_accumulates
    (fun done t => Issues r (proxied.map Prod.snd ++ done.filterMap Held.pending) t) ?_
    (by simpa using hproxies) h.holders
  intro f _ done t held t' hdone hstep
  have hone : [held].filterMap Held.pending = held.pending.toList := by
    cases hpending : held.pending <;> simp [hpending]
  rw [List.filterMap_append, ← List.append_assoc, hone]
  exact hdone.holdStatic (hdone.advances.config ▸ hnames) hstep

/-! ## §3 The end of a pass -/

/-- A pass that was refused, not one that clashed. -/
def IsRefusal (e : PassFailure) : Prop := ∃ error, e = .refused error

theorem refuses_ofExcept {α : Type} (x : Except RedefineError α) :
    FailsOnly IsRefusal (ofExcept x) := by
  cases x with
  | error e => exact .throw ⟨e, rfl⟩
  | ok a => exact .pure a

theorem refuses_generateAccessor (s : Setting) (c : ClassFile) (layout : StorageLayout)
    (record : AddedField) (f : Field) :
    FailsOnly IsRefusal (generateAccessor s c layout record f) :=
  .bind (.bind .get fun _ => .bind (.set _) fun _ => .pure _) fun _ =>
    .bind (refuses_ofExcept _) fun _ => .bind (refuses_ofExcept _) fun _ => .pure _

theorem refuses_holdStatic (s : Setting) (c : ClassFile) (f : Field) :
    FailsOnly IsRefusal (holdStatic s c f) := by
  refine .bind (refuses_ofExcept _) fun (name, descriptor) => .bind .get fun r => ?_
  cases r.context.holderFor? s.owner name descriptor with
  | some holder => exact .bind (refuses_ofExcept _) fun _ => .pure _
  | none =>
      exact .bind (.bind .get fun _ => .bind (.set _) fun _ => .pure _) fun _ =>
        .bind (refuses_ofExcept _) fun _ => .bind (refuses_ofExcept _) fun _ =>
        .bind (refuses_ofExcept _) fun _ => .pure _

/-- Names clash only in the commit of what was generated. -/
theorem run_clash {source : AnnotationSource} {old : Schema} {c : ClassFile} {r r' : Registries}
    {clash : NameClash} (h : run source old c r = .error (.clash clash) r') :
    ∃ s shape proxied held r₁, s.config = r.context.config ∧
      Nonempty (Generates s shape r proxied held r₁) ∧
      r₁.context.commit r₁.store (proxied.map Prod.snd ++ held.filterMap Held.pending) =
        .error clash := by
  have hclash : ¬ IsRefusal (.clash clash) := nofun
  obtain ⟨r₁, r₂, hget, h⟩ := FailsOnly.get.passes hclash h
  obtain ⟨rfl, rfl⟩ := state_get_eq_ok.mp hget
  obtain ⟨owner, r₁, howner, h⟩ := (refuses_ofExcept _).passes hclash h
  obtain ⟨-, rfl⟩ := ofExcept_eq_ok.mp howner
  obtain ⟨shape, r₁, hshape, h⟩ := (refuses_ofExcept _).passes hclash h
  obtain ⟨-, rfl⟩ := ofExcept_eq_ok.mp hshape
  obtain ⟨proxied, between, hproxies, h⟩ :=
    (FailsOnly.mapM (fun _ => refuses_generateAccessor _ _ _ _ _) _).passes hclash h
  obtain ⟨held, r₁, hholders, h⟩ :=
    (FailsOnly.mapM (fun _ => refuses_holdStatic _ _ _) _).passes hclash h
  obtain ⟨⟨written, count⟩, r₂, hinstrument, h⟩ := (refuses_ofExcept _).passes hclash h
  obtain ⟨-, rfl⟩ := ofExcept_eq_ok.mp hinstrument
  obtain ⟨bytes, r₂, hencode, h⟩ := (refuses_ofExcept _).passes hclash h
  obtain ⟨-, rfl⟩ := ofExcept_eq_ok.mp hencode
  refine ⟨_, shape, proxied, held, r₁, rfl, ⟨⟨between, hproxies, hholders⟩⟩, ?_⟩
  rcases state_bind_eq_error.mp h with h | ⟨u, t, -, h⟩
  · obtain ⟨-, clash', hsame, hcommit⟩ := conclude_error h
    cases hsame
    exact hcommit
  · cases h

/-- A pass has generated the pending classes and has committed them.  A pass that failed has nothing
pending. -/
structure Settles (r : Registries) (pending : List Pending) (r' : Registries) where
  /-- The registries when all names had been drawn. -/
  drawn : Registries
  issues : Issues r pending drawn
  store : r'.store = { drawn.store with
    definitions := drawn.store.definitions ++
      pending.map (Pending.definition drawn.context.loader) }
  context : r'.context = { drawn.context with
    holders := (pending.filterMap Pending.holding?).reverse ++ drawn.context.holders
    accessors := drawn.context.accessors ++ pending.filterMap Pending.reporting? }

theorem Ran.settles {source : AnnotationSource} {old : Schema} {c : ClassFile}
    {r r' : Registries} {o : Outcome} (t : Ran source old c r o r')
    (hnames : r.context.config.NamedByDefault) :
    Nonempty (Settles r t.pending r') := by
  have hgenerates : Generates t.setting t.shape r t.proxied t.held t.afterHolders :=
    ⟨t.afterProxies, t.generated, t.holding⟩
  obtain ⟨hcommit, -⟩ := conclude_ok t.concluded
  obtain ⟨hstore, hcontext⟩ := Context.commit_eq hcommit
  exact ⟨⟨t.afterHolders, hgenerates.issues hnames (by rw [t.fixed]), hstore, hcontext⟩⟩

/-- Whatever comes of a pass, it commits what it has generated or nothing. -/
theorem exists_settles (source : AnnotationSource) (old : Schema) (c : ClassFile) (r : Registries)
    (hnames : r.context.config.NamedByDefault) :
    ∃ pending, Nonempty (Settles r pending (stateAfter (run source old c) r)) := by
  unfold stateAfter
  cases h : run source old c r with
  | ok o r' =>
      obtain ⟨t⟩ := run_ok h
      exact ⟨_, t.settles hnames⟩
  | error e r' =>
      have hadvances : Advances r r' := Tracks.run_error tracks_advances h
      exact ⟨[], ⟨⟨r', .of_advances hadvances, by simp, by simp⟩⟩⟩

namespace Settles

variable {r r' : Registries} {pending : List Pending} (h : Settles r pending r')
include h

theorem loader : r'.context.loader = r.context.loader := by
  rw [h.context, h.issues.advances.drawn]

theorem config : r'.context.config = r.context.config := by
  rw [h.context, h.issues.advances.drawn]

theorem proxies : r.store.drawn ≤ r'.store.drawn := by
  rw [h.store]
  exact h.issues.advances.proxies

theorem definitions : r'.store.definitions =
    r.store.definitions ++ pending.map (Pending.definition r.context.loader) := by
  rw [h.store, h.issues.advances.drawn]

theorem holders : r'.context.holders =
    (pending.filterMap Pending.holding?).reverse ++ r.context.holders := by
  rw [h.context, h.issues.advances.drawn]

theorem accessors :
    r'.context.accessors = r.context.accessors ++ pending.filterMap Pending.reporting? := by
  rw [h.context, h.issues.advances.drawn]

theorem hasIssued {name : String} (hname : HasIssued h.drawn name) : HasIssued r' name := by
  refine Context.HasIssued.mono ?_ ?_ ?_ hname
  · rw [h.context]
  · rw [h.store]
  · intro owner
    rw [h.context]
    rfl

/-- A holder is found for good. -/
theorem holderFor?_of_some {owner name descriptor holder : String}
    (hholder : r.context.holderFor? owner name descriptor = some holder) :
    r'.context.holderFor? owner name descriptor = some holder := by
  have hnone : (pending.filterMap Pending.holding?).reverse.find? (fun e =>
      e.owner == owner && e.name == name && e.descriptor == descriptor) = none := by
    rw [List.find?_eq_none]
    intro entry hentry hfits
    simp only [Bool.and_eq_true, beq_iff_eq] at hfits
    obtain ⟨⟨rfl, rfl⟩, rfl⟩ := hfits
    have hunheld := h.issues.unheld entry (List.mem_reverse.mp hentry)
    cases hunheld.symm.trans hholder
  rw [Context.holderFor?, h.holders, List.find?_append, hnone, Option.none_or]
  exact hholder

/-- What is stored under a name is stored for good. -/
theorem load?_of_some {scope name : String} {bytes : Bytes}
    (hbytes : r.store.load? scope name = some bytes) :
    r'.store.load? scope name = some bytes := by
  obtain ⟨d, hd, rfl⟩ := Option.map_eq_some_iff.mp hbytes
  rw [Store.load?, h.definitions, List.find?_append, hd, Option.some_or, Option.map_some]

end Settles

end Reshape.Pass
