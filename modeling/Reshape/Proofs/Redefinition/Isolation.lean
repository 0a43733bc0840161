import Reshape.Proofs.Redefinition.AccessorNames
import Reshape.Proofs.Redefinition.Scopes

/-!
# A pass and what other classes have left

All passes share one store, one context and one table of annotations.  A pass reads of them what
belongs to its own class, and it draws names.  So in registries that hold the same for its class it
comes to the same end: the same outcome but for the names of generated classes, or the same error.
Only where a pool overflows may the names decide which of several errors is met first.
-/

namespace Reshape

/-! ## §1 Numbers of accessor classes -/

namespace Pass

/-! ## §2 Registries that hold the same for a class -/

section Row

variable {s : Setting} (hnames : s.config.NamedByDefault) {d : Reshaped}
include hnames

end Row

section Steps

variable {α β γ : Type} {R : Registries → Registries → Prop} {excused : PassFailure → Prop}
  {f : α → Action β} {g : α → Action γ}

end Steps

/-- A pass once it is known what class it is about. -/
def process (s : Setting) (old : Schema) (c : ClassFile) : Action Outcome := do
  let d ← ofExcept (reshape s old c)
  let proxied ← (d.added.zip d.draft.instances).mapM fun (record, f) =>
    generateAccessor s d.shaped d.layout record f
  let held ← d.draft.statics.mapM (holdStatic s d.shaped)
  let (c, instrumented) ← ofExcept (Prologue.instrument s.config d.added d.shaped)
  let bytes ← ofBuild c.encode
  let redirected := held.map Held.redirect
  let removed := removals s d.draft.seats
  conclude (proxied.map Prod.snd ++ held.filterMap Held.pending)
    (d.draft.declared ++ held.map Held.declared) ⟨d.added, redirected, removed⟩
  let fields := keptFields s.config.storageName d.draft.seats ++
    (if d.appendsStorage then [storageEntry s.config] else []) ++
    proxied.map Prod.fst ++ held.map Held.entry
  return ⟨bytes, d.added, redirected, removed, ⟨s.owner, fields⟩, instrumented⟩

theorem run_eq (source : AnnotationSource) (old : Schema) (c : ClassFile) (r : Registries) :
    run source old c r = (ofExcept (c.name.mapError .format) >>= fun owner =>
      process ⟨owner, r.context.loader, r.context.config, source⟩ old c) r := rfl

/-- What covers the names that are drawn and also the end of a pass covers a pass. -/
theorem moves_run {R : Registries → Registries → Prop} (hrefl : ∀ r, R r r) {c : ClassFile}
    (hR : ∀ owner, c.name = .ok owner → Tracks owner R)
    (hconclude : ∀ pending declared requests, Moves R (conclude pending declared requests))
    (source : AnnotationSource) (old : Schema) : Moves R (run source old c) := by
  intro r
  cases hname : c.name with
  | error e =>
      rw [stateAfter, run_eq, hname]
      exact hrefl r
  | ok owner =>
    let s : Setting := ⟨owner, r.context.loader, r.context.config, source⟩
    have hown : Tracks s.owner R := hR owner hname
    have hprocess : Moves R (process s old c) := by
      refine .bind hown.trans (hown.ofExcept _) fun d =>
        .bind hown.trans (.mapM hrefl hown.trans ?_ _) fun _ =>
        .bind hown.trans (.mapM hrefl hown.trans (hown.holdStatic _) _) fun _ =>
        .bind hown.trans (hown.ofExcept _) fun _ => .bind hown.trans (hown.ofExcept _) fun _ =>
        .bind hown.trans (hconclude _ _ _) fun _ => .pure hrefl _
      exact fun x => hown.generateAccessor _ _ _ _ _
    have hrun : stateAfter (run source old c) r = stateAfter (process s old c) r := by
      rw [stateAfter, stateAfter, run_eq, hname]
      rfl
    rw [hrun]
    exact hprocess r

/-- The end of a pass keeps both counters. -/
theorem counters_conclude (pending : List Pending) (declared : List FieldAnnotations)
    (requests : Requests) (r : Registries) :
    (stateAfter (conclude pending declared requests) r).store.drawn = r.store.drawn ∧
      ∀ owner, (stateAfter (conclude pending declared requests) r).context.count owner =
        r.context.count owner := by
  cases h : conclude pending declared requests r with
  | ok u r' =>
      obtain ⟨hcommit, -⟩ := conclude_ok h
      obtain ⟨hstore, hcontext⟩ := Context.commit_eq hcommit
      rw [stateAfter_of_ok h, hstore, hcontext]
      exact ⟨rfl, fun _ => rfl⟩
  | error e r' =>
      obtain ⟨rfl, -⟩ := conclude_error h
      rw [stateAfter, h]
      exact ⟨rfl, fun _ => rfl⟩

/-- A pass over another class draws no name of a holder of this one. -/
theorem count_run (source : AnnotationSource) (old : Schema) {c : ClassFile} {name owner : String}
    (hname : c.name = .ok name) (hother : name ≠ owner) (r : Registries) :
    (stateAfter (run source old c) r).context.count owner = r.context.count owner := by
  let R : Registries → Registries → Prop := fun r r' =>
    r'.context.count owner = r.context.count owner
  refine moves_run (R := R) (fun _ => rfl) (fun name' hname' => ?_) (fun _ _ _ r => ?_)
    source old r
  · cases Except.ok.inj (hname'.symm.trans hname)
    refine ⟨fun _ => rfl, fun hr hr' => hr'.trans hr, fun _ _ => rfl, fun r => ?_⟩
    show (r.context.nextHolderName name).2.count owner = _
    rw [Context.count_nextHolderName, if_neg (Ne.symm hother)]
  · exact (counters_conclude _ _ _ r).2 owner

/-- Whatever comes of a pass, what it registers holders for are fields of its class. -/
theorem owner_of_holders_run {source : AnnotationSource} {old : Schema} {c : ClassFile}
    {name : String} (hname : c.name = .ok name) {r : Registries} {e : HolderEntry}
    (he : e ∈ (stateAfter (run source old c) r).context.holders) :
    e ∈ r.context.holders ∨ e.owner = name := by
  unfold stateAfter at he
  cases h : run source old c r with
  | error failure r' =>
      rw [h, drawn_of_error h] at he
      exact .inl he
  | ok o r' =>
      obtain ⟨t⟩ := run_ok h
      have howner : t.setting.owner = name := by
        rw [t.fixed]
        exact Except.ok.inj (t.named.symm.trans hname)
      rw [h, t.holders_eq] at he
      rcases List.mem_append.mp he with hnew | hold
      · obtain ⟨held, hheld, hpending⟩ := List.mem_filterMap.mp (List.mem_reverse.mp hnew)
        obtain ⟨f, -, hmade⟩ := exists_left_of_forall₂ t.made hheld
        rcases hmade.holder with ⟨-, hnone⟩ | ⟨-, bytes, hsome⟩
        · rw [hnone] at hpending
          cases hpending
        · rw [hsome] at hpending
          cases hpending
          exact .inr howner
      · exact .inl hold

theorem loaded_run (source : AnnotationSource) (old : Schema) (c : ClassFile) (r : Registries) :
    (stateAfter (run source old c) r).reflection.loaded = r.reflection.loaded := by
  unfold stateAfter
  cases h : run source old c r with
  | error e r' => exact (drawn_of_error h).agree.loaded.symm
  | ok o r' =>
      obtain ⟨t⟩ := run_ok h
      exact t.agree.loaded.symm

end Pass

end Reshape
