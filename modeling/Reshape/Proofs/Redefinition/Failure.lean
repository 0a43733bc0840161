import Reshape.Proofs.Redefinition.FieldTable
import Reshape.Proofs.Redefinition.Naming
import Reshape.Proofs.Registry.Commit

/-!
# A pass that fails

Until its very end a pass only draws names, from the counter of the store and from those of the
context.  `Drawn` says that two registries differ in nothing else.  Since the last step either
takes effect as a whole or does nothing, a refused pass leaves registries that are `Drawn` from
those it started with.  Whatever is redefined later then comes out as if the refused pass had not
been, except that generated classes may get other names.
-/

namespace Reshape

namespace Pass

/-! ## §1 Names that are drawn -/

/-- The second registries are the first with more names drawn. -/
def Drawn (r r' : Registries) : Prop :=
  r' = { r with
    store := { r.store with drawn := r'.store.drawn }
    context := { r.context with holderCounts := r'.context.holderCounts } }

theorem Drawn.refl (r : Registries) : Drawn r r := rfl

theorem Drawn.trans {r r' r'' : Registries} (h : Drawn r r') (h' : Drawn r' r'') :
    Drawn r r'' := by
  unfold Drawn at h h' ⊢
  rw [h', h]

/-- Whatever comes of the action, it only draws names. -/
def Action.Draws {α : Type} (x : Action α) : Prop := ∀ r, Drawn r (stateAfter x r)

/-- A relation of registries that covers drawing names one after the other, those of holders for
one owner. -/
structure Tracks (owner : String) (R : Registries → Registries → Prop) : Prop where
  refl : ∀ r, R r r
  trans : ∀ {r r' r''}, R r r' → R r' r'' → R r r''
  proxy : ∀ stem, Moves R (drawProxyName stem)
  holder : Moves R (drawHolderName owner)

theorem tracks_drawn (owner : String) : Tracks owner Drawn :=
  ⟨.refl, .trans, fun _ _ => rfl, fun _ => rfl⟩

namespace Tracks

variable {R : Registries → Registries → Prop}

section Steps

variable {owner : String} (hR : Tracks owner R)
include hR

theorem ofExcept {α : Type} (x : Except RedefineError α) : Moves R (ofExcept x) := by
  cases x with
  | error e => exact .throw hR.refl (PassFailure.refused e)
  | ok a => exact .pure hR.refl a

theorem generateAccessor (s : Setting) (c : ClassFile) (layout : StorageLayout)
    (record : AddedField) (f : Field) : Moves R (generateAccessor s c layout record f) :=
  .bind hR.trans (hR.proxy _) fun _ => .bind hR.trans (hR.ofExcept _) fun _ =>
    .bind hR.trans (hR.ofExcept _) fun _ => .pure hR.refl _

end Steps

theorem holdStatic {s : Setting} (hR : Tracks s.owner R) (c : ClassFile) (f : Field) :
    Moves R (holdStatic s c f) := by
  refine .bind hR.trans (hR.ofExcept _) fun (name, descriptor) =>
    .bind hR.trans (.get hR.refl) fun r => ?_
  cases r.context.holderFor? s.owner name descriptor with
  | some holder => exact .bind hR.trans (hR.ofExcept _) fun _ => .pure hR.refl _
  | none =>
      exact .bind hR.trans hR.holder fun _ => .bind hR.trans (hR.ofExcept _) fun _ =>
        .bind hR.trans (hR.ofExcept _) fun _ => .bind hR.trans (hR.ofExcept _) fun _ =>
        .pure hR.refl _

/-- While classes are generated, names are drawn and nothing else happens. -/
theorem ran (hR : ∀ owner, Tracks owner R) {source : AnnotationSource} {old : Schema}
    {c : ClassFile} {r r' : Registries} {o : Outcome} (t : Ran source old c r o r') :
    R r t.afterProxies ∧ R r t.afterHolders := by
  have hown := hR t.setting.owner
  have hproxies := Moves.mapM hown.refl hown.trans (fun x : AddedField × Field =>
    hown.generateAccessor t.setting t.shape.shaped t.shape.layout x.1 x.2)
    (t.shape.added.zip t.shape.draft.instances)
  have hholders := Moves.mapM hown.refl hown.trans (hown.holdStatic t.shape.shaped)
    t.shape.draft.statics
  have hfirst : R r t.afterProxies := hproxies.of_ok t.generated
  exact ⟨hfirst, hown.trans hfirst (hholders.of_ok t.holding)⟩

end Tracks

open Pass.Action

theorem draws_holdStatic (s : Setting) (c : ClassFile) (f : Field) : Draws (holdStatic s c f) :=
  (tracks_drawn s.owner).holdStatic c f

theorem Action.Draws.drawn {α : Type} {x : Action α} (hx : x.Draws) {r r' : Registries} {a : α}
    (h : x r = .ok a r') : Drawn r r' :=
  Moves.of_ok hx h

/-! ## §2 A pass as a whole -/

/-- If the action fails, the registries before and after it are related. -/
def Action.MovesOnFailure (R : Registries → Registries → Prop) {α : Type} (x : Action α) : Prop :=
  ∀ r e r', x r = .error e r' → R r r'

theorem Action.movesOnFailure_of_moves {R : Registries → Registries → Prop} {α : Type}
    {x : Action α} (hx : Moves R x) : MovesOnFailure R x := by
  intro r e r' h
  have hr := hx r
  rwa [stateAfter, h] at hr

namespace Tracks

variable {R : Registries → Registries → Prop}

section Steps

variable {owner : String} (hR : Tracks owner R)
include hR

/-- Steps that only draw names may come first. -/
theorem first {α β : Type} {x : Action α} {f : α → Action β} (hx : Moves R x)
    (hf : ∀ a, MovesOnFailure R (f a)) : MovesOnFailure R (x >>= f) := by
  intro r e r' h
  rcases state_bind_eq_error.mp h with h | ⟨a, t, ha, h⟩
  · exact movesOnFailure_of_moves hx r e r' h
  · exact hR.trans (hx.of_ok ha) (hf a t e r' h)

/-- Nothing can fail any more once the pass has taken effect. -/
theorem conclude {α : Type} (pending : List Pending) (declared : List FieldAnnotations)
    (requests : Requests) (a : α) :
    MovesOnFailure R (conclude pending declared requests >>= fun _ => pure a) := by
  intro r e r' h
  rcases state_bind_eq_error.mp h with h | ⟨u, t, -, h⟩
  · obtain ⟨rfl, -⟩ := conclude_error h
    exact hR.refl _
  · cases h

end Steps

theorem run_error (hR : ∀ owner, Tracks owner R) {source : AnnotationSource} {old : Schema}
    {c : ClassFile} {r r' : Registries} {e : PassFailure}
    (h : run source old c r = .error e r') : R r r' := by
  have hpass : MovesOnFailure R (run source old c) := by
    have hany := hR ""
    refine hany.first (.get hany.refl) fun _ => hany.first (hany.ofExcept _) fun owner => ?_
    have hown := hR owner
    refine hown.first (hown.ofExcept _) fun d =>
      hown.first (.mapM hown.refl hown.trans ?_ _) fun _ =>
      hown.first (.mapM hown.refl hown.trans (holdStatic hown _) _) fun _ =>
      hown.first (hown.ofExcept _) fun _ => hown.first (hown.ofExcept _) fun _ =>
      hown.conclude _ _ _ _
    exact fun x => hown.generateAccessor _ _ _ _ _
  exact hpass r e r' h

end Tracks

/-- **A pass that fails has done nothing but draw names.** -/
theorem drawn_of_error {source : AnnotationSource} {old : Schema} {c : ClassFile}
    {r r' : Registries} {e : PassFailure} (h : run source old c r = .error e r') :
    Drawn r r' :=
  Tracks.run_error tracks_drawn h

/-! ## §3 Later passes -/

/-- What a pass reads of the registries and no pass changes. -/
structure Agree (r r' : Registries) : Prop where
  loader : r.context.loader = r'.context.loader
  config : r.context.config = r'.context.config
  loaded : r.reflection.loaded = r'.reflection.loaded

namespace Agree

variable {r r' r'' : Registries}

theorem symm (h : Agree r r') : Agree r' r := ⟨h.loader.symm, h.config.symm, h.loaded.symm⟩

theorem trans (h : Agree r r') (h' : Agree r' r'') : Agree r r'' :=
  ⟨h.loader.trans h'.loader, h.config.trans h'.config, h.loaded.trans h'.loaded⟩

theorem source (h : Agree r r') : r.reflection.source = r'.reflection.source := by
  funext owner name descriptor
  unfold Reflection.source
  rw [h.loaded]

end Agree

theorem Drawn.agree {r r' : Registries} (h : Drawn r r') : Agree r r' := by
  rw [h]
  exact ⟨rfl, rfl, rfl⟩

theorem loaded_record (declared : List FieldAnnotations) : ∀ r : Reflection,
    (declared.foldl (fun r e => r.record e) r).loaded = r.loaded := by
  induction declared with
  | nil => exact fun r => rfl
  | cons e declared ih => exact fun r => ih (r.record e)

theorem conclude_agree {pending : List Pending} {declared : List FieldAnnotations}
    {requests : Requests} {r r' : Registries}
    (h : conclude pending declared requests r = .ok () r') : Agree r r' := by
  obtain ⟨hcommit, hreflection, -⟩ := conclude_ok h
  obtain ⟨-, ⟨hloader, hconfig⟩, -⟩ := Context.commit_ok hcommit
  refine ⟨hloader.symm, hconfig.symm, ?_⟩
  rw [hreflection, loaded_record]

theorem Ran.drawn {source : AnnotationSource} {old : Schema} {c : ClassFile}
    {r r' : Registries} {o : Outcome} (t : Ran source old c r o r') :
    Drawn r t.afterProxies ∧ Drawn r t.afterHolders :=
  Tracks.ran tracks_drawn t

theorem Ran.agree {source : AnnotationSource} {old : Schema} {c : ClassFile}
    {r r' : Registries} {o : Outcome} (t : Ran source old c r o r') : Agree r r' :=
  t.drawn.2.agree.trans (conclude_agree t.concluded)

/-- What is pending when the pass commits: the accessor classes and then the new holders. -/
def Ran.pending {source : AnnotationSource} {old : Schema} {c : ClassFile} {r r' : Registries}
    {o : Outcome} (t : Ran source old c r o r') : List Pending :=
  t.proxied.map Prod.snd ++ t.held.filterMap Held.pending

/-- What is pending is added to what there was before the pass. -/
theorem Ran.committed {source : AnnotationSource} {old : Schema} {c : ClassFile}
    {r r' : Registries} {o : Outcome} (t : Ran source old c r o r') :
    r'.store.definitions =
        r.store.definitions ++ t.pending.map (Pending.definition r.context.loader) ∧
      r'.context.holders =
        (t.pending.filterMap Pending.holding?).reverse ++ r.context.holders ∧
      r'.context.accessors =
        r.context.accessors ++ t.pending.filterMap Pending.reporting? := by
  obtain ⟨hcommit, -⟩ := conclude_ok t.concluded
  obtain ⟨hstore, hcontext⟩ := Context.commit_eq hcommit
  rw [hstore, hcontext, t.drawn.2]
  exact ⟨rfl, rfl, rfl⟩

/-- A pass comes to its end in the second registries: it succeeds or it is refused.  A clash is
no end that anything could follow. -/
def Ends (old : Schema) (c : ClassFile) (r r' : Registries) : Prop :=
  (∃ o, run r.reflection.source old c r = .ok o r') ∨
    ∃ e, run r.reflection.source old c r = .error (.refused e) r'

theorem Ends.agree {old : Schema} {c : ClassFile} {r r' : Registries} (h : Ends old c r r') :
    Agree r r' := by
  rcases h with ⟨o, h⟩ | ⟨e, h⟩
  · obtain ⟨t⟩ := run_ok h
    exact t.agree
  · exact (drawn_of_error h).agree

/-- Two runs in which the same happens next, one from each of two registries.  The outcomes of
the passes that succeed in both are listed in pairs. -/
inductive Alongside (r r' : Registries) :
    List (Outcome × Outcome) → Registries → Registries → Prop
  | start : Alongside r r' [] r r'
  /-- A pass succeeds in both runs.  The schemas may come from earlier passes of either run. -/
  | both {pairs : List (Outcome × Outcome)} {s s' t t' : Registries} {old old' : Schema}
      {c : ClassFile} {o o' : Outcome} (before : Alongside r r' pairs s s')
      (same : old.unnamed = old'.unnamed) (ran : run s.reflection.source old c s = .ok o t)
      (ran' : run s'.reflection.source old' c s' = .ok o' t') :
      Alongside r r' (pairs ++ [(o, o')]) t t'
  /-- A pass need not succeed in both runs. -/
  | apart {pairs : List (Outcome × Outcome)} {s s' t t' : Registries} {old old' : Schema}
      {c : ClassFile} (before : Alongside r r' pairs s s') (ends : Ends old c s t)
      (ends' : Ends old' c s' t') : Alongside r r' pairs t t'
  /-- The annotations of further classes are entered. -/
  | enters {pairs : List (Outcome × Outcome)} {s s' : Registries}
      (before : Alongside r r' pairs s s') (entries : List FieldAnnotations) :
      Alongside r r' pairs
        { s with reflection := { s.reflection with loaded := entries ++ s.reflection.loaded } }
        { s' with reflection := { s'.reflection with loaded := entries ++ s'.reflection.loaded } }
  /-- The context of another loader scope is selected. -/
  | selects {pairs : List (Outcome × Outcome)} {s s' : Registries}
      (before : Alongside r r' pairs s s') (context context' : Context)
      (loader : context.loader = context'.loader) (config : context.config = context'.config) :
      Alongside r r' pairs { s with context } { s' with context := context' }

theorem Alongside.alike {r r' s s' : Registries} {pairs : List (Outcome × Outcome)}
    (hagree : Agree r r') (h : Alongside r r' pairs s s') :
    Agree s s' ∧ ∀ p ∈ pairs, p.1.Alike p.2 := by
  induction h with
  | start => exact ⟨hagree, nofun⟩
  | both before same ran ran' ih =>
      obtain ⟨hsame, hpairs⟩ := ih
      rw [← hsame.source] at ran'
      obtain ⟨t⟩ := run_ok ran
      obtain ⟨t'⟩ := run_ok ran'
      refine ⟨(t.agree.symm.trans hsame).trans t'.agree, fun p hp => ?_⟩
      rcases List.mem_append.mp hp with hp | hp
      · exact hpairs p hp
      · cases List.mem_singleton.mp hp
        exact t.alike t' hsame.loader hsame.config same
  | apart before ends ends' ih =>
      exact ⟨(ends.agree.symm.trans ih.1).trans ends'.agree, ih.2⟩
  | enters before entries ih =>
      exact ⟨⟨ih.1.loader, ih.1.config, congrArg (entries ++ ·) ih.1.loaded⟩, ih.2⟩
  | selects before context context' loader config ih =>
      exact ⟨⟨loader, config, ih.1.loaded⟩, ih.2⟩

/-- **A pass that fails commits nothing, and no later pass can tell.**  Definitions, holders,
accessors, annotations and requests are as they were.  Compare the run with the failed pass to
the run without it: whatever happens next in both, a later pass that succeeds in both has the
same outcome, up to the names of generated classes. -/
theorem refused_pass_invisible {source : AnnotationSource} {old : Schema} {c : ClassFile}
    {r r' : Registries} {e : RedefineError} (h : run source old c r = .error (.refused e) r') :
    (r'.store.definitions = r.store.definitions ∧ r'.context.holders = r.context.holders ∧
      r'.context.accessors = r.context.accessors ∧
      (∀ owner, r'.context.proxiesOf owner = r.context.proxiesOf owner) ∧
      r'.reflection = r.reflection ∧ r'.requests = r.requests) ∧
    ∀ {pairs : List (Outcome × Outcome)} {s s' : Registries}, Alongside r' r pairs s s' →
      ∀ p ∈ pairs, p.1.Alike p.2 := by
  have hdrawn := drawn_of_error h
  constructor
  · rw [hdrawn]
    exact ⟨rfl, rfl, rfl, fun _ => rfl, rfl, rfl⟩
  · intro pairs s s' hlater
    exact (hlater.alike hdrawn.agree.symm).2

/-- The sample class with a constructor that calls no other. -/
def withoutCall : ClassFile :=
  { sample [10] with methods := [⟨⟨1⟩, 5, 6, [⟨7, [0, 0, 0, 1, 0, 0, 0, 1, 0xb1, 0, 0, 0, 0]⟩]⟩] }

/-- The second version of the sample class, which adds two fields, right after it was loaded. -/
def second (r : Registries) : EStateM.Result PassFailure Registries Outcome :=
  run r.reflection.source ⟨"A", [storageEntry {}]⟩ (sample [10, 12]) r

/-- A pass is refused when it has drawn a name already.  The next one then gets another name for
its accessor class, and nothing else differs. -/
theorem refused_pass_invisible_sample :
    ∃ (e : RedefineError) (r' s s' : Registries) (o o' : Outcome),
      run noAnnotations ⟨"A", [storageEntry {}]⟩ withoutCall (.start {} "app") =
        .error (.refused e) r' ∧
      r'.store.drawn = 1 ∧ r'.store.definitions = [] ∧
      Alongside r' (.start {} "app") [(o, o')] s s' ∧ o.Alike o' ∧ o.schema ≠ o'.schema := by
  have evaluated : (match run noAnnotations ⟨"A", [storageEntry {}]⟩ withoutCall
      (.start {} "app") with
    | .error (.refused _) r' => r'.store.drawn == 1 && (succeeded (second r')).any fun (o, _) =>
        (succeeded (second (.start {} "app"))).any fun (o', _) => o.schema != o'.schema
    | _ => false) = true := by
    decide +kernel
  split at evaluated
  case h_2 => cases evaluated
  next e r' h =>
  simp only [Bool.and_eq_true, beq_iff_eq] at evaluated
  obtain ⟨hdrawn, hsecond⟩ := evaluated
  obtain ⟨⟨o, s⟩, ran, hsecond⟩ := (Option.any_eq_true _ _).mp hsecond
  obtain ⟨⟨o', s'⟩, ran', hnames⟩ := (Option.any_eq_true _ _).mp hsecond
  obtain ⟨⟨hdefinitions, -⟩, hlater⟩ := refused_pass_invisible h
  have hpair : Alongside r' (.start {} "app") [(o, o')] s s' :=
    .both .start rfl (eq_ok_of_succeeded ran) (eq_ok_of_succeeded ran')
  exact ⟨e, r', s, s', o, o', h, hdrawn, hdefinitions, hpair,
    hlater hpair _ (List.mem_singleton_self _), by simpa using hnames⟩

end Pass

end Reshape
