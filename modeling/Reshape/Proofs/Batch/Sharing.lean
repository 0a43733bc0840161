import Reshape.Batch.Run
import Reshape.Proofs.Redefinition.Isolation

/-!
# What the classes of a batch share

The classes of a batch share everything: the store of generated classes with its counter, the holders
of static fields, the table of annotations.  But what a class leaves there is marked with its name,
and no other class looks at that.
-/

namespace Reshape

/-! ## §1 Entering a loaded class -/

namespace Reflection

/-- What is entered for a class does not depend on what has been entered before. -/
theorem enterFields_eq (owner : String) (pool : Pool) (fields : List Field) :
    ∃ (result : Except FormatError Unit) (entries : List FieldAnnotations),
      (∀ e ∈ entries, e.owner = owner) ∧ ∀ r : Reflection,
        enterFields owner pool fields r = match result with
          | .ok u => .ok u { r with loaded := entries ++ r.loaded }
          | .error e => .error e { r with loaded := entries ++ r.loaded } := by
  induction fields with
  | nil => exact ⟨.ok (), [], nofun, fun r => rfl⟩
  | cons f fields ih =>
      obtain ⟨result, entries, howner, hrest⟩ := ih
      unfold enterFields
      cases hvisible : AnnotationUse.visible? pool f.attributes with
      | error e => exact ⟨.error e, [], nofun, fun r => rfl⟩
      | ok annotations =>
        cases hidentity : f.identityIn pool with
        | error e => exact ⟨.error e, [], nofun, fun r => rfl⟩
        | ok identity =>
          obtain ⟨name, descriptor⟩ := identity
          let entry : FieldAnnotations := ⟨owner, name, descriptor, annotations⟩
          refine ⟨result, entries ++ [entry],
            List.forall_mem_append.mpr ⟨howner, List.forall_mem_singleton.mpr rfl⟩, fun r => ?_⟩
          refine (hrest { r with loaded := entry :: r.loaded }).trans ?_
          simp only [List.append_assoc, List.singleton_append]

end Reflection

/-- Preparation keeps the name of a class. -/
theorem name_of_prepare {config : Config} {c c' : ClassFile} {added : Bool} {name : String}
    (hp : c.pool.Addressable) (hname : c.name = .ok name)
    (h : prepare config c = .ok (added, c')) : c'.name = .ok name := by
  obtain ⟨rfl, -⟩ | ⟨n, hdeclare⟩ := prepare_steps h
  · exact hname
  · obtain ⟨⟨hgrowth, -⟩, f, -, -, hc'⟩ := Pass.declareField_ok hp hdeclare
    rw [hc']
    exact hgrowth.className hname

namespace Batch

/-- The registries with more annotations of loaded fields. -/
def entered (entries : List FieldAnnotations) (r : Registries) : Registries :=
  { r with reflection := { r.reflection with loaded := entries ++ r.reflection.loaded } }

/-- What becomes of a loaded class does not depend on the registries, and all that is entered there
is marked with its name. -/
theorem enterLoaded_eq (o : Options) {content : Bytes} {name : String}
    (hname : ∀ c, ClassFile.parse content = .ok c → c.name = .ok name) :
    ∃ (result : Except String Schema) (entries : List FieldAnnotations),
      (∀ e ∈ entries, e.owner = name) ∧
      ∀ r, enterLoaded o content r = (result, entered entries r) := by
  unfold enterLoaded
  cases hparse : ClassFile.parse content with
  | error e => exact ⟨.error (malformed e), [], nofun, fun r => rfl⟩
  | ok c₀ =>
    dsimp only [bind, Except.bind, Except.mapError]
    cases hprepare : prepare o.config c₀ with
    | error e => exact ⟨.error e.message, [], nofun, fun r => rfl⟩
    | ok made =>
      obtain ⟨added, c⟩ := made
      dsimp only
      cases hschema : Schema.ofClass c with
      | error e => exact ⟨.error (malformed e), [], nofun, fun r => rfl⟩
      | ok schema =>
        have hc := name_of_prepare (ClassFile.wellFormed_of_parse hparse).2 (hname c₀ hparse) hprepare
        obtain ⟨result, entries, howner, hentered⟩ :=
          Reflection.enterFields_eq name c.pool c.fields
        have hclass (r : Reflection) :
            Reflection.enterClass c r = Reflection.enterFields name c.pool c.fields r := by
          rw [Reflection.enterClass, hc]
        dsimp only [pure, Except.pure]
        cases result with
        | ok u => exact ⟨.ok schema, entries, howner, fun r => by rw [hclass, hentered]; rfl⟩
        | error e =>
            exact ⟨.error (malformed e), entries, howner, fun r => by rw [hclass, hentered]; rfl⟩

/-- The registries are left by the loaded class or, if there is one, by the pass. -/
theorem registries_redefine (o : Options) (loaded new : Bytes) (r : Registries) :
    (redefine o loaded new r).2 = (enterLoaded o loaded r).2 ∨
      ∃ schema c, ClassFile.parse new = .ok c ∧ (redefine o loaded new r).2 =
        stateAfter (Pass.run (enterLoaded o loaded r).2.reflection.source schema c)
          (enterLoaded o loaded r).2 := by
  unfold redefine
  obtain ⟨result, r₁⟩ := enterLoaded o loaded r
  cases result with
  | error text => exact .inl rfl
  | ok schema =>
    dsimp only
    cases ClassFile.parse new with
    | error e => exact .inl rfl
    | ok c =>
      refine .inr ⟨schema, c, rfl, ?_⟩
      unfold stateAfter
      dsimp only
      cases Pass.run r₁.reflection.source schema c r₁ <;> rfl

/-! ## §2 What other classes leave -/

/-- What a batch has left before it comes to a class: nothing of that class. -/
structure Before (o : Options) (owner : String) (r : Registries) : Prop where
  config : r.context.config = o.config
  /-- The scope is in order, so that no names clash. -/
  orderly : ∃ contexts, contexts o.loader = r.context ∧ (Pass.World.mk r.store contexts).Orderly
  loaded : ∀ e ∈ r.reflection.loaded, e.owner ≠ owner
  held : ∀ e ∈ r.context.holders, e.owner ≠ owner
  count : r.context.count owner = 0

theorem namedByDefault (o : Options) : o.config.NamedByDefault := ⟨rfl, rfl⟩

namespace Before

variable {o : Options} {owner : String} {r : Registries}

theorem entered (h : Before o owner r) {entries : List FieldAnnotations}
    (hother : ∀ e ∈ entries, e.owner ≠ owner) : Before o owner (entered entries r) :=
  ⟨h.config, h.orderly, List.forall_mem_append.mpr ⟨hother, h.loaded⟩, h.held, h.count⟩

theorem loader (h : Before o owner r) : r.context.loader = o.loader := by
  obtain ⟨contexts, hcontext, horderly⟩ := h.orderly
  rw [← hcontext]
  exact horderly.loader o.loader

/-- No pass meets a clash of names. -/
theorem settled (h : Before o owner r) (entries : List FieldAnnotations) (source : AnnotationSource)
    (old : Schema) (c : ClassFile) (clash : NameClash) (t : Registries) :
    Pass.run source old c (Batch.entered entries r) ≠ .error (.clash clash) t := by
  obtain ⟨contexts, hcontext, horderly⟩ := h.orderly
  let a : Pass.Attempt :=
    ⟨o.loader, source, old, c, (Batch.entered entries r).reflection, r.requests⟩
  have hsame : (Pass.World.mk r.store contexts).registries a = Batch.entered entries r := by
    show (⟨r.store, contexts o.loader, _, r.requests⟩ : Registries) = _
    rw [hcontext]
    rfl
  have hsettled := horderly.settled a clash t
  rwa [Pass.World.pass, hsame] at hsettled

theorem config_named (h : Before o owner r) : r.context.config.NamedByDefault :=
  h.config ▸ namedByDefault o

/-- A pass over another class leaves nothing of this one. -/
theorem run (h : Before o owner r) (source : AnnotationSource) (old : Schema) {c : ClassFile}
    {name : String} (hname : c.name = .ok name) (hother : name ≠ owner) :
    Before o owner (stateAfter (Pass.run source old c) r) := by
  obtain ⟨pending, ⟨hs⟩⟩ := Pass.exists_settles source old c r h.config_named
  have hcount := Pass.count_run source old hname hother r
  obtain ⟨contexts, hcontext, horderly⟩ := h.orderly
  let a : Pass.Attempt := ⟨o.loader, source, old, c, r.reflection, r.requests⟩
  have hsame : (Pass.World.mk r.store contexts).registries a = r := by
    show (⟨r.store, contexts o.loader, r.reflection, r.requests⟩ : Registries) = r
    rw [hcontext]
  constructor
  · exact hs.config.trans h.config
  · have hafter := (horderly.next a).1
    rw [Pass.World.after, hsame] at hafter
    exact ⟨_, Function.update_self _ _ _, hafter⟩
  · rw [Pass.loaded_run]
    exact h.loaded
  · intro e he
    rcases Pass.owner_of_holders_run hname he with hold | hnew
    · exact h.held e hold
    · exact hnew ▸ hother
  · exact hcount.trans h.count

/-- Whatever becomes of another class, it leaves nothing of this one. -/
theorem redefine (h : Before o owner r) {loaded new : Bytes} {name : String}
    (hname : ∀ c, ClassFile.parse loaded = .ok c ∨ ClassFile.parse new = .ok c → c.name = .ok name)
    (hother : name ≠ owner) : Before o owner (redefine o loaded new r).2 := by
  obtain ⟨result, entries, howner, henter⟩ := enterLoaded_eq o fun c hc => hname c (.inl hc)
  have hentered : Before o owner (Batch.entered entries r) :=
    h.entered fun e he => howner e he ▸ hother
  rcases registries_redefine o loaded new r with hleft | ⟨schema, c, hnew, hleft⟩
  · rwa [hleft, henter]
  · rw [hleft, henter]
    exact hentered.run _ _ (hname c (.inr hnew)) hother

end Before

/-! ## §3 Results that are alike -/

/-- What is reported of a class whose constants do not fit into a pool. -/
def overflowText : String := RedefineError.message (.construction .poolOverflow)

/-- Both results are outcomes that are alike, or both are the same error, or both are errors and one
of them is that a pool overflows. -/
inductive ResultsAlike : Except String Outcome → Except String Outcome → Prop
  | ok {outcome outcome' : Outcome} (h : outcome.Alike outcome') :
      ResultsAlike (.ok outcome) (.ok outcome')
  | error (text : String) : ResultsAlike (.error text) (.error text)
  | overflow {text text' : String} (h : text = overflowText ∨ text' = overflowText) :
      ResultsAlike (.error text) (.error text')

end Batch

end Reshape
