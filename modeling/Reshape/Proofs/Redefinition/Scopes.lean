import Reshape.Proofs.Redefinition.Issuing
import Reshape.Proofs.Redefinition.Replay

/-!
# Loader scopes that share a store

Every loader scope has a context of its own, and all of them draw names from one store.
Redefinitions of any classes follow one another in any of the scopes, and some of them fail.  What
keeps the scopes in order is that each generated class has a name that was drawn for it in its
scope, and that a context registers just the classes that its scope has saved.  Then no commit can
find a name taken, and nothing that has been registered or saved is ever replaced.
-/

namespace Reshape

/-- The classes that the context has registered. -/
def Context.backings (c : Context) : List String :=
  c.holders.map HolderEntry.holder ++ c.accessors.map AccessorEntry.proxy

/-- What is registered for pending classes are their names. -/
theorem backings_pending (pending : List Pending) :
    ((pending.filterMap Pending.holding?).map HolderEntry.holder ++
      (pending.filterMap Pending.reporting?).map AccessorEntry.proxy).Perm
        (pending.map Pending.name) := by
  induction pending with
  | nil => exact .nil
  | cons p pending ih =>
      cases p with
      | holder entry bytes => exact ih.cons _
      | accessor entry bytes => exact List.perm_middle.trans (ih.cons _)

namespace Pass

/-! ## §1 Scopes and what happens in them -/

/-- The contexts of all scopes and the store they share. -/
structure World where
  store : Store
  contexts : String → Context

/-- A redefinition in one scope, with what else there is to it. -/
structure Attempt where
  scope : String
  source : AnnotationSource
  old : Schema
  c : ClassFile
  reflection : Reflection
  requests : Requests

namespace World

/-- No class has been redefined in any scope. -/
def start (config : String → Config) : World :=
  ⟨{}, fun scope => { loader := scope, config := config scope }⟩

def registries (w : World) (a : Attempt) : Registries :=
  ⟨w.store, w.contexts a.scope, a.reflection, a.requests⟩

def pass (w : World) (a : Attempt) : EStateM.Result PassFailure Registries Outcome :=
  run a.source a.old a.c (w.registries a)

/-- The registries of one scope have changed. -/
def updated (w : World) (scope : String) (r : Registries) : World :=
  ⟨r.store, Function.update w.contexts scope r.context⟩

/-- The scopes after the pass, whatever has come of it. -/
def after (w : World) (a : Attempt) : World :=
  w.updated a.scope (stateAfter (run a.source a.old a.c) (w.registries a))

theorem after_of_ok {w : World} {a : Attempt} {o : Outcome} {r : Registries}
    (h : w.pass a = .ok o r) : w.after a = w.updated a.scope r :=
  congrArg (w.updated a.scope) (stateAfter_of_ok h)

/-- Passes one after the other lead from the first to the second. -/
inductive Reaches (w : World) : World → Prop
  | here : Reaches w w
  | pass {w' : World} (before : Reaches w w') (a : Attempt) : Reaches w (w'.after a)

/-- What holds between passes. -/
structure Orderly (w : World) : Prop where
  loader : ∀ scope, (w.contexts scope).loader = scope
  naming : ∀ scope, (w.contexts scope).config.NamedByDefault
  issued : ∀ scope, ∀ name ∈ w.store.names scope,
    (w.contexts scope).HasIssued w.store.drawn name
  distinct : ∀ scope, (w.store.names scope).Nodup
  registered : ∀ scope, (w.store.names scope).Perm (w.contexts scope).backings

theorem orderly_start {config : String → Config}
    (hnames : ∀ scope, (config scope).NamedByDefault) : (start config).Orderly where
  loader _ := rfl
  naming := hnames
  issued := nofun
  distinct _ := .nil
  registered _ := .refl _

/-! ## §2 One pass -/

section Step

variable {w : World} {a : Attempt} {r : Registries} {pending : List Pending}

theorem contexts_updated_self : (w.updated a.scope r).contexts a.scope = r.context :=
  Function.update_self _ _ _

theorem contexts_updated_of_ne {scope : String} (h : scope ≠ a.scope) :
    (w.updated a.scope r).contexts scope = w.contexts scope :=
  Function.update_of_ne h _ _

variable (hs : Settles (w.registries a) pending r)
include hs

theorem backings_perm : r.context.backings.Perm
    ((w.contexts a.scope).backings ++ pending.map Pending.name) := by
  have hholders : r.context.holders =
      (pending.filterMap Pending.holding?).reverse ++ (w.contexts a.scope).holders := hs.holders
  have haccessors : r.context.accessors =
      (w.contexts a.scope).accessors ++ pending.filterMap Pending.reporting? := hs.accessors
  rw [List.perm_iff_count]
  intro name
  have hpending := (backings_pending pending).count_eq name
  simp only [Context.backings, hholders, haccessors, List.map_append, List.map_reverse,
    List.count_append, List.count_reverse] at hpending ⊢
  omega

variable (hw : w.Orderly)
include hw

theorem names_updated (scope : String) : (w.updated a.scope r).store.names scope =
    w.store.names scope ++ if scope = a.scope then pending.map Pending.name else [] := by
  have hloader : (w.registries a).context.loader = a.scope := hw.loader a.scope
  have hdefinitions := hs.definitions
  rw [hloader] at hdefinitions
  show r.store.names scope = _
  rw [Store.names, hdefinitions, List.filter_append, List.map_append, List.filter_map, List.map_map]
  congr 1
  by_cases hscope : scope = a.scope
  · subst hscope
    simp [Function.comp_def]
  · simp [Function.comp_def, hscope, Ne.symm hscope]

/-- No class of the scope has the name of a pending class. -/
theorem notMem_names {p : Pending} (hp : p ∈ pending) : p.name ∉ w.store.names a.scope := by
  intro hmem
  exact hs.issues.fresh p hp (hw.issued a.scope p.name hmem)

/-- **Whatever comes of a pass, the scopes stay in order.** -/
theorem orderly_updated : (w.updated a.scope r).Orderly := by
  have hnames := names_updated hs hw
  constructor
  · intro scope
    by_cases hscope : scope = a.scope
    · subst hscope
      rw [contexts_updated_self, hs.loader]
      exact hw.loader a.scope
    · rw [contexts_updated_of_ne hscope]
      exact hw.loader scope
  · intro scope
    by_cases hscope : scope = a.scope
    · subst hscope
      rw [contexts_updated_self, hs.config]
      exact hw.naming a.scope
    · rw [contexts_updated_of_ne hscope]
      exact hw.naming scope
  · intro scope name hname
    rw [hnames] at hname
    by_cases hscope : scope = a.scope
    · subst hscope
      rw [contexts_updated_self]
      rw [if_pos rfl] at hname
      apply hs.hasIssued
      rcases List.mem_append.mp hname with hold | hnew
      · exact hs.issues.advances.hasIssued (hw.issued a.scope name hold)
      · obtain ⟨p, hp, rfl⟩ := List.mem_map.mp hnew
        exact hs.issues.issued p hp
    · rw [contexts_updated_of_ne hscope]
      rw [if_neg hscope, List.append_nil] at hname
      exact (hw.issued scope name hname).mono rfl hs.proxies fun _ => Nat.le_refl _
  · intro scope
    rw [hnames]
    by_cases hscope : scope = a.scope
    · subst hscope
      rw [if_pos rfl]
      refine List.Nodup.append (hw.distinct a.scope) hs.issues.distinct ?_
      intro name hold hnew
      obtain ⟨p, hp, rfl⟩ := List.mem_map.mp hnew
      exact notMem_names hs hw hp hold
    · rw [if_neg hscope, List.append_nil]
      exact hw.distinct scope
  · intro scope
    rw [hnames]
    by_cases hscope : scope = a.scope
    · subst hscope
      rw [contexts_updated_self, if_pos rfl]
      exact ((hw.registered a.scope).append_right _).trans (backings_perm hs).symm
    · rw [contexts_updated_of_ne hscope, if_neg hscope, List.append_nil]
      exact hw.registered scope

end Step

/-- What is registered or saved at first is so in the end. -/
structure Preserves (w w' : World) : Prop where
  bytes : ∀ scope name bytes, w.store.load? scope name = some bytes →
    w'.store.load? scope name = some bytes
  held : ∀ scope owner name descriptor holder,
    (w.contexts scope).holderFor? owner name descriptor = some holder →
    (w'.contexts scope).holderFor? owner name descriptor = some holder

theorem Preserves.refl (w : World) : w.Preserves w := by
  constructor
  · intro scope name bytes h
    exact h
  · intro scope owner name descriptor holder h
    exact h

theorem Preserves.trans {w w' w'' : World} (h : w.Preserves w') (h' : w'.Preserves w'') :
    w.Preserves w'' := by
  constructor
  · intro scope name bytes hbytes
    exact h'.bytes scope name bytes (h.bytes scope name bytes hbytes)
  · intro scope owner name descriptor holder hholder
    exact h'.held scope owner name descriptor holder
      (h.held scope owner name descriptor holder hholder)

theorem preserves_updated {w : World} {a : Attempt} {r : Registries} {pending : List Pending}
    (hs : Settles (w.registries a) pending r) : w.Preserves (w.updated a.scope r) := by
  constructor
  · intro scope name bytes hbytes
    exact hs.load?_of_some hbytes
  · intro scope owner name descriptor holder hholder
    by_cases hscope : scope = a.scope
    · subst hscope
      rw [contexts_updated_self]
      exact hs.holderFor?_of_some hholder
    · rw [contexts_updated_of_ne hscope]
      exact hholder

theorem Orderly.next {w : World} (hw : w.Orderly) (a : Attempt) :
    (w.after a).Orderly ∧ w.Preserves (w.after a) := by
  obtain ⟨pending, ⟨hs⟩⟩ := exists_settles a.source a.old a.c (w.registries a) (hw.naming a.scope)
  exact ⟨orderly_updated hs hw, preserves_updated hs⟩

theorem Orderly.reached {w w' : World} (hw : w.Orderly) (h : w.Reaches w') :
    w'.Orderly ∧ w.Preserves w' := by
  induction h with
  | here => exact ⟨hw, .refl w⟩
  | pass before a ih =>
      obtain ⟨hbefore, hkept⟩ := ih
      obtain ⟨hafter, hstep⟩ := hbefore.next a
      exact ⟨hafter, hkept.trans hstep⟩

/-- No commit finds a name taken. -/
theorem Orderly.settled {w : World} (hw : w.Orderly) (a : Attempt) (clash : NameClash)
    (r : Registries) : w.pass a ≠ .error (.clash clash) r := by
  intro h
  obtain ⟨s, shape, proxied, held, r₁, hconfig, ⟨hgenerates⟩, hcommit⟩ := run_clash h
  have hissues := hgenerates.issues (hw.naming a.scope) hconfig
  have hdrawn := hissues.advances.drawn
  have hfree : ∀ p ∈ proxied.map Prod.snd ++ held.filterMap Held.pending,
      p.name ∉ r₁.store.names r₁.context.loader ∧ r₁.context.accessor? p.name = none := by
    intro p hp
    have hnew : p.name ∉ w.store.names a.scope := by
      intro hmem
      exact hissues.fresh p hp (hw.issued a.scope p.name hmem)
    rw [hdrawn]
    constructor
    · show p.name ∉ w.store.names (w.contexts a.scope).loader
      rwa [hw.loader]
    · show (w.contexts a.scope).accessor? p.name = none
      rw [Context.accessor?, Option.map_eq_none_iff, List.find?_eq_none]
      intro entry hentry hsame
      rw [beq_iff_eq] at hsame
      apply hnew
      rw [(hw.registered a.scope).mem_iff, ← hsame]
      exact List.mem_append_right _ (List.mem_map_of_mem hentry)
  obtain ⟨state, hstate⟩ := Context.commit_of_new hissues.distinct hfree
  cases hstate.symm.trans hcommit

/-- A pass redirects to holders that the context knows from then on. -/
theorem holderFor?_after {w : World} {a : Attempt} {o : Outcome} {r : Registries}
    (h : w.pass a = .ok o r) {x : StaticRedirect} (hx : x ∈ o.redirected) :
    ((w.after a).contexts a.scope).holderFor? x.owner x.name x.descriptor = some x.holder := by
  obtain ⟨t⟩ := run_ok h
  rw [t.redirected] at hx
  obtain ⟨held, hheld, rfl⟩ := List.mem_map.mp hx
  obtain ⟨f, -, hmade⟩ := exists_left_of_forall₂ t.made hheld
  rw [after_of_ok h, contexts_updated_self, hmade.owner]
  exact t.holderFor?_redirect t.addressable hheld

/-! ## §3 All passes -/

/-- What holds whenever passes have been made. -/
structure Sound (w : World) : Prop where
  /-- No commit finds a name taken. -/
  settled : ∀ (a : Attempt) clash r, w.pass a ≠ .error (.clash clash) r
  /-- The classes of a scope have different names. -/
  unique : ∀ scope, (w.store.namesIn scope).Nodup
  /-- They are the holders and the accessor classes of its context. -/
  registered : ∀ scope, (w.store.namesIn scope).Perm (w.contexts scope).backings
  /-- A holder is for one field. -/
  separate : ∀ scope, ∀ e ∈ (w.contexts scope).holders, ∀ e' ∈ (w.contexts scope).holders,
    e.holder = e'.holder → e = e'
  /-- A static field that is added has its holder from then on. -/
  answered : ∀ (a : Attempt) o r, w.pass a = .ok o r → ∀ x ∈ o.redirected,
    ((w.after a).contexts a.scope).holderFor? x.owner x.name x.descriptor = some x.holder

theorem Orderly.sound {w : World} (hw : w.Orderly) : w.Sound := by
  constructor
  · exact hw.settled
  · intro scope
    exact (w.store.namesIn_perm scope).nodup_iff.mpr (hw.distinct scope)
  · intro scope
    exact (w.store.namesIn_perm scope).trans (hw.registered scope)
  · intro scope e he e' he' hsame
    have hbackings := (hw.registered scope).nodup_iff.mp (hw.distinct scope)
    exact List.inj_on_of_nodup_map hbackings.of_append_left he he' hsame
  · intro a o r h x hx
    exact holderFor?_after h hx

/-- What is so at first is so later, and is used by later passes. -/
structure Keeps (w w' : World) : Prop extends Preserves w w' where
  /-- A static field that is added again is redirected to the holder it has. -/
  redirected : ∀ (a : Attempt) o r, w'.pass a = .ok o r → ∀ x ∈ o.redirected, ∀ holder,
    (w.contexts a.scope).holderFor? x.owner x.name x.descriptor = some holder → x.holder = holder

theorem Orderly.keeps {w w' : World} (hw : w.Orderly) (h : w.Reaches w') : w.Keeps w' := by
  obtain ⟨-, hkept⟩ := hw.reached h
  refine ⟨hkept, fun a o r hpass x hx holder hholder => ?_⟩
  obtain ⟨-, hlater⟩ := hw.reached (h.pass a)
  have hstill := hlater.held a.scope _ _ _ holder hholder
  rw [holderFor?_after hpass hx] at hstill
  exact Option.some.inj hstill

end World

/-- **Generated names never clash, and holders are permanent.**  Contexts of different scopes share
one store, which is empty at first, and passes over any classes follow one another, whether they
succeed or fail.  No commit finds a name taken, the classes of a scope have different names, a
holder is for one field only, and what a scope has saved or registered stays. -/
theorem names_never_clash {config : String → Config}
    (hnames : ∀ scope, (config scope).NamedByDefault) {w : World}
    (h : (World.start config).Reaches w) :
    w.Sound ∧ ∀ w', w.Reaches w' → w.Keeps w' := by
  obtain ⟨hw, -⟩ := (World.orderly_start hnames).reached h
  constructor
  · exact hw.sound
  · intro w' hlater
    exact hw.keeps hlater

/-- A redefinition of a class that was loaded without fields. -/
def attempt (scope : String) (c : ClassFile) : Attempt :=
  ⟨scope, noAnnotations, ⟨"A", [storageEntry {}]⟩, c, {}, {}⟩

/-- The static field is the only one. -/
def onlyStatic : ClassFile :=
  { sample [] with fields := [⟨⟨9⟩, 12, 11, []⟩] }

/-- In the first scope a pass is refused and the next one adds the field among others; then the
second scope adds it. -/
def twoScopes : World :=
  (((World.start fun _ => {}).after (attempt "app" withoutCall)).after
    (attempt "app" threeFields)).after (attempt "lib" onlyStatic)

/-- The holders of the two scopes have the same name.  After the first scope has dropped the field
and added it again, it is in its holder still. -/
theorem names_never_clash_twoScopes :
    (World.start fun _ => {}).Reaches twoScopes ∧ twoScopes.Sound ∧
      twoScopes.store.names "app" = ["org/hotfield/proxy/FieldProxy$1",
        "org/hotfield/proxy/FieldProxy$2", "A$StaticFieldHolder$0"] ∧
      twoScopes.store.names "lib" = ["A$StaticFieldHolder$0"] ∧
      ∃ o r, (twoScopes.after (attempt "app" (sample []))).pass (attempt "app" onlyStatic) =
          .ok o r ∧ o.redirected.map StaticRedirect.identity = [("y", "I")] ∧
        ∀ x ∈ o.redirected, x.owner = "A" → x.identity = ("y", "I") →
          x.holder = "A$StaticFieldHolder$0" := by
  have evaluated : (twoScopes.store.names "app" == ["org/hotfield/proxy/FieldProxy$1",
        "org/hotfield/proxy/FieldProxy$2", "A$StaticFieldHolder$0"] &&
      twoScopes.store.names "lib" == ["A$StaticFieldHolder$0"] &&
      (twoScopes.contexts "app").holderFor? "A" "y" "I" == some "A$StaticFieldHolder$0" &&
      (succeeded ((twoScopes.after (attempt "app" (sample []))).pass
        (attempt "app" onlyStatic))).any fun (o, _) =>
          o.redirected.map StaticRedirect.identity == [("y", "I")]) = true := by
    decide +kernel
  simp only [Bool.and_eq_true, beq_iff_eq] at evaluated
  obtain ⟨⟨⟨happ, hlib⟩, hfirst⟩, hagain⟩ := evaluated
  obtain ⟨⟨o, r⟩, ran, hredirected⟩ := (Option.any_eq_true _ _).mp hagain
  have reached : (World.start fun _ => {}).Reaches twoScopes :=
    .pass (.pass (.pass .here _) _) _
  obtain ⟨hsound, hkeeps⟩ :=
    names_never_clash (fun _ => Config.namedByDefault_default) reached
  refine ⟨reached, hsound, happ, hlib, o, r, eq_ok_of_succeeded ran,
    beq_iff_eq.mp hredirected, ?_⟩
  intro x hx howner hidentity
  obtain ⟨hname, hdescriptor⟩ := Prod.mk.inj hidentity
  apply (hkeeps _ (.pass .here _)).redirected _ o r (eq_ok_of_succeeded ran) x hx
  rw [howner, hname, hdescriptor]
  exact hfirst

end Pass

end Reshape
