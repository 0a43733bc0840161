import Reshape.Proofs.Results
import Reshape.Registry.Context

/-!
# What a commit registers

Committing goes through the pending classes in order.  Each is saved, and what it stands for is
registered: a holder in front of those there were, and an accessor behind them.  An accessor is
registered under a proxy that had none, so each registered accessor is found ever after.
-/

namespace Reshape

/-- The holder that is registered when the class is committed. -/
def Pending.holding? : Pending → Option HolderEntry
  | .holder entry _ => some entry
  | .accessor _ _ => none

/-- The accessor that is registered when the class is committed. -/
def Pending.reporting? : Pending → Option AccessorEntry
  | .holder _ _ => none
  | .accessor entry _ => some entry

/-- What is saved when the class is committed. -/
def Pending.definition (scope : String) : Pending → Definition
  | .holder entry bytes => ⟨scope, entry.holder, bytes⟩
  | .accessor entry bytes => ⟨scope, entry.proxy, bytes⟩

/-- The name of the class. -/
def Pending.name : Pending → String
  | .holder entry _ => entry.holder
  | .accessor entry _ => entry.proxy

@[simp] theorem Pending.name_definition (p : Pending) (scope : String) :
    (p.definition scope).name = p.name := by
  cases p <;> rfl

@[simp] theorem Pending.scope_definition (p : Pending) (scope : String) :
    (p.definition scope).scope = scope := by
  cases p <;> rfl

theorem Store.contains_of_mem {s : Store} {d : Definition} (h : d ∈ s.definitions) :
    s.contains d.scope d.name = true := by
  unfold contains load?
  rw [Option.isSome_map, List.find?_isSome]
  exact ⟨d, h, by simp⟩

/-- The names in a scope, oldest first. -/
def Store.names (s : Store) (scope : String) : List String :=
  (s.definitions.filter (·.scope == scope)).map Definition.name

theorem Store.namesIn_perm (s : Store) (scope : String) : (s.namesIn scope).Perm (s.names scope) :=
  List.mergeSort_perm _ _

theorem Store.contains_iff {s : Store} {scope name : String} :
    s.contains scope name = true ↔ name ∈ s.names scope := by
  unfold contains load?
  rw [Option.isSome_map, List.find?_isSome]
  simp [names, and_assoc]

theorem Store.names_append (s : Store) (scope : String) (ds : List Definition) :
    ({ s with definitions := s.definitions ++ ds } : Store).names scope =
      s.names scope ++ ((ds.filter (·.scope == scope)).map Definition.name) := by
  simp [names]

theorem Store.save_of_new {s : Store} {d : Definition} (h : d.name ∉ s.names d.scope) :
    s.save d = .ok { s with definitions := s.definitions ++ [d] } := by
  rw [← contains_iff] at h
  exact if_neg h

theorem Store.save_ok {s s' : Store} {d : Definition} (h : s.save d = .ok s') :
    s' = { s with definitions := s.definitions ++ [d] } := by
  unfold Store.save at h
  split at h <;> cases h
  rfl

namespace Context

theorem holderFor?_congr {c c' : Context} (h : c.holders = c'.holders)
    (owner name descriptor : String) :
    c.holderFor? owner name descriptor = c'.holderFor? owner name descriptor := by
  unfold holderFor?
  rw [h]

/-- Accessors that are found stay found. -/
def Retains (c d : Context) : Prop :=
  ∀ proxy a, c.accessor? proxy = some a → d.accessor? proxy = some a

theorem Retains.refl (c : Context) : Retains c c := fun _ _ h => h

theorem Retains.trans {c d e : Context} (hcd : Retains c d) (hde : Retains d e) : Retains c e :=
  fun proxy a h => hde proxy a (hcd proxy a h)

theorem commitOne_ok {store store' : Store} {c c' : Context} {p : Pending}
    (h : commitOne (store, c) p = .ok (store', c')) :
    Retains c c' ∧ (c'.loader = c.loader ∧ c'.config = c.config) ∧
      ∀ entry bytes, p = .accessor entry bytes →
        c'.accessor? entry.proxy = some entry.accessor := by
  cases p with
  | holder entry bytes =>
      obtain ⟨saved, -, h⟩ := except_bind_eq_ok.mp h
      cases except_pure_eq_ok.mp h
      exact ⟨fun _ _ h => h, ⟨rfl, rfl⟩, nofun⟩
  | accessor entry bytes =>
      obtain ⟨saved, -, h⟩ := except_bind_eq_ok.mp h
      dsimp only at h
      split at h
      · cases h
      · next hfresh =>
        cases except_pure_eq_ok.mp h
        refine ⟨?_, ⟨rfl, rfl⟩, ?_⟩
        · intro proxy a ha
          obtain ⟨e, he, rfl⟩ := Option.map_eq_some_iff.mp ha
          simp only [accessor?, List.find?_append, he]
          rfl
        · rintro entry' bytes' heq
          cases heq
          have hnone : c.accessors.find? (·.proxy == entry.proxy) = none := by
            simpa [accessor?] using hfresh
          simp [accessor?, List.find?_append, hnone]

theorem commit_ok {pending : List Pending} :
    ∀ {store store' : Store} {c c' : Context}, commit store c pending = .ok (store', c') →
      Retains c c' ∧ (c'.loader = c.loader ∧ c'.config = c.config) ∧
        ∀ entry bytes, Pending.accessor entry bytes ∈ pending →
          c'.accessor? entry.proxy = some entry.accessor := by
  induction pending with
  | nil =>
      intro store store' c c' h
      cases except_pure_eq_ok.mp h
      exact ⟨.refl c, ⟨rfl, rfl⟩, nofun⟩
  | cons p pending ih =>
      intro store store' c c' h
      rw [commit, List.foldlM_cons] at h
      obtain ⟨⟨store₁, c₁⟩, hp, h⟩ := except_bind_eq_ok.mp h
      obtain ⟨hkept, ⟨hloader, hconfig⟩, hnew⟩ := commitOne_ok hp
      obtain ⟨hkept', ⟨hloader', hconfig'⟩, hnew'⟩ := ih h
      refine ⟨hkept.trans hkept', ⟨hloader'.trans hloader, hconfig'.trans hconfig⟩, ?_⟩
      intro entry bytes hmem
      rcases List.mem_cons.mp hmem with heq | hmem
      · exact hkept' _ _ (hnew entry bytes heq.symm)
      · exact hnew' entry bytes hmem

/-- Committing one class saves it and registers what it stands for, and does nothing else. -/
theorem commitOne_eq {store store' : Store} {c c' : Context} {p : Pending}
    (h : commitOne (store, c) p = .ok (store', c')) :
    store' = { store with definitions := store.definitions ++ [p.definition c.loader] } ∧
      c' = { c with
        holders := p.holding?.toList ++ c.holders
        accessors := c.accessors ++ p.reporting?.toList } := by
  cases p with
  | holder entry bytes =>
      obtain ⟨saved, hsaved, h⟩ := except_bind_eq_ok.mp h
      cases except_pure_eq_ok.mp h
      rw [Store.save_ok hsaved]
      exact ⟨rfl, by simp [Pending.holding?, Pending.reporting?]⟩
  | accessor entry bytes =>
      obtain ⟨saved, hsaved, h⟩ := except_bind_eq_ok.mp h
      dsimp only at h
      split at h
      · cases h
      · cases except_pure_eq_ok.mp h
        rw [Store.save_ok hsaved]
        exact ⟨rfl, by simp [Pending.holding?, Pending.reporting?]⟩

/-- Every pending class is saved; the newest holder comes first, and the newest accessor last. -/
theorem commit_eq {pending : List Pending} :
    ∀ {store store' : Store} {c c' : Context}, commit store c pending = .ok (store', c') →
      store' = { store with
        definitions := store.definitions ++ pending.map (Pending.definition c.loader) } ∧
      c' = { c with
        holders := (pending.filterMap Pending.holding?).reverse ++ c.holders
        accessors := c.accessors ++ pending.filterMap Pending.reporting? } := by
  induction pending with
  | nil =>
      intro store store' c c' h
      cases except_pure_eq_ok.mp h
      simp
  | cons p pending ih =>
      intro store store' c c' h
      rw [commit, List.foldlM_cons] at h
      obtain ⟨⟨store₁, c₁⟩, hp, h⟩ := except_bind_eq_ok.mp h
      obtain ⟨rfl, rfl⟩ := commitOne_eq hp
      obtain ⟨rfl, rfl⟩ := ih h
      constructor
      · simp
      · cases p <;> simp [Pending.holding?, Pending.reporting?, List.filterMap_cons]

/-- One class is committed if its name is new. -/
theorem commitOne_of_new {store : Store} {c : Context} {p : Pending}
    (hdefined : p.name ∉ store.names c.loader) (hreported : c.accessor? p.name = none) :
    ∃ state, commitOne (store, c) p = .ok state := by
  cases p with
  | holder entry bytes =>
      have hsaved := Store.save_of_new (d := ⟨c.loader, entry.holder, bytes⟩) hdefined
      exact ⟨_, except_bind_eq_ok.mpr ⟨_, hsaved, rfl⟩⟩
  | accessor entry bytes =>
      have hsaved := Store.save_of_new (d := ⟨c.loader, entry.proxy, bytes⟩) hdefined
      have hfree : c.accessor? entry.proxy = none := hreported
      exact ⟨_, except_bind_eq_ok.mpr ⟨_, hsaved, by simp only [hfree]; rfl⟩⟩

/-- **A commit succeeds if all names are new.** -/
theorem commit_of_new {pending : List Pending} :
    ∀ {store : Store} {c : Context}, (pending.map Pending.name).Nodup →
      (∀ p ∈ pending, p.name ∉ store.names c.loader ∧ c.accessor? p.name = none) →
      ∃ state, commit store c pending = .ok state := by
  induction pending with
  | nil => exact fun _ _ => ⟨_, rfl⟩
  | cons p pending ih =>
      intro store c hdistinct hnew
      rw [List.map_cons, List.nodup_cons] at hdistinct
      obtain ⟨hother, hdistinct⟩ := hdistinct
      obtain ⟨⟨hdefined, hreported⟩, hnew⟩ := List.forall_mem_cons.mp hnew
      obtain ⟨⟨store₁, c₁⟩, hone⟩ := commitOne_of_new hdefined hreported
      obtain ⟨rfl, rfl⟩ := commitOne_eq hone
      rw [commit, List.foldlM_cons, hone]
      refine ih hdistinct fun q hq => ?_
      have hne : q.name ≠ p.name := by
        intro hsame
        exact hother (hsame ▸ List.mem_map_of_mem hq)
      obtain ⟨hundefined, hunreported⟩ := hnew q hq
      constructor
      · rw [Store.names_append]
        simpa [hne] using hundefined
      · cases p with
        | holder entry bytes => simpa [accessor?, Pending.reporting?] using hunreported
        | accessor entry bytes =>
            have hproxy : entry.proxy ≠ q.name := hne.symm
            simpa [accessor?, Pending.reporting?, hproxy] using hunreported

end Context

end Reshape
