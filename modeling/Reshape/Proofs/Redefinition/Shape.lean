import Reshape.Proofs.Pool.Growth
import Reshape.Redefinition.Pass

/-!
# The field table of a new definition

A field *declares* what an entry of a schema says if the pool gives it the entry's name and
descriptor and it has the entry's flags.  While the fields of the new definition are placed, a
seat is only taken by a field that declares its entry; filling the other seats then leaves a row
of fields that declares, entry by entry, what the loaded class declares.  Pools grow on the way,
and growing keeps what a field declares.
-/

namespace Reshape

/-! ## §1 Declarations -/

theorem Member.identityIn_eq_ok {carrier : Carrier} {pool : Pool} {m : Member carrier}
    {name descriptor : String} :
    m.identityIn pool = .ok (name, descriptor) ↔
      pool.utf8 m.name = .ok name ∧ pool.utf8 m.descriptor = .ok descriptor := by
  constructor
  · intro h
    obtain ⟨n, hn, h⟩ := except_bind_eq_ok.mp h
    obtain ⟨d, hd, h⟩ := except_bind_eq_ok.mp h
    cases except_pure_eq_ok.mp h
    exact ⟨hn, hd⟩
  · rintro ⟨hn, hd⟩
    exact except_bind_eq_ok.mpr ⟨name, hn, except_bind_eq_ok.mpr ⟨descriptor, hd, rfl⟩⟩

theorem Member.identityIn_grown {carrier : Carrier} {p q : Pool} {m : Member carrier}
    {id : String × String} (h : m.identityIn p = .ok id) (hgrowth : Pool.Growth p q) :
    m.identityIn q = .ok id := by
  obtain ⟨hname, hdescriptor⟩ := Member.identityIn_eq_ok.mp h
  exact Member.identityIn_eq_ok.mpr ⟨hgrowth.utf8 hname, hgrowth.utf8 hdescriptor⟩

/-- The field is the one that the entry describes. -/
def Field.Declares (pool : Pool) (f : Field) (e : SchemaField) : Prop :=
  f.identityIn pool = .ok (e.name, e.descriptor) ∧ f.access = e.access

theorem Field.Declares.grown {p q : Pool} {f : Field} {e : SchemaField}
    (h : Field.Declares p f e) (hgrowth : Pool.Growth p q) : Field.Declares q f e := by
  obtain ⟨hidentity, haccess⟩ := h
  exact ⟨Member.identityIn_grown hidentity hgrowth, haccess⟩

/-- What a field declares lies in its flags and in its two indices. -/
theorem Field.Declares.congr {p : Pool} {f g : Field} {e : SchemaField}
    (h : Field.Declares p f e) (hname : g.name = f.name) (hdescriptor : g.descriptor = f.descriptor)
    (haccess : g.access = f.access) : Field.Declares p g e := by
  obtain ⟨hidentity, hflags⟩ := h
  refine ⟨?_, haccess.trans hflags⟩
  rw [Member.identityIn_eq_ok, hname, hdescriptor]
  exact Member.identityIn_eq_ok.mp hidentity

theorem Member.grows_declare {carrier : Carrier} (access : Access carrier)
    (name descriptor : String) : (Member.declare access name descriptor).Grows :=
  .bind (Pool.grows_addUtf8 name) fun _ => .bind (Pool.grows_addUtf8 descriptor) fun _ => .pure _

theorem Member.declare_ok {carrier : Carrier} {access : Access carrier}
    {name descriptor : String} {m : Member carrier} {p q : Pool} (hp : p.Addressable)
    (h : Member.declare access name descriptor p = .ok m q) :
    Pool.Growth p q ∧ m.identityIn q = .ok (name, descriptor) ∧ m.access = access := by
  obtain ⟨i, p₁, hi, h⟩ := state_bind_eq_ok.mp h
  obtain ⟨j, p₂, hj, h⟩ := state_bind_eq_ok.mp h
  obtain ⟨rfl, rfl⟩ := state_pure_eq_ok.mp h
  have hp₁ := (Pool.grows_addUtf8 name).growth hi
  have hp₂ := (Pool.grows_addUtf8 descriptor).growth hj
  refine ⟨hp₁.trans hp₂, Member.identityIn_eq_ok.mpr ⟨?_, ?_⟩, rfl⟩
  · exact hp₂.utf8 (Pool.utf8_of_addUtf8 hp hi)
  · exact Pool.utf8_of_addUtf8 (hp₁.addressable hp) hj

theorem Member.attributes_of_declare {carrier : Carrier} {access : Access carrier}
    {name descriptor : String} {m : Member carrier} {p q : Pool}
    (h : Member.declare access name descriptor p = .ok m q) : m.attributes = [] := by
  obtain ⟨i, p₁, -, h⟩ := state_bind_eq_ok.mp h
  obtain ⟨j, p₂, -, h⟩ := state_bind_eq_ok.mp h
  obtain ⟨rfl, -⟩ := state_pure_eq_ok.mp h
  rfl

namespace Pass

theorem interned_eq_ok {α : Type} {action : Interning α} {p q : Pool} {a : α} :
    interned action p = .ok (a, q) ↔ action p = .ok a q := by
  unfold interned
  cases action p with
  | error e r => simp
  | ok b r => simp

/-! ## §2 Placing fields -/

/-- Annotations do not touch what a field declares. -/
theorem withLoadedAnnotations_ok {s : Setting} {name descriptor : String} {f g : Field}
    {p q : Pool} (h : withLoadedAnnotations s name descriptor f p = .ok (g, q)) :
    Pool.Growth p q ∧ g.name = f.name ∧ g.descriptor = f.descriptor ∧ g.access = f.access := by
  obtain ⟨loaded?, hloaded, h⟩ := except_bind_eq_ok.mp h
  cases loaded? with
  | none =>
      obtain ⟨removed, hremoved, h⟩ := except_bind_eq_ok.mp h
      cases except_pure_eq_ok.mp h
      exact ⟨.refl, rfl, rfl, rfl⟩
  | some loaded =>
      obtain ⟨⟨attributes, pool⟩, hset, h⟩ := except_bind_eq_ok.mp h
      cases except_pure_eq_ok.mp h
      exact ⟨(AnnotationUse.grows_setVisible _ _).growth (interned_eq_ok.mp hset), rfl, rfl, rfl⟩

/-- The seat that is chosen is open and its entry has the name and descriptor asked for. -/
theorem seatFor?_ok {s : Setting} {className name descriptor : String} {seats : List Seat}
    {access : FieldAccess} {index : Nat}
    (h : seatFor? s className seats name descriptor access = .ok (some index)) :
    ∃ seat, seats[index]? = some seat ∧ seat.isOpen s.config.storageName = true ∧
      seat.entry.isNamed name descriptor = true := by
  simp only [seatFor?] at h
  split at h <;> try cases h
  next i seat hindex hfind =>
    obtain ⟨hlt, hfits, -⟩ := List.findIdx?_eq_some_iff_getElem.mp hindex
    rw [Bool.and_eq_true] at hfits
    have hi : i = index := by
      split at h
      · simpa using h
      · split at h <;> simp at h
    subst hi
    exact ⟨seats[i], List.getElem?_eq_getElem hlt, hfits⟩

/-- What holds while fields are placed: the entries stay, and whoever takes a seat declares its
entry. -/
structure Draft.Sound (storageName : String) (old : List SchemaField) (p : Pool)
    (d : Draft) : Prop where
  growth : Pool.Growth p d.pool
  entries : d.seats.map Seat.entry = old
  seated : ∀ seat ∈ d.seats, ∀ f, seat.occupant = some f →
    seat.entry.isNormal = true ∧ seat.entry.name ≠ storageName ∧
      Field.Declares d.pool f seat.entry

theorem Draft.Sound.start (storageName : String) (old : List SchemaField) (p : Pool) :
    Draft.Sound storageName old p { pool := p, seats := old.map (⟨·, none⟩) } where
  growth := .refl
  entries := by simp [Function.comp_def]
  seated := by
    intro seat hseat f hf
    obtain ⟨e, -, rfl⟩ := List.mem_map.mp hseat
    cases hf

/-- An open seat may be taken by a field that declares its entry. -/
theorem Draft.Sound.occupy {storageName : String} {old : List SchemaField} {p : Pool}
    {d d' : Draft} (hd : d.Sound storageName old p) {index : Nat} {chosen : Seat}
    (hchosen : d.seats[index]? = some chosen) (hopen : chosen.isOpen storageName = true)
    (hgrowth : Pool.Growth d.pool d'.pool) {occupant : Seat → Field}
    (hseats : d'.seats = d.seats.modify index fun seat => { seat with occupant := occupant seat })
    (hdeclares : Field.Declares d'.pool (occupant chosen) chosen.entry) :
    d'.Sound storageName old p := by
  refine ⟨hd.growth.trans hgrowth, ?_, ?_⟩
  · rw [← hd.entries, hseats]
    refine List.ext_getElem? fun i => ?_
    rw [List.getElem?_map, List.getElem?_map, List.getElem?_modify]
    cases d.seats[i]? with
    | none => rfl
    | some seat => by_cases hi : index = i <;> simp [hi]
  · intro seat hseat g hg
    rw [hseats] at hseat
    rcases mem_of_mem_modify hseat with hseat | ⟨taken, htaken, rfl⟩
    · obtain ⟨hnormal, hstorage, hdeclared⟩ := hd.seated seat hseat g hg
      exact ⟨hnormal, hstorage, hdeclared.grown hgrowth⟩
    · cases hchosen.symm.trans htaken
      cases hg
      simp only [Seat.isOpen, Bool.and_eq_true, bne_iff_ne] at hopen
      exact ⟨hopen.1.1, hopen.1.2, hdeclares⟩

/-- The draft with one more added field. -/
def Draft.add (d : Draft) (f : Field) : Draft :=
  if f.access.isStatic then { d with statics := d.statics ++ [f] }
  else { d with instances := d.instances ++ [f] }

/-- What becomes of a field that is looked at. -/
inductive Placed (s : Setting) (className : String) (d : Draft) (f : Field)
    (name descriptor : String) : Draft → Prop
  | passedOver (named : name = s.config.storageName) : Placed s className d f name descriptor d
  | added (named : name ≠ s.config.storageName)
      (noSeat : seatFor? s className d.seats name descriptor f.access = .ok none) :
      Placed s className d f name descriptor (d.add f)
  | seated (named : name ≠ s.config.storageName) {index : Nat}
      (seat : seatFor? s className d.seats name descriptor f.access = .ok (some index))
      {annotations : Option (List AnnotationUse)}
      (declared : AnnotationUse.visible? d.pool f.attributes = .ok annotations) {g : Field}
      {pool : Pool} (loaded : withLoadedAnnotations s name descriptor f d.pool = .ok (g, pool)) :
      Placed s className d f name descriptor { d with
        pool
        seats := d.seats.modify index fun seat =>
          { seat with occupant := some { g with access := seat.entry.access } }
        declared := d.declared ++ [⟨s.owner, name, descriptor, annotations⟩] }

theorem place_ok {s : Setting} {className : String} {d d' : Draft} {f : Field}
    (h : place s className d f = .ok d') : ∃ name descriptor,
      f.identityIn d.pool = .ok (name, descriptor) ∧
        Placed s className d f name descriptor d' := by
  obtain ⟨⟨name, descriptor⟩, hidentity, h⟩ := except_bind_eq_ok.mp h
  refine ⟨name, descriptor, mapError_eq_ok.mp hidentity, ?_⟩
  dsimp only at h
  split at h
  · next named =>
    cases except_pure_eq_ok.mp h
    exact .passedOver named
  · next named =>
    obtain ⟨index?, hseat, h⟩ := except_bind_eq_ok.mp h
    cases index? with
    | none =>
        cases except_pure_eq_ok.mp h
        exact .added named hseat
    | some index =>
        obtain ⟨annotations, hannotations, h⟩ := except_bind_eq_ok.mp h
        obtain ⟨⟨g, pool⟩, hloaded, h⟩ := except_bind_eq_ok.mp h
        cases except_pure_eq_ok.mp h
        exact .seated named hseat (mapError_eq_ok.mp hannotations) hloaded

theorem place_sound {s : Setting} {className : String} {old : List SchemaField} {p : Pool}
    {d d' : Draft} {f : Field} (hd : d.Sound s.config.storageName old p)
    (h : place s className d f = .ok d') : d'.Sound s.config.storageName old p := by
  obtain ⟨name, descriptor, hidentity, hplaced⟩ := place_ok h
  cases hplaced with
  | passedOver => exact hd
  | added =>
      unfold Draft.add
      split
      · exact ⟨hd.growth, hd.entries, hd.seated⟩
      · exact ⟨hd.growth, hd.entries, hd.seated⟩
  | seated named hseat declared loaded =>
      obtain ⟨hgrowth, hname, hdescriptor, -⟩ := withLoadedAnnotations_ok loaded
      obtain ⟨chosen, hchosen, hopen, hnamed⟩ := seatFor?_ok hseat
      refine hd.occupy hchosen hopen hgrowth rfl ⟨?_, rfl⟩
      simp only [SchemaField.isNamed, Bool.and_eq_true, beq_iff_eq] at hnamed
      have hback := Member.identityIn_eq_ok.mp hidentity
      rw [← hname, ← hdescriptor] at hback
      rw [Member.identityIn_eq_ok, hnamed.1, hnamed.2]
      exact ⟨hgrowth.utf8 hback.1, hgrowth.utf8 hback.2⟩

theorem placeAll_sound {s : Setting} {old : Schema} {c : ClassFile} {d : Draft}
    (h : placeAll s old c = .ok d) :
    d.Sound s.config.storageName old.fields c.pool := by
  obtain ⟨identities, hidentities, h⟩ := except_bind_eq_ok.mp h
  split at h
  · exact (except_throw_eq_ok.mp h).elim
  · exact except_foldlM_invariant _ (fun _ _ _ _ hd hstep => place_sound hd hstep)
      (Draft.Sound.start _ _ _) h

/-! ## §3 Shells -/

section Shells

variable {s : Setting} {entry : SchemaField} {f : Field} {p q : Pool}

/-- A shell is a bare field with what was loaded for it. -/
theorem shell_steps (h : shell s entry p = .ok (f, q)) : ∃ g p₁ loaded?,
    Member.declare entry.access entry.name entry.descriptor p = .ok g p₁ ∧
      s.source s.owner entry.name entry.descriptor = .ok loaded? ∧
      match loaded? with
      | none => f = g ∧ q = p₁
      | some loaded => ∃ attributes,
          AnnotationUse.setVisible loaded g.attributes p₁ = .ok attributes q ∧
            f = { g with attributes } := by
  obtain ⟨⟨g, p₁⟩, hdeclare, h⟩ := except_bind_eq_ok.mp h
  obtain ⟨loaded?, hloaded, h⟩ := except_bind_eq_ok.mp h
  refine ⟨g, p₁, loaded?, interned_eq_ok.mp hdeclare, mapError_eq_ok.mp hloaded, ?_⟩
  cases loaded? with
  | none =>
      cases except_pure_eq_ok.mp h
      exact ⟨rfl, rfl⟩
  | some loaded =>
      obtain ⟨⟨attributes, p₂⟩, hset, h⟩ := except_bind_eq_ok.mp h
      cases except_pure_eq_ok.mp h
      exact ⟨attributes, interned_eq_ok.mp hset, rfl⟩

/-- What was loaded comes behind the field, and does not touch what it declares. -/
theorem shell_ok (h : shell s entry p = .ok (f, q)) : ∃ g p₁,
    Member.declare entry.access entry.name entry.descriptor p = .ok g p₁ ∧ Pool.Growth p₁ q ∧
      f.name = g.name ∧ f.descriptor = g.descriptor ∧ f.access = g.access := by
  obtain ⟨g, p₁, loaded?, hdeclare, -, hf⟩ := shell_steps h
  refine ⟨g, p₁, hdeclare, ?_⟩
  cases loaded? with
  | none =>
      obtain ⟨rfl, rfl⟩ := hf
      exact ⟨.refl, rfl, rfl, rfl⟩
  | some loaded =>
      obtain ⟨attributes, hset, rfl⟩ := hf
      exact ⟨(AnnotationUse.grows_setVisible _ _).growth hset, rfl, rfl, rfl⟩

theorem growth_shell (h : shell s entry p = .ok (f, q)) : Pool.Growth p q := by
  obtain ⟨g, p₁, hdeclare, hmore, -⟩ := shell_ok h
  exact ((Member.grows_declare _ _ _).growth hdeclare).trans hmore

theorem declares_of_shell (hp : p.Addressable) (h : shell s entry p = .ok (f, q)) :
    Field.Declares q f entry := by
  obtain ⟨g, p₁, hdeclare, hmore, hname, hdescriptor, haccess⟩ := shell_ok h
  have hdeclares : Field.Declares p₁ g entry := (Member.declare_ok hp hdeclare).2
  exact (hdeclares.grown hmore).congr hname hdescriptor haccess

theorem growth_storageShell (h : storageShell entry p = .ok (f, q)) : Pool.Growth p q :=
  (Member.grows_declare _ _ _).growth (interned_eq_ok.mp h)

theorem declares_of_storageShell (hp : p.Addressable) (h : storageShell entry p = .ok (f, q)) :
    Field.Declares q f entry :=
  (Member.declare_ok hp (interned_eq_ok.mp h)).2

end Shells

/-! ### Filling seats

What is asked of an occupant is some relation to the entry, which has to last while the pool
grows. -/

section Filling

variable {Q : Pool → Field → SchemaField → Prop}

/-- The relation lasts while the pool grows. -/
def Lasting (Q : Pool → Field → SchemaField → Prop) : Prop :=
  ∀ p q f e, Q p f e → Pool.Growth p q → Q q f e

theorem lasting_declares : Lasting Field.Declares := fun _ _ _ _ => Field.Declares.grown

/-- A seat before and after filling: if chosen it got an occupant that is right for its entry, else
it stayed. -/
def Seat.Filled (Q : Pool → Field → SchemaField → Prop) (pool : Pool) (chosen : Bool)
    (seat seat' : Seat) : Prop :=
  seat'.entry = seat.entry ∧
    if chosen then ∃ f, seat'.occupant = some f ∧ Q pool f seat.entry
    else seat'.occupant = seat.occupant

/-- The seat holds what the class is to declare there: nothing for a field that is kept in a
generated class, and else a field that is right for the entry. -/
def Seat.Settled (Q : Pool → Field → SchemaField → Prop) (pool : Pool) (seat : Seat) : Prop :=
  if seat.entry.isFake then seat.occupant = none
  else ∃ f, seat.occupant = some f ∧ Q pool f seat.entry

/-- Settled seats hold the fields of all entries that are not kept elsewhere. -/
theorem forall₂_of_settled {pool : Pool} {seats : List Seat}
    (h : ∀ seat ∈ seats, seat.Settled Q pool) :
    List.Forall₂ (Q pool) (seats.filterMap Seat.occupant)
      ((seats.map Seat.entry).filter (!·.isFake)) := by
  induction seats with
  | nil => exact .nil
  | cons seat seats ih =>
      have hseat := h seat List.mem_cons_self
      have hrest := ih fun s hs => h s (List.mem_cons_of_mem seat hs)
      unfold Seat.Settled at hseat
      by_cases hfake : seat.entry.isFake = true
      · rw [if_pos hfake] at hseat
        simpa [hseat, hfake] using hrest
      · rw [if_neg hfake] at hseat
        obtain ⟨f, hf, hright⟩ := hseat
        simpa [hf, hfake] using ⟨hright, hrest⟩

variable (lasting : Lasting Q)
include lasting

theorem Seat.Filled.grown {p q : Pool} {chosen : Bool} {seat seat' : Seat}
    (h : Seat.Filled Q p chosen seat seat') (hgrowth : Pool.Growth p q) :
    Seat.Filled Q q chosen seat seat' := by
  obtain ⟨hentry, hoccupant⟩ := h
  cases chosen with
  | false => exact ⟨hentry, hoccupant⟩
  | true =>
      obtain ⟨f, hf, hright⟩ := hoccupant
      exact ⟨hentry, f, hf, lasting _ _ _ _ hright hgrowth⟩

theorem fill_ok {occupantOf? : Seat → Option (Pool → Except RedefineError (Field × Pool))}
    {p₀ : Pool} (hmake : ∀ seat make p f q, occupantOf? seat = some make → Pool.Growth p₀ p →
      make p = .ok (f, q) → Pool.Growth p q ∧ Q q f seat.entry) {seats : List Seat} :
    ∀ {done seats' : List Seat} {p q : Pool}, Pool.Growth p₀ p →
      seats.foldlM (fill.step occupantOf?) (done, p) = .ok (seats', q) →
      Pool.Growth p q ∧ ∃ filled, seats' = done ++ filled ∧
        List.Forall₂ (fun seat seat' => Seat.Filled Q q (occupantOf? seat).isSome seat seat')
          seats filled := by
  induction seats with
  | nil =>
      intro done seats' p q _ h
      cases except_pure_eq_ok.mp h
      exact ⟨.refl, [], (List.append_nil _).symm, .nil⟩
  | cons seat seats ih =>
      intro done seats' p q hp h
      rw [List.foldlM_cons] at h
      obtain ⟨⟨done₁, p₁⟩, hstep, h⟩ := except_bind_eq_ok.mp h
      obtain ⟨hgrowth, seat', rfl, hseat'⟩ : Pool.Growth p p₁ ∧ ∃ seat', done₁ = done ++ [seat'] ∧
          Seat.Filled Q p₁ (occupantOf? seat).isSome seat seat' := by
        simp only [fill.step] at hstep
        split at hstep
        · next hnone =>
          cases except_pure_eq_ok.mp hstep
          exact ⟨.refl, seat, rfl, rfl, by simp [hnone]⟩
        · next make hsome =>
          obtain ⟨⟨f, p₂⟩, hf, hstep⟩ := except_bind_eq_ok.mp hstep
          cases except_pure_eq_ok.mp hstep
          obtain ⟨hgrowth, hright⟩ := hmake _ _ _ _ _ hsome hp hf
          exact ⟨hgrowth, _, rfl, rfl, by simpa [hsome] using hright⟩
      obtain ⟨hrest, filled, rfl, hfilled⟩ := ih (hp.trans hgrowth) h
      refine ⟨hgrowth.trans hrest, seat' :: filled, by simp, ?_⟩
      exact .cons (hseat'.grown lasting hrest) hfilled

/-- A normal field other than the storage field has the field that took its seat, or else a
shell. -/
theorem Seat.right_of_filled {storageName : String} {p q : Pool} {seat seat' : Seat}
    (hkind : seat.entry.kind = .normal) (hstorage : seat.entry.name ≠ storageName)
    (hseated : ∀ f, seat.occupant = some f → Q p f seat.entry)
    (hgrowth : Pool.Growth p q) (h : Seat.Filled Q q (seat.isOpen storageName) seat seat') :
    ∃ f, seat'.occupant = some f ∧ Q q f seat.entry := by
  obtain ⟨-, h⟩ := h
  cases hoccupant : seat.occupant with
  | none =>
      have hopen : seat.isOpen storageName = true := by
        simp [Seat.isOpen, SchemaField.isNormal, hkind, hstorage, hoccupant]
      rwa [if_pos hopen] at h
  | some f =>
      have hclosed : ¬ seat.isOpen storageName = true := by simp [Seat.isOpen, hoccupant]
      rw [if_neg hclosed, hoccupant] at h
      exact ⟨f, h, lasting _ _ _ _ (hseated f hoccupant) hgrowth⟩

/-- The seats that are filled after the open ones, whoever has them: those of removed fields and that
of the storage field. -/
def Seat.isReserved (storageName : String) (seat : Seat) : Bool :=
  match seat.entry.kind with
  | .removed => true
  | .normal => seat.entry.name == storageName
  | .fake _ => false

/-- The open seats are filled first, and then the reserved ones. -/
theorem fillShells_steps {s : Setting} {p q : Pool}
    (hshell : ∀ e p' f q, Pool.Growth p p' → shell s e p' = .ok (f, q) → Q q f e)
    (hstorageShell : ∀ e p' f q, e.kind = .normal → e.name = s.config.storageName →
      Pool.Growth p p' → storageShell e p' = .ok (f, q) → Q q f e)
    {seats seats' : List Seat} (h : fillShells s p seats = .ok (seats', q)) :
    ∃ seats₁ p₁, Pool.Growth p p₁ ∧ Pool.Growth p₁ q ∧
      List.Forall₂ (fun seat seat' =>
        Seat.Filled Q p₁ (seat.isOpen s.config.storageName) seat seat') seats seats₁ ∧
      List.Forall₂ (fun seat seat' =>
        Seat.Filled Q q (seat.isReserved s.config.storageName) seat seat') seats₁ seats' := by
  obtain ⟨⟨seats₁, p₁⟩, hopen, h⟩ := except_bind_eq_ok.mp h
  obtain ⟨hgrowth₁, filled₁, rfl, hfilled₁⟩ := fill_ok lasting (by
    intro seat make p' f q hmake hp' hf
    split at hmake <;> cases hmake
    exact ⟨growth_shell hf, hshell _ _ _ _ hp' hf⟩) .refl hopen
  obtain ⟨hgrowth₂, filled₂, rfl, hfilled₂⟩ := fill_ok lasting (by
    intro seat make p' f q hmake hp' hf
    split at hmake
    · cases hmake
      exact ⟨growth_shell hf, hshell _ _ _ _ hp' hf⟩
    · next hkind =>
      split at hmake <;> cases hmake
      next hname =>
        have hstorage := hstorageShell _ _ _ _ hkind (beq_iff_eq.mp hname) hp' hf
        exact ⟨growth_storageShell hf, hstorage⟩
    · cases hmake) hgrowth₁ h
  refine ⟨_, p₁, hgrowth₁, hgrowth₂, hfilled₁.imp fun seat _ hfilled => ?_,
    hfilled₂.imp fun seat _ hfilled => ?_⟩
  · cases hchosen : seat.isOpen s.config.storageName <;> simpa [hchosen] using hfilled
  · unfold Seat.isReserved
    cases hkind : seat.entry.kind with
    | removed => simpa [hkind] using hfilled
    | normal =>
        cases hname : seat.entry.name == s.config.storageName <;>
          simpa [hkind, hname] using hfilled
    | fake proxy => simpa [hkind] using hfilled

/-- **Shells.**  If those who took a seat are right for it, and shells are, then all seats are
settled in the end. -/
theorem fillShells_ok {s : Setting} {p q : Pool}
    (hshell : ∀ e p' f q, Pool.Growth p p' → shell s e p' = .ok (f, q) → Q q f e)
    (hstorageShell : ∀ e p' f q, e.kind = .normal → e.name = s.config.storageName →
      Pool.Growth p p' → storageShell e p' = .ok (f, q) → Q q f e)
    {seats seats' : List Seat}
    (hseated : ∀ seat ∈ seats, ∀ f, seat.occupant = some f →
      seat.entry.isNormal = true ∧ Q p f seat.entry)
    (h : fillShells s p seats = .ok (seats', q)) :
    Pool.Growth p q ∧ seats'.map Seat.entry = seats.map Seat.entry ∧
      ∀ seat ∈ seats', seat.Settled Q q := by
  obtain ⟨seats₁, p₁, hgrowth₁, hgrowth₂, hfilled₁, hfilled₂⟩ :=
    fillShells_steps lasting hshell hstorageShell h
  refine ⟨hgrowth₁.trans hgrowth₂, ?_, ?_⟩
  · rw [map_eq_of_forall₂ (hfilled₁.imp fun _ _ hf => hf.1.symm)]
    exact (map_eq_of_forall₂ (hfilled₂.imp fun _ _ hf => hf.1.symm)).symm
  · intro seat₂ hseat₂
    obtain ⟨seat₁, hseat₁, hentry₂, hoccupant₂⟩ := exists_left_of_forall₂ hfilled₂ hseat₂
    obtain ⟨seat, hseat, hfirst⟩ := exists_left_of_forall₂ hfilled₁ hseat₁
    have hentry₁ := hfirst.1
    have hseated := hseated seat hseat
    rw [Seat.isReserved, hentry₁] at hoccupant₂
    rw [hentry₁] at hentry₂
    unfold Seat.Settled
    rw [hentry₂]
    cases hkind : seat.entry.kind with
    | fake proxy =>
        have hnone : seat.occupant = none := by
          cases hoccupant : seat.occupant with
          | none => rfl
          | some f => simpa [SchemaField.isNormal, hkind] using (hseated f hoccupant).1
        have hoccupant₁ := hfirst.2
        simp only [Seat.isOpen, SchemaField.isNormal, hkind] at hoccupant₁ hoccupant₂
        simpa [SchemaField.isFake, hkind, hnone] using hoccupant₂.trans hoccupant₁
    | removed =>
        simp only [hkind] at hoccupant₂
        simpa [SchemaField.isFake, hkind] using hoccupant₂
    | normal =>
        simp only [SchemaField.isFake, hkind, Bool.false_eq_true, if_false]
        by_cases hstorage : seat.entry.name = s.config.storageName
        · simpa [hkind, hstorage] using hoccupant₂
        · have hstays : seat₂.occupant = seat₁.occupant := by
            simpa [hkind, hstorage] using hoccupant₂
          rw [hstays]
          exact Seat.right_of_filled lasting hkind hstorage (fun f hf => (hseated f hf).2)
            (hgrowth₁.trans hgrowth₂) (hfirst.grown lasting hgrowth₂)

end Filling

theorem growth_fillShells {s : Setting} {p q : Pool} {seats seats' : List Seat}
    (h : fillShells s p seats = .ok (seats', q)) : Pool.Growth p q := by
  have lasting : Lasting fun _ _ _ => True := fun _ _ _ _ _ _ => trivial
  obtain ⟨_, _, hgrowth₁, hgrowth₂, -⟩ := fillShells_steps lasting (fun _ _ _ _ _ _ => trivial)
    (fun _ _ _ _ _ _ _ _ => trivial) h
  exact hgrowth₁.trans hgrowth₂

/-- The seats that are left after placing hold, once they are filled, fields that declare their
entries. -/
theorem fillShells_declares {s : Setting} {old : List SchemaField} {p₀ q : Pool} {d : Draft}
    {seats : List Seat} (hd : d.Sound s.config.storageName old p₀) (hp₀ : p₀.Addressable)
    (h : fillShells s d.pool d.seats = .ok (seats, q)) :
    Pool.Growth d.pool q ∧
      List.Forall₂ (Field.Declares q) (seats.filterMap Seat.occupant) (old.filter (!·.isFake)) := by
  have hp := hd.growth.addressable hp₀
  obtain ⟨hgrowth, hentries, hsettled⟩ := fillShells_ok lasting_declares
    (fun _ _ _ _ hp' hf => declares_of_shell (hp'.addressable hp) hf)
    (fun _ _ _ _ _ _ hp' hf => declares_of_storageShell (hp'.addressable hp) hf)
    (fun seat hseat f hf => ⟨(hd.seated seat hseat f hf).1, (hd.seated seat hseat f hf).2.2⟩) h
  have hdeclared := forall₂_of_settled hsettled
  rw [hentries, hd.entries] at hdeclared
  exact ⟨hgrowth, hdeclared⟩

/-! ## §4 The new shape -/

theorem edited_eq_ok {α : Type} {action : ClassEdit α} {c c' : ClassFile} :
    edited action c = .ok c' ↔ ∃ a, action c = .ok a c' := by
  unfold edited
  cases action c with
  | error e r => simp
  | ok b r => simp

theorem classEdit_ofExcept_eq_ok {α : Type} {x : Except BuildError α} {a : α}
    {c c' : ClassFile} : ClassEdit.ofExcept x c = .ok a c' ↔ x = .ok a ∧ c = c' :=
  state_lift_eq_ok ClassEdit.ofExcept (fun _ => rfl) (fun _ => rfl)

/-- A member that is added comes last, and none had its name and descriptor. -/
theorem add_ok {carrier : Carrier} {pool : Pool} {members members' : List (Member carrier)}
    {m : Member carrier} (h : Member.add pool members m = .ok members') :
    members' = members ++ [m] ∧ ∃ name descriptor, m.identityIn pool = .ok (name, descriptor) ∧
      Member.position? pool name descriptor 0 members = .ok none := by
  obtain ⟨⟨name, descriptor⟩, hidentity, h⟩ := except_bind_eq_ok.mp h
  obtain ⟨found, hfound, h⟩ := except_bind_eq_ok.mp h
  rw [mapError_eq_ok] at hidentity hfound
  cases found with
  | none => exact ⟨(except_pure_eq_ok.mp h).symm, name, descriptor, hidentity, hfound⟩
  | some position => exact (except_throw_eq_ok.mp h).elim

theorem addField_steps {f : Field} {c c' : ClassFile} {n : Nat}
    (h : ClassFile.addField f c = .ok n c') : ∃ fields,
      Member.add c.pool c.fields f = .ok fields ∧ n = c.fields.length ∧ c' = { c with fields } := by
  obtain ⟨d, e, hget, h⟩ := state_bind_eq_ok.mp h
  obtain ⟨rfl, rfl⟩ := state_get_eq_ok.mp hget
  obtain ⟨fields, e, hlift, h⟩ := state_bind_eq_ok.mp h
  obtain ⟨hadd, rfl⟩ := classEdit_ofExcept_eq_ok.mp hlift
  obtain ⟨u, e, hset, h⟩ := state_bind_eq_ok.mp h
  obtain ⟨rfl, rfl⟩ := state_pure_eq_ok.mp h
  cases state_set_eq_ok.mp hset
  exact ⟨fields, hadd, rfl, rfl⟩

theorem addField_ok {f : Field} {c c' : ClassFile} {n : Nat}
    (h : ClassFile.addField f c = .ok n c') :
    n = c.fields.length ∧ c' = { c with fields := c.fields ++ [f] } := by
  obtain ⟨fields, hadd, rfl, rfl⟩ := addField_steps h
  obtain ⟨rfl, -⟩ := add_ok hadd
  exact ⟨rfl, rfl⟩

/-- Adding fields one by one puts them behind each other. -/
theorem addFields_ok {fields : List Field} :
    ∀ {c c' : ClassFile}, fields.foldlM (fun c f => edited (ClassFile.addField f) c) c = .ok c' →
      c' = { c with fields := c.fields ++ fields } := by
  induction fields with
  | nil =>
      intro c c' h
      cases except_pure_eq_ok.mp h
      simp
  | cons f fields ih =>
      intro c c' h
      rw [List.foldlM_cons] at h
      obtain ⟨c₁, hadd, h⟩ := except_bind_eq_ok.mp h
      obtain ⟨n, hadd⟩ := edited_eq_ok.mp hadd
      rw [ih h, (addField_ok hadd).2]
      simp

theorem declareField_steps {access : FieldAccess} {name descriptor : String} {c c' : ClassFile}
    {n : Nat} (h : ClassFile.declareField access name descriptor c = .ok n c') : ∃ f pool,
      Member.declare access name descriptor c.pool = .ok f pool ∧ n = c.fields.length ∧
        c' = { c with pool, fields := c.fields ++ [f] } := by
  obtain ⟨f, c₁, hdeclare, h⟩ := state_bind_eq_ok.mp h
  obtain ⟨pool, hpool, rfl⟩ := onPart_eq_ok.mp hdeclare
  obtain ⟨rfl, rfl⟩ := addField_ok h
  exact ⟨f, pool, hpool, rfl, rfl⟩

theorem declareField_ok {access : FieldAccess} {name descriptor : String} {c c' : ClassFile}
    {n : Nat} (hp : c.pool.Addressable)
    (h : ClassFile.declareField access name descriptor c = .ok n c') :
    (Pool.Growth c.pool c'.pool ∧ n = c.fields.length) ∧ ∃ f : Field,
      f.identityIn c'.pool = .ok (name, descriptor) ∧ (f.access = access ∧ f.attributes = []) ∧
      c' = { c with pool := c'.pool, fields := c.fields ++ [f] } := by
  obtain ⟨f, pool, hpool, rfl, rfl⟩ := declareField_steps h
  obtain ⟨hgrowth, hidentity, haccess⟩ := Member.declare_ok hp hpool
  exact ⟨⟨hgrowth, rfl⟩, f, hidentity, ⟨haccess, Member.attributes_of_declare hpool⟩, rfl⟩

/-- The storage field, if it is added, is declared behind all the others. -/
theorem declareFields_steps {config : Config} {fields : List Field} {appendsStorage : Bool}
    {c c' : ClassFile} (h : declareFields config fields appendsStorage c = .ok c') :
    (appendsStorage = false ∧ c' = { c with fields }) ∨
      appendsStorage = true ∧ ∃ f pool,
        Member.declare storageAccess config.storageName config.storageDescriptor c.pool =
          .ok f pool ∧ c' = { c with pool, fields := fields ++ [f] } := by
  obtain ⟨c₁, hadd, h⟩ := except_bind_eq_ok.mp h
  have hc₁ := addFields_ok hadd
  rw [List.nil_append] at hc₁
  subst hc₁
  cases appendsStorage with
  | false => exact .inl ⟨rfl, (except_pure_eq_ok.mp h).symm⟩
  | true =>
      obtain ⟨n, hdeclare⟩ := edited_eq_ok.mp h
      obtain ⟨f, pool, hpool, -, hc'⟩ := declareField_steps hdeclare
      exact .inr ⟨rfl, f, pool, hpool, hc'⟩

/-- The fields that a class of the old shape declares, and the storage field if it is added. -/
def declaredEntries (old : List SchemaField) (config : Config) (appendsStorage : Bool) :
    List SchemaField :=
  old.filter (!·.isFake) ++ if appendsStorage then [storageEntry config] else []

theorem declareFields_ok {Q : Pool → Field → SchemaField → Prop}
    (lasting : Lasting Q) {config : Config}
    (hstorage : ∀ p f, Field.Declares p f (storageEntry config) → Q p f (storageEntry config))
    {entries : List SchemaField} {fields : List Field} {appendsStorage : Bool} {c c' : ClassFile}
    (hp : c.pool.Addressable)
    (hfields : List.Forall₂ (Q c.pool) fields (entries.filter (!·.isFake)))
    (h : declareFields config fields appendsStorage c = .ok c') :
    Pool.Growth c.pool c'.pool ∧
      List.Forall₂ (Q c'.pool) c'.fields (declaredEntries entries config appendsStorage) ∧
      c' = { c with pool := c'.pool, fields := c'.fields } := by
  obtain ⟨rfl, rfl⟩ | ⟨rfl, f, pool, hpool, rfl⟩ := declareFields_steps h
  · refine ⟨.refl, ?_, rfl⟩
    simpa [declaredEntries] using hfields
  · obtain ⟨hgrowth, hdeclares⟩ := Member.declare_ok hp hpool
    refine ⟨hgrowth, ?_, rfl⟩
    refine List.rel_append (hfields.imp fun _ _ hf => lasting _ _ _ _ hf hgrowth) ?_
    exact .cons (hstorage _ _ hdeclares) .nil

theorem growth_declareFields {config : Config} {fields : List Field} {appendsStorage : Bool}
    {c c' : ClassFile} (h : declareFields config fields appendsStorage c = .ok c') :
    Pool.Growth c.pool c'.pool := by
  obtain ⟨-, rfl⟩ | ⟨-, f, pool, hpool, rfl⟩ := declareFields_steps h
  · exact .refl
  · exact (Member.grows_declare _ _ _).growth hpool

/-- Each added instance field has a record, and the records are numbered from zero. -/
theorem addedRecords_ok {s : Setting} {pool : Pool} {fields : List Field}
    {records : List AddedField} (h : addedRecords s pool fields = .ok records) :
    List.Forall₂ (fun (x : Field × Nat) r => ∃ name descriptor,
      x.1.identityIn pool = .ok (name, descriptor) ∧
        r = ⟨x.2, name, descriptor, s.owner, s.loader⟩) fields.zipIdx records := by
  refine (except_mapM_eq_ok.mp h).imp ?_
  rintro ⟨f, ordinal⟩ r hr
  obtain ⟨⟨name, descriptor⟩, hidentity, hr⟩ := except_bind_eq_ok.mp hr
  cases except_pure_eq_ok.mp hr
  exact ⟨name, descriptor, mapError_eq_ok.mp hidentity, rfl⟩

/-- What each step of reshaping has given. -/
theorem reshape_steps {s : Setting} {old : Schema} {c : ClassFile} {r : Reshaped}
    (h : reshape s old c = .ok r) :
    placeAll s old c = .ok r.draft ∧
      (∃ seats pool, fillShells s r.draft.pool r.draft.seats = .ok (seats, pool) ∧
        declareFields s.config (seats.filterMap Seat.occupant) r.appendsStorage { c with pool } =
          .ok r.shaped) ∧
      addedRecords s r.shaped.pool r.draft.instances = .ok r.added ∧
      StorageLayout.ofRecords? s.owner r.added = .ok r.layout ∧
      r.appendsStorage = (!(old.fields.any fun f => f.isNormal && f.name == s.config.storageName) &&
        !r.draft.instances.isEmpty) := by
  obtain ⟨d, hd, h⟩ := except_bind_eq_ok.mp h
  obtain ⟨⟨seats, pool⟩, hseats, h⟩ := except_bind_eq_ok.mp h
  obtain ⟨shaped, hshaped, h⟩ := except_bind_eq_ok.mp h
  obtain ⟨added, hadded, h⟩ := except_bind_eq_ok.mp h
  obtain ⟨layout, hlayout, h⟩ := except_bind_eq_ok.mp h
  cases except_pure_eq_ok.mp h
  exact ⟨hd, ⟨seats, pool, hseats, hshaped⟩, hadded, mapError_eq_ok.mp hlayout, rfl⟩

theorem growth_reshape {s : Setting} {old : Schema} {c : ClassFile} {r : Reshaped}
    (h : reshape s old c = .ok r) : Pool.Growth c.pool r.shaped.pool := by
  obtain ⟨hd, ⟨seats, pool, hseats, hshaped⟩, -⟩ := reshape_steps h
  have hplaced := (placeAll_sound hd).growth
  exact (hplaced.trans (growth_fillShells hseats)).trans (growth_declareFields hshaped)

/-- **The new shape.**  It differs from the new definition in the pool, which has grown, and in
the fields: they declare what the old schema's entries say, and the storage field where it is
added. -/
theorem reshape_ok {s : Setting} {old : Schema} {c : ClassFile} {r : Reshaped}
    (hp : c.pool.Addressable) (h : reshape s old c = .ok r) :
    Pool.Growth c.pool r.shaped.pool ∧
      List.Forall₂ (Field.Declares r.shaped.pool) r.shaped.fields
        (declaredEntries old.fields s.config r.appendsStorage) ∧
      r.shaped = { c with pool := r.shaped.pool, fields := r.shaped.fields } ∧
      r.draft.seats.map Seat.entry = old.fields ∧
      (r.appendsStorage = true ↔ r.added ≠ [] ∧
        ∀ e ∈ old.fields, e.isNormal = true → e.name ≠ s.config.storageName) := by
  obtain ⟨hd, ⟨seats, pool, hseats, hshaped⟩, hadded, -, happends⟩ := reshape_steps h
  have hsound := placeAll_sound hd
  obtain ⟨hgrowth, hdeclared⟩ := fillShells_declares hsound hp hseats
  have hpool := hsound.growth.trans hgrowth
  obtain ⟨hmore, hfields, hshape⟩ :=
    declareFields_ok lasting_declares (fun _ _ => id) (hpool.addressable hp) hdeclared hshaped
  refine ⟨hpool.trans hmore, hfields, hshape, hsound.entries, ?_⟩
  have hlength := (addedRecords_ok hadded).length_eq
  rw [List.length_zipIdx] at hlength
  have hadded_nil : r.added = [] ↔ r.draft.instances = [] := by
    rw [← List.length_eq_zero_iff, ← List.length_eq_zero_iff, hlength]
  rw [ne_eq, hadded_nil, happends]
  simp only [Bool.and_eq_true, Bool.not_eq_true', List.any_eq_false, List.isEmpty_eq_false_iff,
    beq_iff_eq, not_and]
  exact and_comm

end Pass

end Reshape
