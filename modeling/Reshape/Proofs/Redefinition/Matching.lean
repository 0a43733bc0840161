import Reshape.Proofs.Redefinition.AddedFields

/-!
# How fields are matched

The fields of a new definition are placed one after the other, and each that matches takes a seat
away from the next ones.  But no two fields of a definition have the same name and descriptor, and
no two fields that a class declares.  So a seat that a field could take is never taken yet, and
what becomes of a field is decided by the old schema and by its name, descriptor and flags alone.
-/

namespace Reshape

/-! ## §1 Candidates -/

/-- A field of a new definition as far as matching looks at it. -/
structure Candidate where
  name : String
  descriptor : String
  access : FieldAccess
  deriving DecidableEq, Repr

def Candidate.identity (x : Candidate) : String × String := (x.name, x.descriptor)

def Field.candidateIn (pool : Pool) (f : Field) : Except FormatError Candidate := do
  let (name, descriptor) ← f.identityIn pool
  return ⟨name, descriptor, f.access⟩

theorem Field.candidateIn_eq_ok {p : Pool} {f : Field} {x : Candidate} :
    Field.candidateIn p f = .ok x ↔ f.identityIn p = .ok x.identity ∧ f.access = x.access := by
  constructor
  · intro h
    obtain ⟨⟨name, descriptor⟩, hidentity, h⟩ := except_bind_eq_ok.mp h
    cases except_pure_eq_ok.mp h
    exact ⟨hidentity, rfl⟩
  · rintro ⟨hidentity, haccess⟩
    exact except_bind_eq_ok.mpr ⟨x.identity, hidentity, by rw [haccess]; rfl⟩

/-- A candidate keeps its name and descriptor however the pool grows. -/
theorem Field.identityIn_of_candidateIn {p q : Pool} {f : Field} {x : Candidate}
    (hgrowth : Pool.Growth p q) (h : Field.candidateIn p f = .ok x) :
    f.identityIn q = .ok x.identity := by
  obtain ⟨hidentity, -⟩ := Field.candidateIn_eq_ok.mp h
  exact Member.identityIn_grown hidentity hgrowth

/-- What a definition declares, apart from the storage field. -/
def ClassFile.candidates (storageName : String) (c : ClassFile) :
    Except FormatError (List Candidate) := do
  return (← c.fields.mapM (Field.candidateIn c.pool)).filter (·.name != storageName)

namespace SchemaField

def identity (e : SchemaField) : String × String := (e.name, e.descriptor)

/-- A normal field other than the storage field. -/
def isMatchable (storageName : String) (e : SchemaField) : Bool :=
  e.isNormal && e.name != storageName

/-- Name and descriptor are the same, and the flags but for the static bit. -/
def accepts (e : SchemaField) (x : Candidate) : Bool :=
  e.isNamed x.name x.descriptor && (e.access == x.access || e.access.differsOnlyInStatic x.access)

theorem isNamed_iff {e : SchemaField} {x : Candidate} :
    e.isNamed x.name x.descriptor = true ↔ e.identity = x.identity := by
  simp [isNamed, identity, Candidate.identity]

theorem identity_of_accepts {e : SchemaField} {x : Candidate} (h : e.accepts x = true) :
    e.identity = x.identity :=
  isNamed_iff.mp (Bool.and_eq_true _ _ ▸ h).1

theorem isFake_of_isMatchable {storageName : String} {e : SchemaField}
    (h : e.isMatchable storageName = true) : e.isFake = false := by
  cases hkind : e.kind <;> simp_all [isMatchable, isNormal, isFake]

end SchemaField

namespace Schema

/-- Some normal field other than the storage field has the candidate's name and descriptor, and
its flags but for the static bit. -/
def hasMatch (storageName : String) (s : Schema) (x : Candidate) : Bool :=
  s.fields.any fun e => e.isMatchable storageName && e.accepts x

/-- No two fields that the class declares have the same name and descriptor. -/
def Distinct (s : Schema) : Prop :=
  ((s.fields.filter (!·.isFake)).map SchemaField.identity).Nodup

theorem Distinct.matchable {s : Schema} (hs : s.Distinct) (storageName : String) :
    ((s.fields.filter (·.isMatchable storageName)).map SchemaField.identity).Nodup := by
  refine List.Nodup.sublist (List.Sublist.map _ ?_) hs
  exact List.monotone_filter_right _ fun e hm => by
    simp [SchemaField.isFake_of_isMatchable hm]

/-- Of the fields that can be matched, the name and descriptor tell which one it is. -/
theorem Distinct.eq_of_mem {s : Schema} (hs : s.Distinct) {storageName : String}
    {e e' : SchemaField} (he : e ∈ s.fields) (he' : e' ∈ s.fields)
    (hm : e.isMatchable storageName = true) (hm' : e'.isMatchable storageName = true)
    (hsame : e.identity = e'.identity) : e = e' :=
  List.inj_on_of_nodup_map (hs.matchable storageName) (List.mem_filter.mpr ⟨he, hm⟩)
    (List.mem_filter.mpr ⟨he', hm'⟩) hsame

/-- The same, where they stand. -/
theorem Distinct.eq_of_identity {s : Schema} {storageName : String} (hs : s.Distinct) {i j : Nat}
    {e e' : SchemaField} (he : s.fields[i]? = some e) (he' : s.fields[j]? = some e')
    (hm : e.isMatchable storageName = true) (hm' : e'.isMatchable storageName = true)
    (hsame : e.identity = e'.identity) : i = j := by
  have hpairs : s.fields.Pairwise fun e e' => e.isFake = false → e'.isFake = false →
      e.identity ≠ e'.identity := by
    have hdistinct := List.pairwise_map.mp hs
    rw [List.pairwise_filter] at hdistinct
    exact hdistinct.imp fun h he he' => h (by simp [he]) (by simp [he'])
  obtain ⟨hi, rfl⟩ := List.getElem?_eq_some_iff.mp he
  obtain ⟨hj, rfl⟩ := List.getElem?_eq_some_iff.mp he'
  have hfake := SchemaField.isFake_of_isMatchable hm
  have hfake' := SchemaField.isFake_of_isMatchable hm'
  rw [List.pairwise_iff_getElem] at hpairs
  rcases Nat.lt_trichotomy i j with hlt | heq | hlt
  · exact (hpairs i j hi hj hlt hfake hfake' hsame).elim
  · exact heq
  · exact (hpairs j i hj hi hlt hfake' hfake hsame.symm).elim

end Schema

namespace Pass

/-! ## §2 One field -/

theorem Seat.isMatchable_of_isOpen {storageName : String} {seat : Seat}
    (h : seat.isOpen storageName = true) : seat.entry.isMatchable storageName = true :=
  (Bool.and_eq_true _ _ ▸ h).1

/-- A field that looks for a seat finds none, or takes the first one of its name and descriptor, or
may not take that one because of its flags. -/
theorem seatFor?_cases {s : Setting} {className : String} {seats : List Seat} {x : Candidate}
    {result : Option Nat}
    (h : seatFor? s className seats x.name x.descriptor x.access = .ok result) :
    (result = none ∧ ∀ seat ∈ seats, seat.isOpen s.config.storageName = true →
      seat.entry.isNamed x.name x.descriptor = false) ∨
    ∃ index seat, seats[index]? = some seat ∧ seat.isOpen s.config.storageName = true ∧
      seat.entry.isNamed x.name x.descriptor = true ∧
      (result = some index ∧ seat.entry.accepts x = true ∨
        result = none ∧ seat.entry.accepts x = false ∧ s.config.accessPolicy = .treatAsNew) := by
  simp only [seatFor?] at h
  cases hindex : seats.findIdx? fun seat => seat.isOpen s.config.storageName &&
      seat.entry.isNamed x.name x.descriptor with
  | none =>
      rw [hindex] at h
      cases h
      refine .inl ⟨rfl, fun seat hseat hopen => ?_⟩
      have hnone := List.findIdx?_eq_none_iff.mp hindex seat hseat
      rwa [hopen, Bool.true_and] at hnone
  | some index =>
      obtain ⟨hlt, hfits, hfirst⟩ := List.findIdx?_eq_some_iff_getElem.mp hindex
      have hfind : seats.find? (fun seat => seat.isOpen s.config.storageName &&
          seat.entry.isNamed x.name x.descriptor) = some seats[index] :=
        List.find?_eq_some_iff_getElem.mpr
          ⟨hfits, index, hlt, rfl, fun j hj => by
            rw [Bool.not_eq_true']
            exact Bool.eq_false_iff.mpr (hfirst j hj)⟩
      rw [Bool.and_eq_true] at hfits
      refine .inr ⟨index, seats[index], List.getElem?_eq_getElem hlt, hfits.1, hfits.2, ?_⟩
      rw [hindex, hfind] at h
      dsimp only at h
      split at h
      · next hflags =>
        cases h
        exact .inl ⟨rfl, by simpa [SchemaField.accepts, hfits.2] using hflags⟩
      · next hflags =>
        split at h
        · cases h
        · next hpolicy =>
          cases h
          exact .inr ⟨rfl, by simpa [SchemaField.accepts, hfits.2] using hflags, hpolicy⟩

/-- What is known after the fields of some candidates are placed: the seats of their matches are
taken, and the others count as added. -/
structure Draft.Accounts (s : Setting) (old : Schema) (p : Pool) (xs : List Candidate)
    (d : Draft) : Prop where
  growth : Pool.Growth p d.pool
  taken : d.seats.map (fun seat => (seat.entry, seat.occupant.isSome)) =
    old.fields.map fun e => (e, e.isMatchable s.config.storageName && xs.any e.accepts)
  statics : List.Forall₂ (fun f x => Field.candidateIn p f = .ok x) d.statics
    (xs.filter fun x => !old.hasMatch s.config.storageName x && x.access.isStatic)
  instances : List.Forall₂ (fun f x => Field.candidateIn p f = .ok x) d.instances
    (xs.filter fun x => !old.hasMatch s.config.storageName x && !x.access.isStatic)
  refused : s.config.accessPolicy = .reject → ∀ x ∈ xs, ∀ e ∈ old.fields,
    e.isMatchable s.config.storageName = true → e.identity = x.identity → e.accepts x = true

namespace Draft.Accounts

variable {s : Setting} {old : Schema} {p : Pool} {xs : List Candidate} {x : Candidate} {d : Draft}

/-- The seats, one by one. -/
theorem getElem?_seats (hd : d.Accounts s old p xs) (i : Nat) :
    d.seats[i]?.map (fun seat => (seat.entry, seat.occupant.isSome)) =
      old.fields[i]?.map fun e =>
        (e, e.isMatchable s.config.storageName && xs.any e.accepts) := by
  rw [← List.getElem?_map, hd.taken, List.getElem?_map]

theorem getElem?_fields (hd : d.Accounts s old p xs) {index : Nat} {seat : Seat}
    (hseat : d.seats[index]? = some seat) : old.fields[index]? = some seat.entry := by
  have hpair := hd.getElem?_seats index
  rw [hseat, Option.map_some] at hpair
  obtain ⟨e, he, heq⟩ := Option.map_eq_some_iff.mp hpair.symm
  rw [he, (Prod.mk.inj heq).1]

/-- Nobody has taken the seat that a new name and descriptor asks for. -/
theorem isOpen_of_fresh (hd : d.Accounts s old p xs) (hfresh : x.identity ∉ xs.map (·.identity))
    {seat : Seat} (hseat : seat ∈ d.seats)
    (hm : seat.entry.isMatchable s.config.storageName = true)
    (hnamed : seat.entry.identity = x.identity) : seat.isOpen s.config.storageName = true := by
  have hmem := List.mem_map_of_mem (f := fun seat : Seat => (seat.entry, seat.occupant.isSome))
    hseat
  rw [hd.taken] at hmem
  obtain ⟨e, -, he⟩ := List.mem_map.mp hmem
  obtain ⟨rfl, hoccupied⟩ := Prod.mk.inj he
  have hnone : xs.any seat.entry.accepts = false := by
    rw [List.any_eq_false]
    intro y hy haccepts
    have hidentity := SchemaField.identity_of_accepts haccepts
    exact hfresh (List.mem_map.mpr ⟨y, hy, hidentity.symm.trans hnamed⟩)
  rw [hnone, Bool.and_false] at hoccupied
  simp only [SchemaField.isMatchable] at hm
  simpa [Seat.isOpen, hm] using hoccupied.symm

/-- An entry of the old schema has its seat. -/
theorem exists_seat (hd : d.Accounts s old p xs) {e : SchemaField} (he : e ∈ old.fields) :
    ∃ seat ∈ d.seats, seat.entry = e := by
  have hmem := List.mem_map_of_mem (f := fun e : SchemaField =>
    (e, e.isMatchable s.config.storageName && xs.any e.accepts)) he
  rw [← hd.taken] at hmem
  obtain ⟨seat, hseat, heq⟩ := List.mem_map.mp hmem
  exact ⟨seat, hseat, (Prod.mk.inj heq).1⟩

/-- A field without a match takes no seat and counts as added. -/
theorem add (hd : d.Accounts s old p xs) {f : Field} (hx : Field.candidateIn p f = .ok x)
    (hno : old.hasMatch s.config.storageName x = false)
    (hrefused : s.config.accessPolicy = .reject → ∀ e ∈ old.fields,
      e.isMatchable s.config.storageName = true → e.identity ≠ x.identity) :
    (d.add f).Accounts s old p (xs ++ [x]) := by
  obtain ⟨-, haccess⟩ := Field.candidateIn_eq_ok.mp hx
  have hseats : d.seats.map (fun seat => (seat.entry, seat.occupant.isSome)) =
      old.fields.map fun e =>
        (e, e.isMatchable s.config.storageName && (xs ++ [x]).any e.accepts) := by
    rw [hd.taken]
    refine List.map_congr_left fun e he => ?_
    have hnone := List.any_eq_false.mp hno e he
    rw [List.any_append, Bool.and_or_distrib_left]
    simp_all
  have hpolicy : s.config.accessPolicy = .reject → ∀ y ∈ xs ++ [x], ∀ e ∈ old.fields,
      e.isMatchable s.config.storageName = true → e.identity = y.identity →
        e.accepts y = true := by
    intro hreject y hy e he hm hsame
    rcases List.mem_append.mp hy with hy | hy
    · exact hd.refused hreject y hy e he hm hsame
    · cases List.mem_singleton.mp hy
      exact (hrefused hreject e he hm hsame).elim
  unfold Draft.add
  rw [haccess]
  by_cases hstatic : x.access.isStatic = true
  · rw [if_pos hstatic]
    refine ⟨hd.growth, hseats, ?_, ?_, hpolicy⟩
    · simpa [List.filter_append, hno, hstatic] using List.rel_append hd.statics (.cons hx .nil)
    · simpa [List.filter_append, hno, hstatic] using hd.instances
  · rw [if_neg hstatic]
    refine ⟨hd.growth, hseats, ?_, ?_, hpolicy⟩
    · simpa [List.filter_append, hno, hstatic] using hd.statics
    · simpa [List.filter_append, hno, hstatic] using List.rel_append hd.instances (.cons hx .nil)

/-- The seat that a field takes is the only one that its name and descriptor ask for. -/
theorem taken_modify (hd : d.Accounts s old p xs) (hold : old.Distinct) {index : Nat} {seat : Seat}
    (hseat : d.seats[index]? = some seat)
    (hm : seat.entry.isMatchable s.config.storageName = true)
    (haccepts : seat.entry.accepts x = true) (occupant : Seat → Field) :
    (d.seats.modify index fun seat => { seat with occupant := occupant seat }).map
        (fun seat => (seat.entry, seat.occupant.isSome)) =
      old.fields.map fun e =>
        (e, e.isMatchable s.config.storageName && (xs ++ [x]).any e.accepts) := by
  have hentry := hd.getElem?_fields hseat
  refine List.ext_getElem? fun i => ?_
  have hpair := hd.getElem?_seats i
  rw [List.getElem?_map, List.getElem?_map, List.getElem?_modify]
  by_cases hi : index = i
  · subst hi
    rw [hseat, hentry]
    simp [hm, haccepts]
  · cases he : old.fields[i]? with
    | none =>
        rw [he, Option.map_none, Option.map_eq_none_iff] at hpair
        simp [hpair]
    | some e =>
        have hother : (e.isMatchable s.config.storageName && e.accepts x) = false := by
          by_contra hboth
          rw [Bool.not_eq_false, Bool.and_eq_true] at hboth
          have hsame := (SchemaField.identity_of_accepts hboth.2).trans
            (SchemaField.identity_of_accepts haccepts).symm
          exact hi (hold.eq_of_identity he hentry hboth.1 hm hsame).symm
        rw [he] at hpair
        simp only [hi, if_false, Option.map_eq_map, Option.map_id']
        rw [hpair, Option.map_some, Option.map_some, List.any_append, Bool.and_or_distrib_left]
        simp [hother]

/-- A field with a match takes the seat of the only entry that it matches. -/
theorem occupy (hd : d.Accounts s old p xs) (hold : old.Distinct) {index : Nat} {seat : Seat}
    (hseat : d.seats[index]? = some seat) (hopen : seat.isOpen s.config.storageName = true)
    (haccepts : seat.entry.accepts x = true) {d' : Draft} {occupant : Seat → Field}
    (hgrowth : Pool.Growth d.pool d'.pool)
    (hseats : d'.seats = d.seats.modify index fun seat => { seat with occupant := occupant seat })
    (hstatics : d'.statics = d.statics) (hinstances : d'.instances = d.instances) :
    d'.Accounts s old p (xs ++ [x]) := by
  have hm := Seat.isMatchable_of_isOpen hopen
  have hentry := List.mem_of_getElem? (hd.getElem?_fields hseat)
  have hhas : old.hasMatch s.config.storageName x = true :=
    List.any_eq_true.mpr ⟨seat.entry, hentry, by simp [hm, haccepts]⟩
  refine ⟨hd.growth.trans hgrowth, ?_, ?_, ?_, ?_⟩
  · rw [hseats]
    exact hd.taken_modify hold hseat hm haccepts occupant
  · rw [hstatics]
    simpa [List.filter_append, hhas] using hd.statics
  · rw [hinstances]
    simpa [List.filter_append, hhas] using hd.instances
  · intro hreject y hy e he hme hsame
    rcases List.mem_append.mp hy with hy | hy
    · exact hd.refused hreject y hy e he hme hsame
    · cases List.mem_singleton.mp hy
      have honly := hold.eq_of_mem he hentry hme hm
        (hsame.trans (SchemaField.identity_of_accepts haccepts).symm)
      rwa [honly]

end Draft.Accounts

/-- What becomes of a field that is looked at when none of its name and descriptor was before. -/
inductive Next (s : Setting) (old : Schema) (d : Draft) (f : Field) (x : Candidate) : Draft → Prop
  | passedOver (named : x.name = s.config.storageName) : Next s old d f x d
  | added (named : x.name ≠ s.config.storageName)
      (noMatch : old.hasMatch s.config.storageName x = false)
      (refused : s.config.accessPolicy = .reject → ∀ e ∈ old.fields,
        e.isMatchable s.config.storageName = true → e.identity ≠ x.identity) :
      Next s old d f x (d.add f)
  | matched (named : x.name ≠ s.config.storageName) {index : Nat} {seat : Seat}
      (place : d.seats[index]? = some seat) (isOpen : seat.isOpen s.config.storageName = true)
      (accepts : seat.entry.accepts x = true) {annotations : Option (List AnnotationUse)}
      (declared : AnnotationUse.visible? d.pool f.attributes = .ok annotations) {g : Field}
      {pool : Pool}
      (loaded : withLoadedAnnotations s x.name x.descriptor f d.pool = .ok (g, pool)) :
      Next s old d f x { d with
        pool
        seats := d.seats.modify index fun seat =>
          { seat with occupant := some { g with access := seat.entry.access } }
        declared := d.declared ++ [⟨s.owner, x.name, x.descriptor, annotations⟩] }

section Fold

variable {s : Setting} {className : String} {old : Schema} {p : Pool}

theorem place_next {xs : List Candidate} {x : Candidate} {d d' : Draft} {f : Field}
    (hold : old.Distinct) (hd : d.Accounts s old p xs) (hx : Field.candidateIn p f = .ok x)
    (hfresh : x.identity ∉ xs.map (·.identity)) (h : place s className d f = .ok d') :
    Next s old d f x d' := by
  obtain ⟨-, haccess⟩ := Field.candidateIn_eq_ok.mp hx
  obtain ⟨name, descriptor, hidentity, hplaced⟩ := place_ok h
  have hgrown := Field.identityIn_of_candidateIn hd.growth hx
  obtain ⟨rfl, rfl⟩ := Prod.mk.inj (Except.ok.inj (hidentity.symm.trans hgrown))
  cases hplaced with
  | passedOver named => exact .passedOver named
  | seated named hseat declared loaded =>
      rw [haccess] at hseat
      rcases seatFor?_cases hseat with
        ⟨hnone, -⟩ | ⟨index, seat, hat, hopen, -, ⟨hindex, haccepts⟩ | ⟨hnone, -⟩⟩
      · cases hnone
      · cases hindex
        exact .matched named hat hopen haccepts declared loaded
      · cases hnone
  | added named hseat =>
      rw [haccess] at hseat
      rcases seatFor?_cases hseat with
        ⟨-, hnone⟩ | ⟨index, seat, hat, hopen, hnamed, ⟨hindex, -⟩ | ⟨-, hflags, hpolicy⟩⟩
      · have hother : ∀ e ∈ old.fields, e.isMatchable s.config.storageName = true →
            e.identity ≠ x.identity := by
          intro e he hm hsame
          obtain ⟨seat, hmem, rfl⟩ := hd.exists_seat he
          have hnot := hnone seat hmem (hd.isOpen_of_fresh hfresh hmem hm hsame)
          rw [SchemaField.isNamed_iff.mpr hsame] at hnot
          cases hnot
        refine .added named (List.any_eq_false.mpr fun e he hboth => ?_) fun _ => hother
        rw [Bool.and_eq_true] at hboth
        exact hother e he hboth.1 (SchemaField.identity_of_accepts hboth.2)
      · cases hindex
      · refine .added named (List.any_eq_false.mpr fun e he hboth => ?_) fun hreject => ?_
        · rw [Bool.and_eq_true] at hboth
          have hentry := List.mem_of_getElem? (hd.getElem?_fields hat)
          have hsame := (SchemaField.identity_of_accepts hboth.2).trans
            (SchemaField.isNamed_iff.mp hnamed).symm
          have honly := hold.eq_of_mem he hentry hboth.1 (Seat.isMatchable_of_isOpen hopen) hsame
          rw [honly, hflags] at hboth
          cases hboth.2
        · rw [hpolicy] at hreject
          cases hreject

theorem Draft.Accounts.next {xs : List Candidate} {x : Candidate} {d d' : Draft} {f : Field}
    (hd : d.Accounts s old p xs) (hold : old.Distinct) (hx : Field.candidateIn p f = .ok x)
    (hname : x.name ≠ s.config.storageName) (h : Next s old d f x d') :
    d'.Accounts s old p (xs ++ [x]) := by
  cases h with
  | passedOver named => exact (hname named).elim
  | added _ noMatch refused => exact hd.add hx noMatch refused
  | matched _ place isOpen accepts _ loaded =>
      exact hd.occupy hold place isOpen accepts (withLoadedAnnotations_ok loaded).1 rfl rfl rfl

/-- What the next field keeps of what is known of those before it, the whole definition does. -/
theorem foldlM_next (hold : old.Distinct) {I : List (Field × Candidate) → Draft → Prop}
    {rows : List (Field × Candidate)}
    (hstep : ∀ done d d' row, row ∈ rows → row.2.name ≠ s.config.storageName →
      d.Accounts s old p (done.map Prod.snd) → I done d → Next s old d row.1 row.2 d' →
      I (done ++ [row]) d')
    (hrows : ∀ row ∈ rows, Field.candidateIn p row.1 = .ok row.2) :
    ∀ (done : List (Field × Candidate)) {d d' : Draft},
      ((done ++ rows).map (·.2.identity)).Nodup → d.Accounts s old p (done.map Prod.snd) →
      I done d → (rows.map Prod.fst).foldlM (place s className) d = .ok d' →
      d'.Accounts s old p
          ((done ++ rows.filter (·.2.name != s.config.storageName)).map Prod.snd) ∧
        I (done ++ rows.filter (·.2.name != s.config.storageName)) d' := by
  induction rows with
  | nil =>
      intro done d d' _ hd hI h
      cases except_pure_eq_ok.mp h
      rw [List.filter_nil, List.append_nil]
      exact ⟨hd, hI⟩
  | cons row rows ih =>
      intro done d d' hnodup hd hI h
      rw [List.map_cons, List.foldlM_cons] at h
      obtain ⟨d₁, hplace, h⟩ := except_bind_eq_ok.mp h
      have hx := hrows row List.mem_cons_self
      have hfresh : row.2.identity ∉ (done.map Prod.snd).map (·.identity) := by
        rw [List.map_append, List.map_cons, List.nodup_append] at hnodup
        rw [List.map_map]
        exact fun hmem => hnodup.2.2 _ hmem _ List.mem_cons_self rfl
      have hnext := place_next hold hd hx hfresh hplace
      have ih := @ih (fun done d d' row hrow => hstep done d d' row (List.mem_cons_of_mem _ hrow))
        fun row hrow => hrows row (List.mem_cons_of_mem _ hrow)
      by_cases hname : row.2.name = s.config.storageName
      · have hsame : d₁ = d := by
          cases hnext with
          | passedOver => rfl
          | added named => exact (named hname).elim
          | matched named => exact (named hname).elim
        rw [hsame] at h
        rw [List.filter_cons_of_neg (by simp [hname])]
        refine ih done (hnodup.sublist (List.Sublist.map _ ?_)) hd hI h
        exact (List.sublist_cons_self row rows).append_left done
      · rw [List.filter_cons_of_pos (by simp [hname])]
        have hd₁ := hd.next hold hx hname hnext
        have hI₁ := hstep done d d₁ row List.mem_cons_self hname hd hI hnext
        rw [← List.singleton_append, ← List.append_assoc] at hnodup ⊢
        exact ih (done ++ [row]) hnodup (by rwa [List.map_append]) hI₁ h

end Fold

/-- Fields that can be told by name and descriptor are candidates. -/
theorem exists_rows {p : Pool} {fields : List Field} {identities : List (String × String)}
    (h : List.Forall₂ (fun f id => f.identityIn p = .ok id) fields identities) :
    ∃ rows : List (Field × Candidate), rows.map Prod.fst = fields ∧
      (∀ row ∈ rows, Field.candidateIn p row.1 = .ok row.2) ∧
      rows.map (·.2.identity) = identities := by
  induction h with
  | nil => exact ⟨[], rfl, nofun, rfl⟩
  | @cons f id fields identities hf _ ih =>
      obtain ⟨rows, rfl, hrows, rfl⟩ := ih
      refine ⟨(f, ⟨id.1, id.2, f.access⟩) :: rows, rfl, ?_, rfl⟩
      intro row hrow
      rcases List.mem_cons.mp hrow with rfl | hrow
      · exact Field.candidateIn_eq_ok.mpr ⟨hf, rfl⟩
      · exact hrows row hrow

/-- **The whole definition.**  Its fields are looked at one after the other, and what the next one
keeps holds in the end of all that are not passed over. -/
theorem placeAll_next {s : Setting} {old : Schema} {c : ClassFile} {d : Draft}
    (hold : old.Distinct) (h : placeAll s old c = .ok d)
    {I : List (Field × Candidate) → Draft → Prop}
    (hstart : I [] { pool := c.pool, seats := old.fields.map (⟨·, none⟩) })
    (hstep : ∀ done d d' row, row.1 ∈ c.fields → Field.candidateIn c.pool row.1 = .ok row.2 →
      row.2.name ≠ s.config.storageName → d.Accounts s old c.pool (done.map Prod.snd) → I done d →
      Next s old d row.1 row.2 d' → I (done ++ [row]) d') :
    ∃ rows : List (Field × Candidate), rows.map Prod.fst = c.fields ∧
      (∀ row ∈ rows, Field.candidateIn c.pool row.1 = .ok row.2) ∧
      (rows.map (·.2.identity)).Nodup ∧
      d.Accounts s old c.pool ((rows.filter (·.2.name != s.config.storageName)).map Prod.snd) ∧
      I (rows.filter (·.2.name != s.config.storageName)) d := by
  obtain ⟨-, identities, hnodup, hidentities⟩ := placeAll_instances h
  obtain ⟨identities', -, h⟩ := except_bind_eq_ok.mp h
  split at h
  · exact (except_throw_eq_ok.mp h).elim
  obtain ⟨rows, hfields, hrows, rfl⟩ := exists_rows hidentities
  refine ⟨rows, hfields, hrows, hnodup, ?_⟩
  have hempty : Draft.Accounts s old c.pool []
      { pool := c.pool, seats := old.fields.map (⟨·, none⟩) } :=
    ⟨.refl, by simp [Function.comp_def], .nil, .nil, nofun⟩
  rw [← hfields] at h
  refine foldlM_next (I := I) hold (fun done d d' row hrow => ?_) hrows [] hnodup hempty hstart h
  exact hstep done d d' row (hfields ▸ List.mem_map_of_mem hrow) (hrows row hrow)

/-- What becomes of the fields is decided by their candidates. -/
theorem placeAll_accounts {s : Setting} {old : Schema} {c : ClassFile} {d : Draft}
    (hold : old.Distinct) (h : placeAll s old c = .ok d) :
    ∃ xs, c.candidates s.config.storageName = .ok xs ∧ (xs.map (·.identity)).Nodup ∧
      d.Accounts s old c.pool xs := by
  obtain ⟨rows, hfields, hrows, hnodup, haccounts, -⟩ :=
    placeAll_next (I := fun _ _ => True) hold h trivial fun _ _ _ _ _ _ _ _ _ _ => trivial
  refine ⟨_, ?_, ?_, haccounts⟩
  · refine except_bind_eq_ok.mpr ⟨rows.map Prod.snd, except_mapM_eq_ok.mpr ?_, ?_⟩
    · rw [← hfields, List.forall₂_map_left_iff, List.forall₂_map_right_iff, List.forall₂_same]
      exact hrows
    · rw [List.filter_map]
      rfl
  · rw [List.map_map]
    exact hnodup.sublist (List.filter_sublist.map _)

/-! ## §3 What a class declares -/

theorem not_mem_of_position? {carrier : Carrier} {pool : Pool} {name descriptor : String}
    {members : List (Member carrier)} :
    ∀ {position : Nat}, Member.position? pool name descriptor position members = .ok none →
      ∀ m ∈ members, m.identityIn pool ≠ .ok (name, descriptor) := by
  induction members with
  | nil => exact fun _ => nofun
  | cons m members ih =>
      intro position h m' hm' hidentity
      obtain ⟨hname, hdescriptor⟩ := Member.identityIn_eq_ok.mp hidentity
      unfold Member.position? at h
      rcases List.mem_cons.mp hm' with rfl | hm'
      · simp [Member.nameIn, Member.descriptorIn, hname, hdescriptor] at h
      · split at h
        · cases h
        · split at h
          · split at h
            · cases h
            · split at h
              · cases h
              · exact ih h m' hm' hidentity
          · exact ih h m' hm' hidentity

/-- No two of the fields have the same name and descriptor. -/
def Separate (pool : Pool) (fields : List Field) : Prop :=
  fields.Pairwise fun f g => ∀ id, f.identityIn pool = .ok id → g.identityIn pool ≠ .ok id

theorem addField_separate {f : Field} {c c' : ClassFile} {n : Nat}
    (h : ClassFile.addField f c = .ok n c') (hc : Separate c.pool c.fields) :
    Separate c'.pool c'.fields := by
  obtain ⟨fields, hadd, -, rfl⟩ := addField_steps h
  obtain ⟨rfl, name, descriptor, hidentity, hnone⟩ := add_ok hadd
  refine List.pairwise_append.mpr ⟨hc, List.pairwise_singleton _ _, ?_⟩
  intro g hg f' hf' id hid hid'
  cases List.mem_singleton.mp hf'
  cases hidentity.symm.trans hid'
  exact not_mem_of_position? hnone g hg hid

theorem addFields_separate {fields : List Field} {c c' : ClassFile}
    (h : fields.foldlM (fun c f => edited (ClassFile.addField f) c) c = .ok c')
    (hc : Separate c.pool c.fields) : Separate c'.pool c'.fields := by
  refine except_foldlM_invariant (fun c => Separate c.pool c.fields) ?_ hc h
  intro c f c' _ hc h
  obtain ⟨n, h⟩ := edited_eq_ok.mp h
  exact addField_separate h hc

/-- A pass that gives the new definition a field table has found the entries of the old schema
distinct. -/
theorem distinct_of_reshape {s : Setting} {old : Schema} {c : ClassFile} {r : Reshaped}
    (hp : c.pool.Addressable) (h : reshape s old c = .ok r) : old.Distinct := by
  obtain ⟨hd, ⟨seats, pool, hseats, hshaped⟩, -⟩ := reshape_steps h
  obtain ⟨c₁, hadd, -⟩ := except_bind_eq_ok.mp hshaped
  obtain ⟨-, hdeclared⟩ := fillShells_declares (placeAll_sound hd) hp hseats
  have hseparate := addFields_separate hadd List.Pairwise.nil
  rw [addFields_ok hadd, List.nil_append] at hseparate
  refine List.pairwise_map.mpr (pairwise_of_forall₂ hdeclared hseparate ?_)
  intro f _ g _ e e' hfg hf hg hsame
  exact hfg e.identity hf.1 (hsame ▸ hg.1)

/-- A draft that a pass has made accounts for the candidates of the definition. -/
theorem Ran.accounts {source : AnnotationSource} {old : Schema} {c : ClassFile} {r r' : Registries}
    {o : Outcome} (t : Ran source old c r o r') (hp : c.pool.Addressable) {xs : List Candidate}
    (hxs : c.candidates t.setting.config.storageName = .ok xs) :
    t.shape.draft.Accounts t.setting old c.pool xs := by
  obtain ⟨hplaced, -⟩ := reshape_steps t.reshaped
  obtain ⟨ys, hys, -, hd⟩ := placeAll_accounts (distinct_of_reshape hp t.reshaped) hplaced
  cases hxs.symm.trans hys
  exact hd

/-- An added static field is held under the name and descriptor of its candidate. -/
theorem Held.Made.named {context : Context} {s : Setting} {p q : Pool} {f : Field} {held : Held}
    {x : Candidate} (h : held.Made context s q f) (hgrowth : Pool.Growth p q)
    (hx : Field.candidateIn p f = .ok x) :
    held.redirect.name = x.name ∧ held.redirect.descriptor = x.descriptor := by
  have hlater := Field.identityIn_of_candidateIn hgrowth hx
  exact Prod.mk.inj (Except.ok.inj (h.identity.symm.trans hlater))

end Pass

end Reshape
