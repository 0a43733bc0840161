import Reshape.Proofs.Host.Fragments
import Reshape.Proofs.Redefinition.Block

/-!
# What the storage block allocates

On the host the block does to an object just what the layout of its added fields says: an object
that has storage passes through unchanged, and one that has none gets one array with the initial
value of every slot.  The fill is followed slot by slot: after the first slots are stored, the
array holds their initial values and is null from there on.
-/

namespace Reshape.Prologue

open Host

/-! ## §1 One slot -/

variable {pool p q : Pool} {storage : MemberRef} {f g : Fragment} {s : List Operand} {o : Object}

theorem boxedBy?_boxing (t : Primitive) : boxedBy? (boxing t) = some t := by
  cases t <;> decide +kernel

/-- The method that the block calls to box a zero. -/
theorem boxing_eq (t : Primitive) :
    boxing t =
      ⟨t.boxClass, "valueOf", "(" ++ String.singleton t.letter ++ ")L" ++ t.boxClass ++ ";"⟩ := by
  cases t <;> decide +kernel

theorem appends_pushZero (t : Primitive) :
    Appends pool storage f (f.pushZero t) 1 s o
      (.number (StoredValue.initialOf (.primitive t)) :: s) o := by
  cases t <;> exact .op rfl (by decide) fun _ _ => rfl

theorem appends_box (t : Primitive) {v : StoredValue} (fits : v.fits (.primitive t) = true)
    (hp : p.Addressable) (hpool : Pool.Growth q pool)
    (h : f.onMethod .invokeStatic (boxing t) p = .ok g q) :
    Appends pool storage f g 3 (.number v :: s) o (.object v :: s) o := by
  obtain ⟨index, p₁, hindex, h⟩ := state_bind_eq_ok.mp h
  obtain ⟨rfl, rfl⟩ := state_pure_eq_ok.mp h
  have hmember := hpool.memberRef (Pool.memberRef_of_addMethodRef hp hindex)
  refine .op16 rfl (by decide) fun code offset hoperand => ?_
  simp [act, pushed?, loaded?, member?, hoperand, hmember, Except.toOption, boxedBy?_boxing, fits]

theorem appends_pushInitial {t : FieldType} (hp : p.Addressable) (hpool : Pool.Growth q pool)
    (h : pushInitial t f p = .ok g q) :
    Appends pool storage f g 4 s o (.object (StoredValue.initialOf t) :: s) o := by
  unfold pushInitial at h
  cases t with
  | primitive t =>
      simp only [FieldType.primitive?, ← boxing_eq] at h
      refine (appends_pushZero t).trans (appends_box t ?_ hp hpool h)
      cases t <;> rfl
  | object name =>
      obtain ⟨rfl, -⟩ := state_pure_eq_ok.mp h
      exact (Appends.op rfl (by decide) fun _ _ => rfl).mono (by decide)
  | array element =>
      obtain ⟨rfl, -⟩ := state_pure_eq_ok.mp h
      exact (Appends.op rfl (by decide) fun _ _ => rfl).mono (by decide)

/-- One slot of the array on top of the stack gets its initial value. -/
theorem appends_storeInitial {values : Container} {slot : FieldType × Nat}
    (hslot : slot.2 < values.length) (hsize : values.length ≤ 2147483647) (hp : p.Addressable)
    (hpool : Pool.Growth q pool) (h : storeInitial f slot p = .ok g q) :
    Appends pool storage f g 9 (.array o.arrays.length :: s) (o.allocated values)
      (.array o.arrays.length :: s)
      (o.allocated (values.set slot.2 (StoredValue.initialOf slot.1))) := by
  obtain ⟨f₁, p₁, hindex, h⟩ := state_bind_eq_ok.mp h
  obtain ⟨f₂, p₂, hinitial, h⟩ := state_bind_eq_ok.mp h
  obtain ⟨rfl, rfl⟩ := state_pure_eq_ok.mp h
  have hgrowth := (grows_pushInitial _ _).growth hinitial
  have hp₁ := ((Fragment.grows_pushInt _ _).growth hindex).addressable hp
  have hdup : Appends pool storage f (f.op .dup) 1 (.array o.arrays.length :: s)
      (o.allocated values) (.array o.arrays.length :: .array o.arrays.length :: s)
      (o.allocated values) := .op rfl (by decide) fun _ _ => rfl
  refine ((hdup.trans (.pushInt hp (hgrowth.trans hpool) hindex)).trans
    (appends_pushInitial hp₁ hpool hinitial)).trans (.op rfl (by decide) fun code offset => ?_)
  have hnat := Int32.toInt_ofNat_of_lt (Nat.lt_of_lt_of_le hslot (Nat.le_succ_of_le hsize))
  simp [act, pushed?, loaded?, Object.allocated, hnat, hslot]

/-! ## §2 The array -/

/-- With the first slots stored, the others follow. -/
theorem appends_storeAll {types : List FieldType} :
    ∀ {done : Container} {f g : Fragment} {p : Pool},
      done.length + types.length ≤ 2147483647 → p.Addressable → Pool.Growth q pool →
      (types.zipIdx done.length).foldlM storeInitial f p = .ok g q →
      Appends pool storage f g (9 * types.length) (.array o.arrays.length :: s)
        (o.allocated (done ++ List.replicate types.length .null)) (.array o.arrays.length :: s)
        (o.allocated (done ++ types.map StoredValue.initialOf)) := by
  induction types with
  | nil =>
      intro done f g p _ _ _ h
      obtain ⟨rfl, -⟩ := state_pure_eq_ok.mp h
      exact .refl
  | cons t types ih =>
      intro done f g p hsize hp hpool h
      rw [List.length_cons] at hsize
      rw [List.zipIdx_cons, List.foldlM_cons] at h
      obtain ⟨f₁, p₁, hslot, h⟩ := state_bind_eq_ok.mp h
      have hp₁ := ((grows_storeInitial _ _).growth hslot).addressable hp
      have hgrowth := (Interning.Grows.foldlM grows_storeInitial _ _).growth h
      have hset : (done ++ List.replicate (types.length + 1) StoredValue.null).set done.length
          (StoredValue.initialOf t) =
            done ++ [StoredValue.initialOf t] ++ List.replicate types.length .null := by
        rw [List.set_append_right _ _ (Nat.le_refl _), Nat.sub_self, List.replicate_succ,
          List.set_cons_zero, List.append_assoc, List.singleton_append]
      have hfirst : Appends pool storage f f₁ 9 (.array o.arrays.length :: s)
          (o.allocated (done ++ List.replicate (types.length + 1) .null))
          (.array o.arrays.length :: s)
          (o.allocated
            (done ++ [StoredValue.initialOf t] ++ List.replicate types.length .null)) := by
        rw [← hset]
        exact appends_storeInitial (by simp) (by simp; omega) hp (hgrowth.trans hpool) hslot
      have hlength : (done ++ [StoredValue.initialOf t]).length = done.length + 1 := by
        rw [List.length_append, List.length_singleton]
      rw [← hlength] at h
      have hboth := hfirst.trans (ih (by rw [hlength]; omega) hp₁ hpool h)
      rw [List.append_assoc _ _ (types.map _)] at hboth
      exact hboth.mono (by rw [List.length_cons]; omega)

theorem appends_anewarray {n : Nat} (hn : n < 2147483648) (hp : p.Addressable)
    (hpool : Pool.Growth q pool) (h : f.anewarray elementClass p = .ok g q) :
    Appends pool storage f g 3 (.number (.integer (Int32.ofNat n)) :: s) o
      (.array o.arrays.length :: s) { o with arrays := o.arrays ++ [List.replicate n .null] } := by
  obtain ⟨index, p₁, hindex, h⟩ := state_bind_eq_ok.mp h
  obtain ⟨rfl, rfl⟩ := state_pure_eq_ok.mp h
  have hclass := hpool.className (Pool.className_of_addClass hp hindex)
  have hnat := Int32.toInt_ofNat_of_lt hn
  refine .op16 rfl (by decide) fun code offset hoperand => ?_
  simp [act, pushed?, loaded?, class?, hoperand, hclass, Except.toOption, elementClass, hnat]

theorem appends_putField {address : Nat} (hp : p.Addressable) (hpool : Pool.Growth q pool)
    (h : f.onField .putField storage p = .ok g q) :
    Appends pool storage f g 3 (.array address :: .this :: s) o s
      { o with storage := some address } := by
  obtain ⟨index, p₁, hindex, h⟩ := state_bind_eq_ok.mp h
  obtain ⟨rfl, rfl⟩ := state_pure_eq_ok.mp h
  have hmember := hpool.memberRef (Pool.memberRef_of_addFieldRef hp hindex)
  refine .op16 rfl (by decide) fun code offset hoperand => ?_
  simp [act, pushed?, loaded?, member?, hoperand, hmember, Except.toOption]

/-- The allocation gives the object a new array with the initial values. -/
theorem appends_allocation {l : StorageLayout} (hsize : l.size < 2147483648)
    (hp : p.Addressable) (hpool : Pool.Growth q pool) (h : allocation storage l p = .ok g q) :
    Appends pool storage .empty g (9 * l.size + 12) s o s
      (o.allocated (Container.allocate l)) := by
  obtain ⟨f₁, p₁, hpush, h⟩ := state_bind_eq_ok.mp h
  obtain ⟨f₂, p₂, harray, h⟩ := state_bind_eq_ok.mp h
  obtain ⟨f₃, p₃, hput, h⟩ := state_bind_eq_ok.mp h
  obtain ⟨f₄, p₄, hslots, h⟩ := state_bind_eq_ok.mp h
  obtain ⟨rfl, rfl⟩ := state_pure_eq_ok.mp h
  have hp₁ := ((Fragment.grows_pushInt _ _).growth hpush).addressable hp
  have hp₂ := ((Fragment.grows_anewarray _ _).growth harray).addressable hp₁
  have hp₃ := ((Fragment.grows_onField _ _ _).growth hput).addressable hp₂
  have hpool₃ := ((Interning.Grows.foldlM grows_storeInitial _ _).growth hslots).trans hpool
  have hpool₂ := ((Fragment.grows_onField _ _ _).growth hput).trans hpool₃
  have hpool₁ := ((Fragment.grows_anewarray _ _).growth harray).trans hpool₂
  have hthis : Appends pool storage .empty (Fragment.empty.aload 0) 1 s o (.this :: s) o :=
    .op rfl (by decide) fun _ _ => rfl
  have hcreated := (hthis.trans (.pushInt hp hpool₁ hpush)).trans
    (appends_anewarray hsize hp₁ hpool₂ harray)
  have hput' : Appends pool storage _ f₃ 3 (.array o.arrays.length :: .this ::
      .array o.arrays.length :: s) { o with arrays := o.arrays ++ [List.replicate l.size .null] }
      (.array o.arrays.length :: s) (o.allocated (List.replicate l.size .null)) :=
    appends_putField hp₂ hpool₃ hput
  have hstored := (hcreated.trans (.op rfl (by decide) fun _ _ => rfl)).trans hput'
  have hfilled : Appends pool storage f₃ f₄ (9 * l.size) (.array o.arrays.length :: s)
      (o.allocated (List.replicate l.size .null)) (.array o.arrays.length :: s)
      (o.allocated (Container.allocate l)) := by
    have hlength : ([] : Container).length + l.slots.length ≤ 2147483647 := by
      simpa [StorageLayout.size] using Nat.le_of_lt_succ hsize
    exact appends_storeAll hlength hp₃ hpool hslots
  have hpopped : Appends pool storage f₄ (f₄.op .pop) 1 (.array o.arrays.length :: s)
      (o.allocated (Container.allocate l)) s (o.allocated (Container.allocate l)) :=
    .op rfl (by decide) fun _ _ => rfl
  exact ((hstored.trans hfilled).trans hpopped).mono (by omega)

/-! ## §3 The block -/

/-- The field that holds the storage of a class's objects. -/
def storageField (config : Config) (owner : String) : MemberRef :=
  ⟨owner, config.storageName, config.storageDescriptor⟩

variable {config : Config} {owner : String} {l : StorageLayout} {block : Array UInt8}

/-- The whole block is short enough for its branch. -/
theorem size_lt_of_block (hp : p.Addressable) (h : Prologue.block config owner l p = .ok block q) :
    block.size < 0x8000000000000000 := by
  obtain ⟨hsize, fill, p₁, index, hfill, hindex, hblock, -⟩ := block_parts h
  have hpool := (Pool.grows_addFieldRef _).growth hindex
  obtain ⟨bytes, hbytes, hlength, -⟩ :=
    appends_allocation (s := []) (o := {}) hsize hp hpool hfill
  have hfillSize := congrArg List.length hbytes
  rw [Fragment.empty, List.nil_append, Array.length_toList] at hfillSize
  rw [hblock, Fragment.size, hfillSize]
  unfold Fragment.alignedSize
  omega

theorem does_check {index : UInt16} (hindex : pool.memberRef index = .ok storage) :
    Does pool storage (checkBytes index) s o (o.held :: s) o := by
  have hlength : (BigEndian.u16 index).length = 2 := BigEndian.length_u16 index
  have hthis : Does pool storage [Opcode.aload0.byte] s o (.this :: s) o :=
    .of_act rfl (by decide) fun _ _ _ => rfl
  refine hthis.append (.of_act (by rw [hlength]; rfl) (by decide) fun code offset holds => ?_)
  simp [act, pushed?, loaded?, member?, holds.u16At_eq, hindex, Except.toOption]

/-- **The block provides the object with storage.** -/
theorem does_block (hp : p.Addressable) (hpool : Pool.Growth q pool)
    (h : Prologue.block config owner l p = .ok block q) :
    Does pool (storageField config owner) block.toList s o s (o.provided l) := by
  intro code position stop last holds fits
  have hshort := size_lt_of_block hp h
  have hsize := (block_parts h).1
  obtain ⟨t, fill, p₁, index, n, hfill, hindex, hcheck, hfillBytes⟩ := shape_of_block hshort h
  have hp₁ := ((grows_allocation _ _).growth hfill).addressable hp
  have hmember := hpool.memberRef (Pool.memberRef_of_addFieldRef hp₁ hindex)
  have hfilled := ((Pool.grows_addFieldRef _).growth hindex).trans hpool
  obtain ⟨hcheckHolds, -, hfillHolds⟩ := t.holds holds
  have hlength := t.size_eq
  rw [Array.length_toList] at fits ⊢
  rw [hcheck] at hcheckHolds
  refine (does_check hmember code position stop last hcheckHolds
    (by rw [length_checkBytes]; omega)).trans ?_
  rw [length_checkBytes]
  have haway : position + 4 ≠ stop := by omega
  have hbranch {target : Nat} (htarget : branch? code ⟨position + 4, .ifNonNull, 3⟩ o.held =
      some target) : step? pool (storageField config owner) code ⟨position + 4, o.held :: s, o⟩ =
        some ⟨target, s, o⟩ := by
    simp [step?, t.branch_decoded holds, Except.toOption, htarget]
  unfold Object.provided
  cases hstorage : o.storage with
  | some address =>
      refine executes_iff_of_step haway (hbranch ?_)
      simp only [Object.held, hstorage, branch?, t.relative_eq holds, Except.toOption]
      show some _ = some _
      congr 1
      omega
  | none =>
      have hstays : branch? code ⟨position + 4, .ifNonNull, 3⟩ o.held = some (position + 7) := by
        simp only [Object.held, hstorage]
        rfl
      refine (executes_iff_of_step haway (hbranch hstays)).trans ?_
      obtain ⟨bytes, hbytes, -, hdoes⟩ :=
        appends_allocation (s := s) (o := o) hsize hp hfilled hfill
      rw [Fragment.empty, List.nil_append] at hbytes
      have hrest := (hdoes.append (Does.nops n)) code (position + 7) stop last
      rw [← hbytes, ← hfillBytes] at hrest
      refine (hrest hfillHolds (by omega)).trans ?_
      rw [hlength, Nat.add_assoc, Nat.add_comm 7]
      rfl

/-! ## §4 The life of an object -/

variable {o' : Object} {writes : List (Nat × StoredValue)}

/-- What happens to an object: blocks for one layout run on it, from whatever class versions and
in whatever order, and its slots are written. -/
inductive Life (config : Config) (owner : String) (l : StorageLayout) (o : Object) :
    List (Nat × StoredValue) → Object → Prop
  | begins : Life config owner l o [] o
  | constructs {writes : List (Nat × StoredValue)} {before : Object} {p q pool : Pool}
      {block code : Array UInt8} {position : Nat} {stack : List Operand} {last : Machine}
      (lived : Life config owner l o writes before) (addressable : p.Addressable)
      (built : Prologue.block config owner l p = .ok block q) (grown : Pool.Growth q pool)
      (placed : Code.Holds code position block.toList)
      (executed : Executes pool (storageField config owner) code (position + block.size)
        ⟨position, stack, before⟩ last) :
      Life config owner l o writes last.object
  | writes {writes : List (Nat × StoredValue)} {before : Object}
      (lived : Life config owner l o writes before) (provided : before.storage.isSome = true)
      (slot : Nat) (v : StoredValue) :
      Life config owner l o (writes ++ [(slot, v)]) (before.write slot v)

/-- A block that is executed comes to its end and has provided the object with storage. -/
theorem executes_block_iff {p q pool : Pool} {block code : Array UInt8} {position : Nat}
    {stack : List Operand} {last : Machine} (hp : p.Addressable)
    (hblock : Prologue.block config owner l p = .ok block q) (hpool : Pool.Growth q pool)
    (holds : Code.Holds code position block.toList) :
    Executes pool (storageField config owner) code (position + block.size) ⟨position, stack, o⟩
        last ↔
      last = ⟨position + block.size, stack, o.provided l⟩ := by
  have hdoes : Does pool (storageField config owner) block.toList stack o stack (o.provided l) :=
    does_block hp hpool hblock
  exact (hdoes code position _ last holds (Nat.le_refl _)).trans (executes_iff_of_arrived rfl)

/-- Until the first block the object is as it was, and from then on only writes change it. -/
theorem Life.eq (h : Life config owner l o writes o') :
    writes = [] ∧ o' = o ∨ o' = (o.provided l).writeAll writes := by
  induction h with
  | begins => exact .inl ⟨rfl, rfl⟩
  | @constructs writes before _ _ _ _ _ _ _ _ _ addressable built grown placed executed ih =>
      cases (executes_block_iff addressable built grown placed).mp executed
      rcases ih with ⟨rfl, rfl⟩ | rfl
      · exact .inr rfl
      · refine .inr (Object.provided_of_isSome l ?_)
        rw [(Object.writeAll_spec writes _).1, Object.isSome_storage_provided]
  | @writes ws before _ provided slot v ih =>
      rcases ih with ⟨rfl, rfl⟩ | rfl
      · rw [List.nil_append, Object.provided_of_isSome l provided]
        exact .inr rfl
      · exact .inr (by simp [Object.writeAll])

/-- **The storage block computes the container of its layout, and only once.**  It comes to its
end, whatever the rest of the class is, and leaves an object with storage as it is; any other
object gets one new array, which holds the initial values of the layout.  However often such
blocks run on an object, at most one array is allocated, and no slot changes but by being
written. -/
theorem storage_allocated_once (config : Config) (owner : String) (l : StorageLayout) :
    (∀ {p q : Pool} {block : Array UInt8}, p.Addressable →
      Prologue.block config owner l p = .ok block q →
      block.size % 4 = 0 ∧
      ∀ {pool : Pool} {code : Array UInt8} {position : Nat} {stack : List Operand} {o : Object}
        {last : Machine}, Pool.Growth q pool → Code.Holds code position block.toList →
        (Executes pool (storageField config owner) code (position + block.size)
            ⟨position, stack, o⟩ last ↔
          last = ⟨position + block.size, stack,
            if o.storage.isSome then o
            else ⟨o.arrays ++ [Container.allocate l], some o.arrays.length⟩⟩)) ∧
    (∀ i : Nat, (Container.allocate l)[i]? = l.slots[i]?.map StoredValue.initialOf) ∧
    ∀ {o o' : Object} {writes : List (Nat × StoredValue)}, Life config owner l o writes o' →
      o'.arrays.length ≤ o.arrays.length + (if o.storage.isSome then 0 else 1) ∧
      (∀ values, o.values? = some values →
        o'.storage = o.storage ∧ o'.values? = some (Object.written values writes)) ∧
      (o.storage = none → o'.storage.isSome = true →
        o'.values? = some (Object.written (Container.allocate l) writes)) := by
  refine ⟨fun hp hblock => ⟨?_, fun hpool holds => executes_block_iff hp hblock hpool holds⟩,
    fun i => List.getElem?_map, fun {o o' writes} hlife => ?_⟩
  · obtain ⟨-, fill, -, -, -, -, hsize, -⟩ := block_parts hblock
    rw [hsize]
    exact Nat.mul_mod_left _ 4
  obtain ⟨hstorage, hlength, hvalues⟩ := Object.writeAll_spec writes (o.provided l)
  cases hnone : o.storage with
  | none =>
      rw [Object.provided_of_none l hnone] at hstorage hlength hvalues
      have hkept : o.values? = none := by simp [Object.values?, hnone]
      rcases hlife.eq with ⟨rfl, rfl⟩ | rfl
      · simp [hnone, hkept]
      · rw [Object.provided_of_none l hnone, hlength, hvalues, hkept]
        rw [Object.values?_allocated]
        refine ⟨by simp [Object.allocated], ?_, fun _ _ => rfl⟩
        rintro values ⟨⟩
  | some address =>
      have hsome : o.storage.isSome = true := by rw [hnone]; rfl
      rw [Object.provided_of_isSome l hsome] at hstorage hlength hvalues
      have hsame : o' = o.writeAll writes := by
        rcases hlife.eq with ⟨rfl, rfl⟩ | rfl
        · rfl
        · rw [Object.provided_of_isSome l hsome]
      subst hsame
      refine ⟨Nat.le_of_eq hlength, fun values hof => ⟨hstorage.trans hnone, ?_⟩, ?_⟩
      · rw [hvalues, hof]
        rfl
      · rintro ⟨⟩

/-- Three slots, of the types that differ most in their initial values. -/
def sampleLayout : StorageLayout :=
  ⟨"A", [.primitive .int, .object "java/lang/String", .primitive .long]⟩

/-- A new object is constructed, its first slot is written, and a block runs on it once more. -/
theorem storage_allocated_once_rewritten :
    ∃ (block : Array UInt8) (q : Pool) (o : Object),
      Prologue.block {} "A" sampleLayout .empty = .ok block q ∧ block.size % 4 = 0 ∧
      Life {} "A" sampleLayout {} [(0, .integer 7)] o ∧
      o.arrays = [[.integer 7, .null, .long 0]] ∧
      o.values? = some [.integer 7, .null, .long 0] := by
  have evaluated : (match Prologue.block {} "A" sampleLayout .empty with
      | .ok _ _ => true
      | .error _ _ => false) = true := by decide +kernel
  split at evaluated
  case h_2 => cases evaluated
  next block q hblock =>
  obtain ⟨hruns, hvalues, hlives⟩ := storage_allocated_once {} "A" sampleLayout
  have hempty : Pool.empty.Addressable := by unfold Pool.Addressable; decide
  obtain ⟨haligned, hexecutes⟩ := hruns hempty hblock
  have hself := Code.Holds.self block
  have hends (o : Object) : Executes q (storageField {} "A") block (0 + block.size) ⟨0, [], o⟩
      ⟨0 + block.size, [], if o.storage.isSome then o
        else ⟨o.arrays ++ [Container.allocate sampleLayout], some o.arrays.length⟩⟩ :=
    (hexecutes .refl hself).mpr rfl
  have hfirst : Life {} "A" sampleLayout {} [] ⟨[Container.allocate sampleLayout], some 0⟩ :=
    .constructs .begins hempty hblock .refl hself (hends {})
  have hagain := Life.constructs (hfirst.writes rfl 0 (.integer 7)) hempty hblock .refl hself
    (hends _)
  exact ⟨block, q, _, hblock, haligned, hagain, rfl, (hlives hagain).2.2 rfl rfl⟩

end Reshape.Prologue
