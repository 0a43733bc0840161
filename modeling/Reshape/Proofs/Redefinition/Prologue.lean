import Reshape.Proofs.Attribute.Named
import Reshape.Proofs.Code.Edit
import Reshape.Redefinition.Prologue

/-!
# What instrumenting changes

Instrumenting goes through the methods in order and lets the pool grow from one to the next.  A
constructor with a body gets the block behind its constructor call, every other method stays as
it is, and so does everything else in the class.
-/

namespace Reshape

namespace Prologue

open Interning

/-! ## §1 The block -/

theorem grows_pushInitial (t : FieldType) (f : Fragment) : Grows (pushInitial t f) := by
  unfold pushInitial
  split
  · exact Fragment.grows_onMethod _ _ _
  · exact .pure _

theorem grows_storeInitial (f : Fragment) (slot : FieldType × Nat) :
    Grows (storeInitial f slot) :=
  .bind (Fragment.grows_pushInt _ _) fun _ => .bind (grows_pushInitial _ _) fun _ => .pure _

theorem grows_allocation (storage : MemberRef) (l : StorageLayout) :
    Grows (allocation storage l) :=
  .bind (Fragment.grows_pushInt _ _) fun _ =>
    .bind (Fragment.grows_anewarray _ _) fun _ =>
      .bind (Fragment.grows_onField _ _ _) fun _ =>
        .bind (.foldlM grows_storeInitial _ _) fun _ => .pure _

theorem grows_block (config : Config) (owner : String) (l : StorageLayout) :
    Grows (block config owner l) := by
  have hrest : Grows (do
      let storage : MemberRef := ⟨owner, config.storageName, config.storageDescriptor⟩
      let fill ← allocation storage l
      let check ← (Fragment.empty.aload 0).onField .getField storage
      let position := check.size
      let check := check.branch .ifNonNull
      let stop := Fragment.alignedSize (check.size + fill.size) 4
      let check ← Interning.ofExcept (check.patch position stop)
      return (Fragment.fillTo stop ⟨check.code ++ fill.code⟩).code) :=
    .bind (grows_allocation _ l) fun _ =>
      .bind (Fragment.grows_onField _ _ _) fun _ => .bind (.ofExcept _) fun _ => .pure _
  exact .ite (.bind (.throw _) fun _ => hrest) hrest

/-! ## §2 One method -/

theorem isConstructor_grown {p q : Pool} (hgrowth : Pool.Growth p q) {m : Method} {b : Bool}
    (h : m.isConstructor p = .ok b) : m.isConstructor q = .ok b := by
  obtain ⟨name, hname, h⟩ := except_bind_eq_ok.mp h
  exact except_bind_eq_ok.mpr ⟨name, hgrowth.utf8 hname, h⟩

theorem body?_grown {p q : Pool} (hgrowth : Pool.Growth p q) {m : Method} {b : Option Body}
    (h : m.body? p = .ok b) : m.body? q = .ok b := by
  obtain ⟨found, hfound, h⟩ := except_bind_eq_ok.mp h
  exact except_bind_eq_ok.mpr ⟨found, Attribute.find?_grown hgrowth hfound, h⟩

/-- The method is no constructor, or one without a body. -/
def Skipped (p : Pool) (m : Method) : Prop :=
  m.isConstructor p = .ok false ∨ m.isConstructor p = .ok true ∧ m.body? p = .ok none

/-- The method's body got the block behind its constructor call, while the pool grew from `p`
to `q`.  The insertion knows the locals at the start of the method, and those behind the call if
frames are recorded. -/
def Inserted (s : Setting) (p q : Pool) (m m' : Method) : Prop :=
  ∃ (body : Body) (ins : Insertion) (entry : List VerificationType) (p₁ : Pool) (edit : Edit),
    m.body? p = .ok (some body) ∧
    ConstructorCall.find? p body.code = .ok (some ins.position) ∧
    ins.block = s.block ∧
    Pool.Growth p p₁ ∧
    ins.run entry ⟨body, p₁⟩ = .ok () edit ∧
    m.setBody edit.body edit.pool = .ok m' q ∧
    ∃ (descriptor : String) (type : MethodType),
      m.descriptorIn p = .ok descriptor ∧ MethodType.ofDescriptor? descriptor = .ok type ∧
      FrameState.entryLocals s.thisClass false true type p = .ok entry p₁ ∧
      ins.join = if s.recordsFrames then some (entry.map (initialized s.thisClass)) else none

/-- A constructor with code, unlike one that is declared only. -/
def hasConstructorCode (pool : Pool) (m : Method) : Bool :=
  match m.isConstructor pool, Attribute.find? pool Attribute.codeName m.attributes with
  | .ok true, .ok (some _) => true
  | _, _ => false

theorem find?_of_body? {p q : Pool} (hgrowth : Pool.Growth p q) {m : Method} {b : Option Body}
    (h : m.body? p = .ok b) : ∃ found, b.isSome = found.isSome ∧
      Attribute.find? q Attribute.codeName m.attributes = .ok found := by
  obtain ⟨found, hfound, h⟩ := except_bind_eq_ok.mp h
  refine ⟨found, ?_, Attribute.find?_grown hgrowth hfound⟩
  cases found with
  | none =>
      cases except_pure_eq_ok.mp h
      rfl
  | some a =>
      obtain ⟨body, -, h⟩ := except_bind_eq_ok.mp h
      cases except_pure_eq_ok.mp h
      rfl

theorem Skipped.hasConstructorCode {p q : Pool} {m : Method} (hgrowth : Pool.Growth p q)
    (h : Skipped p m) : hasConstructorCode q m = false := by
  unfold Prologue.hasConstructorCode
  rcases h with hno | ⟨-, hnone⟩
  · rw [isConstructor_grown hgrowth hno]
  · obtain ⟨found, hsome, hfound⟩ := find?_of_body? hgrowth hnone
    cases found with
    | none =>
        rw [hfound]
        split <;> simp_all
    | some a => cases hsome

theorem Inserted.hasConstructorCode {s : Setting} {p q r : Pool} {m m' : Method}
    (hgrowth : Pool.Growth p r) (hconstructor : m.isConstructor p = .ok true)
    (h : Inserted s p q m m') : hasConstructorCode r m = true := by
  obtain ⟨body, ins, entry, p₁, edit, hbody, -⟩ := h
  obtain ⟨found, hsome, hfound⟩ := find?_of_body? hgrowth hbody
  unfold Prologue.hasConstructorCode
  rw [isConstructor_grown hgrowth hconstructor, hfound]
  cases found with
  | none => cases hsome
  | some a => rfl

theorem growth_setBody {b : Body} {m m' : Method} {p q : Pool} (h : m.setBody b p = .ok m' q) :
    Pool.Growth p q := by
  obtain ⟨payload, p₁, hpayload, h⟩ := state_bind_eq_ok.mp h
  obtain ⟨-, rfl⟩ := ofExcept_eq_ok.mp hpayload
  obtain ⟨attributes, p₂, hset, h⟩ := state_bind_eq_ok.mp h
  obtain ⟨-, rfl⟩ := state_pure_eq_ok.mp h
  exact (Attribute.grows_set _ _ _).growth hset

theorem Inserted.growth {s : Setting} {p q : Pool} {m m' : Method} (h : Inserted s p q m m') :
    Pool.Growth p q := by
  obtain ⟨body, ins, entry, p₁, edit, -, -, -, hp₁, hrun, hset, -⟩ := h
  exact (hp₁.trans (Insertion.run_ok hrun).2.2).trans (growth_setBody hset)

theorem instrumentMethod_ok {s : Setting} {m : Method} {p q : Pool} {result : Option Method}
    (h : instrumentMethod s m p = .ok result q) :
    match result with
    | none => Skipped p m ∧ p = q
    | some m' => m.isConstructor p = .ok true ∧ Inserted s p q m m' := by
  obtain ⟨isConstructor, p₁, hread, h⟩ := state_bind_eq_ok.mp h
  obtain ⟨hconstructor, rfl⟩ := reading_eq_ok.mp hread
  clear hread
  cases isConstructor with
  | false =>
      obtain ⟨rfl, rfl⟩ := state_pure_eq_ok.mp h
      exact ⟨.inl hconstructor, rfl⟩
  | true =>
      obtain ⟨body?, p₁, hread, h⟩ := state_bind_eq_ok.mp h
      obtain ⟨hbody, rfl⟩ := reading_eq_ok.mp hread
      cases body? with
      | none =>
          obtain ⟨rfl, rfl⟩ := state_pure_eq_ok.mp h
          exact ⟨.inr ⟨hconstructor, hbody⟩, rfl⟩
      | some body =>
          obtain ⟨descriptor, p₁, hlooked, h⟩ := state_bind_eq_ok.mp h
          obtain ⟨hdescriptor, rfl⟩ := reading_eq_ok.mp hlooked
          obtain ⟨type, p₁, hparsed, h⟩ := state_bind_eq_ok.mp h
          obtain ⟨htype, rfl⟩ := ofFormat_eq_ok.mp hparsed
          obtain ⟨found, p₁, hread', h⟩ := state_bind_eq_ok.mp h
          obtain ⟨hfound, rfl⟩ := reading_eq_ok.mp hread'
          cases found with
          | none => exact (state_throw_eq_ok.mp h).elim
          | some position =>
              obtain ⟨entry, p₁, hentry, h⟩ := state_bind_eq_ok.mp h
              obtain ⟨newBody, p₂, hinsert, h⟩ := state_bind_eq_ok.mp h
              obtain ⟨m', p₃, hset, h⟩ := state_bind_eq_ok.mp h
              obtain ⟨rfl, rfl⟩ := state_pure_eq_ok.mp h
              simp only [instrumentMethod.insertInto] at hinsert
              split at hinsert <;> try cases hinsert
              next edit hrun =>
                exact ⟨hconstructor, body, _, entry, p₁, edit, hbody, hfound, rfl,
                  (FrameState.grows_entryLocals _ _ _ _).growth hentry, hrun, hset, descriptor,
                  type, hdescriptor, mapError_eq_ok.mp htype, hentry, rfl⟩

/-! ## §3 All methods -/

/-- What became of one method while the pool grew from `p` to `q` in all. -/
inductive Treated (s : Setting) (p q : Pool) (m : Method) : Method → Prop
  | skipped {p₁ : Pool} (before : Pool.Growth p p₁) (after : Pool.Growth p₁ q)
      (skipped : Skipped p₁ m) : Treated s p q m m
  | inserted {p₁ p₂ : Pool} {m' : Method} (before : Pool.Growth p p₁)
      (after : Pool.Growth p₂ q) (isConstructor : m.isConstructor p₁ = .ok true)
      (inserted : Inserted s p₁ p₂ m m') : Treated s p q m m'

theorem Treated.earlier {s : Setting} {p₀ p q : Pool} {m m' : Method}
    (hp : Pool.Growth p₀ p) (h : Treated s p q m m') : Treated s p₀ q m m' := by
  cases h with
  | skipped before after skipped => exact .skipped (hp.trans before) after skipped
  | inserted before after isConstructor inserted =>
      exact .inserted (hp.trans before) after isConstructor inserted

theorem instrumentMethods_ok {s : Setting} {methods : List Method} :
    ∀ {done result : List Method} {count n : Nat} {p q : Pool},
      instrumentMethods s done count methods p = .ok (result, n) q →
      Pool.Growth p q ∧ n = count + methods.countP (hasConstructorCode q) ∧
        ∃ changed, result = done.reverse ++ changed ∧
          List.Forall₂ (Treated s p q) methods changed := by
  induction methods with
  | nil =>
      intro done result count n p q h
      obtain ⟨hresult, rfl⟩ := state_pure_eq_ok.mp h
      cases hresult
      exact ⟨.refl, rfl, [], (List.append_nil _).symm, .nil⟩
  | cons m methods ih =>
      intro done result count n p q h
      obtain ⟨made, p₁, hmade, h⟩ := state_bind_eq_ok.mp h
      have hspec := instrumentMethod_ok hmade
      cases made with
      | none =>
          obtain ⟨hskipped, rfl⟩ := hspec
          obtain ⟨hgrowth, hcount, changed, rfl, hchanged⟩ := ih h
          refine ⟨hgrowth, ?_, m :: changed, by simp, ?_⟩
          · rwa [List.countP_cons_of_neg (by simp [hskipped.hasConstructorCode hgrowth])]
          exact .cons (.skipped .refl hgrowth hskipped) hchanged
      | some m' =>
          obtain ⟨hconstructor, hinserted⟩ := hspec
          obtain ⟨hgrowth, hcount, changed, rfl, hchanged⟩ := ih h
          have hmore := hinserted.growth.trans hgrowth
          refine ⟨hmore, ?_, m' :: changed, by simp, ?_⟩
          · rw [List.countP_cons_of_pos (hinserted.hasConstructorCode hmore hconstructor), hcount,
              Nat.add_assoc, Nat.add_comm 1]
          refine .cons (.inserted .refl hgrowth hconstructor hinserted) ?_
          exact hchanged.imp fun _ _ => Treated.earlier hinserted.growth

/-- **The result of instrumenting.**  One block serves all constructors; it is made before any
method is looked at.  What is counted are the constructors with code. -/
theorem instrument_ok {config : Config} {records : List AddedField} {c c' : ClassFile} {n : Nat}
    (hrecords : records ≠ []) (h : instrument config records c = .ok (c', n)) :
    ∃ (owner : String) (layout : StorageLayout) (s : Setting) (p : Pool),
      c.name = .ok owner ∧
      StorageLayout.ofRecords? owner records = .ok layout ∧
      block config owner layout c.pool = .ok s.block p ∧
      Pool.Growth p c'.pool ∧
      List.Forall₂ (Treated s p c'.pool) c.methods c'.methods ∧
      c' = { c with pool := c'.pool, methods := c'.methods } ∧
      (s.thisClass = c.thisClass ∧ s.recordsFrames = c.requiresStackMap) ∧
      n = c.methods.countP (hasConstructorCode c'.pool) := by
  unfold instrument at h
  rw [if_neg (by simpa using hrecords)] at h
  obtain ⟨owner, howner, h⟩ := except_bind_eq_ok.mp h
  obtain ⟨layout, hlayout, h⟩ := except_bind_eq_ok.mp h
  rw [mapError_eq_ok] at howner hlayout
  dsimp only at h
  split at h <;> try cases h
  next methods count pool haction =>
    obtain ⟨made, p, hblock, hmethods⟩ := state_bind_eq_ok.mp haction
    obtain ⟨hgrowth, hcount, changed, rfl, hchanged⟩ := instrumentMethods_ok hmethods
    rw [Nat.zero_add] at hcount
    exact ⟨owner, layout, ⟨owner, c.thisClass, c.requiresStackMap, made⟩, p, howner, hlayout,
      hblock, hgrowth, hchanged, rfl, ⟨rfl, rfl⟩, hcount⟩

/-- Only methods change and the pool grows. -/
theorem instrument_keeps {config : Config} {records : List AddedField} {c c' : ClassFile}
    {n : Nat} (h : instrument config records c = .ok (c', n)) :
    Pool.Growth c.pool c'.pool ∧ c' = { c with pool := c'.pool, methods := c'.methods } := by
  by_cases hrecords : records = []
  · subst hrecords
    cases h
    exact ⟨.refl, rfl⟩
  · obtain ⟨owner, layout, s, p, -, -, hblock, hgrowth, -, hc, -⟩ := instrument_ok hrecords h
    exact ⟨((grows_block config owner layout).growth hblock).trans hgrowth, hc⟩

end Prologue

end Reshape
