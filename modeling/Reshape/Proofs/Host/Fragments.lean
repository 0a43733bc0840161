import Reshape.Proofs.Code.Edit
import Reshape.Proofs.Host.Instructions

/-!
# What fragments do

A fragment is made by appending one instruction after the other.  `Appends` says what the bytes
that were appended do once the code stands in a class whose pool has grown from the one in which
its constants were interned, and how many bytes they are at most.
-/

namespace Reshape.Host

/-! ## §1 Appended code -/

/-- The second fragment is the first with at most `n` bytes behind it, which do this. -/
def Appends (pool : Pool) (storage : MemberRef) (f g : Fragment) (n : Nat) (stack : List Operand)
    (o : Object) (stack' : List Operand) (o' : Object) : Prop :=
  ∃ bytes, g.code.toList = f.code.toList ++ bytes ∧ bytes.length ≤ n ∧
    Does pool storage bytes stack o stack' o'

namespace Appends

variable {pool p q : Pool} {storage : MemberRef} {f g h : Fragment} {m n : Nat}
  {s s' s'' : List Operand} {o o' o'' : Object} {opcode : Opcode}

theorem refl : Appends pool storage f f 0 s o s o :=
  ⟨[], (List.append_nil _).symm, Nat.le_refl 0, .nil⟩

theorem trans (hfg : Appends pool storage f g m s o s' o')
    (hgh : Appends pool storage g h n s' o' s'' o'') :
    Appends pool storage f h (m + n) s o s'' o'' := by
  obtain ⟨bs, hg, hbs, hdoes⟩ := hfg
  obtain ⟨cs, hh, hcs, hdoes'⟩ := hgh
  refine ⟨bs ++ cs, by rw [hh, hg, List.append_assoc], ?_, hdoes.append hdoes'⟩
  rw [List.length_append]
  exact Nat.add_le_add hbs hcs

theorem mono (hfg : Appends pool storage f g m s o s' o') (hmn : m ≤ n) :
    Appends pool storage f g n s o s' o' := by
  obtain ⟨bs, hg, hbs, hdoes⟩ := hfg
  exact ⟨bs, hg, Nat.le_trans hbs hmn, hdoes⟩

/-! ## §2 Single instructions -/

/-- One more instruction that does this, and is no branch. -/
theorem of_adds (h : Adds f g n fun code i => i.opcode ≠ .ifNonNull ∧
      act pool storage code i s o = some (s', o')) :
    Appends pool storage f g n s o s' o' := by
  obtain ⟨bytes, hbytes, hle, hsingle⟩ := h
  refine ⟨bytes, hbytes, hle, fun code offset stop last holds fits => ?_⟩
  obtain ⟨i, hdecode, hlength, straight, hact⟩ := hsingle code offset holds
  obtain ⟨rfl, hpos, -⟩ := Instruction.decode_bounds hdecode
  rw [← hlength] at fits ⊢
  have hbefore : i.offset ≠ stop := by omega
  exact executes_iff_of_step hbefore (step?_of_act hdecode straight hact)

theorem op (sized : opcode.size? = some 1) (straight : opcode ≠ .ifNonNull)
    (acts : ∀ code offset, act pool storage code ⟨offset, opcode, 1⟩ s o = some (s', o')) :
    Appends pool storage f (f.op opcode) 1 s o s' o' :=
  of_adds (.op sized fun code offset => ⟨straight, acts code offset⟩)

theorem op16 (sized : opcode.size? = some 3) (straight : opcode ≠ .ifNonNull) {operand : UInt16}
    (acts : ∀ code offset, Code.u16At code (offset + 1) = .ok operand →
      act pool storage code ⟨offset, opcode, 3⟩ s o = some (s', o')) :
    Appends pool storage f (f.op16 opcode operand) 3 s o s' o' :=
  of_adds (.op16 sized fun code offset hoperand => ⟨straight, acts code offset hoperand⟩)

/-- **Every integer is pushed**, however it is encoded. -/
theorem pushInt {value : Int32} (hp : p.Addressable) (hpool : Pool.Growth q pool)
    (h : f.pushInt value p = .ok g q) :
    Appends pool storage f g 3 s o (.number (.integer value) :: s) o :=
  of_adds ((Adds.pushInt hp hpool h).imp fun _ _ hi => act_of_integer? hi s o)

end Appends

end Reshape.Host
