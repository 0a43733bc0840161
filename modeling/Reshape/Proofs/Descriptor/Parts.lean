import Reshape.Proofs.Descriptor.Grammar

/-!
# The parts of a method descriptor

A method descriptor is cut at its last closing parenthesis.  Class names may have parentheses, so the
last one need not be the one that closes the parameters: it is not if the result is made of a class
with such a name.  The cut then goes through the name.
-/

namespace Reshape

section Cut

variable {text : String} {front rest : List Char}

/-- What stands in front of a closing parenthesis does not matter for what stands behind the last
one. -/
theorem takeWhile_reverse_behind :
    (front ++ ')' :: rest).reverse.takeWhile (· ≠ ')') = rest.reverse.takeWhile (· ≠ ')') := by
  rw [List.reverse_append, List.reverse_cons, List.append_assoc, List.singleton_append]
  by_cases hrest : ')' ∈ rest.reverse
  · obtain ⟨behind, between, hsplit, hbehind⟩ := List.eq_append_cons_of_mem hrest
    rw [hsplit, List.append_assoc, List.cons_append, takeWhile_front hbehind,
      takeWhile_front hbehind]
  · rw [takeWhile_front hrest, List.takeWhile_eq_self_iff.mpr]
    exact fun c hc => decide_eq_true fun heq => hrest (heq ▸ hc)

/-- The last part of a text is that of what stands behind any of its closing parentheses. -/
theorem afterArguments_behind (h : text.toList = front ++ ')' :: rest) :
    afterArguments text = afterArguments (String.ofList rest) := by
  rw [afterArguments, afterArguments, h, takeWhile_reverse_behind, String.toList_ofList]

/-- A text has no closing parenthesis in its last part, so it is its own last part only if it has
none at all. -/
theorem afterArguments_eq_self_iff : afterArguments text = text ↔ ')' ∉ text.toList := by
  rw [← String.toList_inj, afterArguments, String.toList_ofList, List.reverse_eq_iff,
    List.takeWhile_eq_self_iff]
  simp only [List.mem_reverse, decide_eq_true_eq]
  exact ⟨fun h hmem => h ')' hmem rfl, fun h c hc heq => h (heq ▸ hc)⟩

/-- The two parts of a text that has a closing parenthesis make up the text. -/
theorem argumentsOf_append_afterArguments (h : ')' ∈ text.toList) :
    argumentsOf text ++ afterArguments text = text := by
  obtain ⟨behind, front, hsplit, hbehind⟩ :=
    List.eq_append_cons_of_mem (List.mem_reverse.mpr h)
  rw [← String.toList_inj, String.toList_append, argumentsOf, afterArguments, hsplit,
    dropWhile_front hbehind, takeWhile_front hbehind, String.toList_ofList, String.toList_ofList,
    ← List.reverse_append, ← hsplit, List.reverse_reverse]

end Cut

namespace MethodType

/-- The descriptors of the parameters in parentheses. -/
def argumentDescriptor (m : MethodType) : String :=
  String.ofList ('(' :: (m.parameters.flatMap FieldType.letters ++ [')']))

/-- **Where a method descriptor is cut.**  The two parts make up the descriptor, and the last part is
that of the result's descriptor, if this has parts itself.  So they are the parameters in parentheses
and the result exactly if the result has no closing parenthesis in it. -/
theorem parts_agree_iff {text : String} {m : MethodType}
    (h : MethodType.ofDescriptor? text = .ok m) :
    argumentsOf text ++ afterArguments text = text ∧
      afterArguments text = afterArguments m.resultDescriptor ∧
      (afterArguments text = m.resultDescriptor ↔ ')' ∉ m.resultDescriptor.toList) ∧
      (argumentsOf text = m.argumentDescriptor ↔ ')' ∉ m.resultDescriptor.toList) := by
  obtain ⟨-, rfl⟩ := ofDescriptor?_eq_ok.mp h
  have hletters : m.descriptor.toList =
      ('(' :: m.parameters.flatMap FieldType.letters) ++ ')' :: m.resultDescriptor.toList := by
    rw [toList_descriptor, toList_resultDescriptor, List.cons_append]
  have hmem : ')' ∈ m.descriptor.toList :=
    hletters ▸ List.mem_append_right _ List.mem_cons_self
  have hparts := argumentsOf_append_afterArguments hmem
  have hlast : afterArguments m.descriptor = afterArguments m.resultDescriptor := by
    rw [afterArguments_behind hletters, String.ofList_toList]
  have hresult : afterArguments m.descriptor = m.resultDescriptor ↔
      ')' ∉ m.resultDescriptor.toList := by
    rw [hlast, afterArguments_eq_self_iff]
  refine ⟨hparts, hlast, hresult, ?_⟩
  -- The first part is right if and only if the last one is, since both make up the descriptor.
  rw [← hresult]
  have hwhole : argumentsOf m.descriptor ++ afterArguments m.descriptor =
      m.argumentDescriptor ++ m.resultDescriptor := hparts
  rw [← String.toList_inj, String.toList_append, String.toList_append] at hwhole
  constructor
  · intro hfirst
    rw [hfirst] at hwhole
    exact String.toList_inj.mp (List.append_cancel_left hwhole)
  · intro hbehind
    rw [hbehind] at hwhole
    exact String.toList_inj.mp (List.append_cancel_right hwhole)

/-- A method without parameters whose result is of a class with a parenthesis in its name. -/
theorem parts_agree_iff_parenthesis :
    MethodType.ofDescriptor? "()La)b;" = .ok ⟨[], some (.object "a)b")⟩ ∧
      afterArguments "()La)b;" = "b;" ∧ argumentsOf "()La)b;" = "()La)" ∧
      afterArguments "()La)b;" ≠ (MethodType.mk [] (some (.object "a)b"))).resultDescriptor ∧
      argumentsOf "()La)b;" ≠ (MethodType.mk [] (some (.object "a)b"))).argumentDescriptor := by
  have hread : MethodType.ofDescriptor? "()La)b;" = .ok ⟨[], some (.object "a)b")⟩ := by cbv
  obtain ⟨-, -, hresult, harguments⟩ := parts_agree_iff hread
  have hmem : ¬ ')' ∉ (MethodType.mk [] (some (.object "a)b"))).resultDescriptor.toList := by decide
  exact ⟨hread, by cbv, by cbv, fun h => hmem (hresult.mp h), fun h => hmem (harguments.mp h)⟩

end MethodType

end Reshape
