import Reshape.Proofs.Attribute.Annotations
import Reshape.Proofs.Pool.Slots

/-!
# Annotations in another pool

Annotations that were read in one pool can be encoded into any other one.  What is encoded there is
read as the same annotations, at once and at any later time: further constants only make the pool
grow, and a pool that grows keeps what its indices denote.
-/

namespace Reshape

namespace AnnotationUse

variable {annotations : List AnnotationUse} {payload : Bytes} {p q : Pool}

/-- **Annotations move between pools unchanged.**  A pool into which annotations were encoded starts
with all that was there before, and is as regular as it was.  The annotations are read from their
payload in this pool and in whatever becomes of it, so they are those that were read elsewhere, if
that is where they came from. -/
theorem readAll_moved (hsize : p.size ≤ Pool.maxSlots)
    (h : encodeAll annotations p = .ok payload q) :
    p.slots.toList <+: q.slots.toList ∧ (p.Regular → q.Regular) ∧ q.size ≤ Pool.maxSlots ∧
      readAll q payload = .ok annotations ∧
      (∀ additions, readAll (q.after additions) payload = .ok annotations) ∧
      ∀ source bytes, readAll source bytes = .ok annotations →
        ∀ additions, readAll (q.after additions) payload = readAll source bytes := by
  have hp : p.Addressable := Nat.le_trans hsize (by decide)
  obtain ⟨hgrowth, hread⟩ := readAll_of_encodeAll hp h
  have hlater (additions : List Pool.Addition) :
      readAll (q.after additions) payload = .ok annotations :=
    readAll_grown (Pool.growth_after additions q) hread
  refine ⟨hgrowth.isPrefix, hgrowth.regular, hgrowth.size_le hsize, hread, hlater, ?_⟩
  intro source bytes hsource additions
  rw [hlater, hsource]

/-- An annotation within another one, in a row with a constant of an enumeration, a class and a
number that is none.  A text that was there before puts all indices off by one. -/
theorem readAll_moved_nested :
    let annotations : List AnnotationUse :=
      [⟨"LTagged;", [("values", .array [.enumConstant "LKind;" "PRIMARY", .classLiteral "V",
        .nested "LNested;" [("flag", .boolean 1)], .float 0x7fc00001])]⟩]
    ∃ bytes source payload q,
      encodeAll annotations ⟨#[.unused, .utf8 "before"]⟩ = .ok bytes source ∧
      encodeAll annotations .empty = .ok payload q ∧ payload ≠ bytes ∧
      ∀ additions, readAll (q.after additions) payload = readAll source bytes := by
  intro annotations
  have hsource : encodeAll annotations ⟨#[.unused, .utf8 "before"]⟩ =
      .ok [0, 1, 0, 2, 0, 1, 0, 3, 91, 0, 4, 101, 0, 4, 0, 5, 99, 0, 6, 64, 0, 7, 0, 1, 0, 8,
          90, 0, 9, 70, 0, 10]
        ⟨#[.unused, .utf8 "before", .utf8 "LTagged;", .utf8 "values", .utf8 "LKind;",
          .utf8 "PRIMARY", .utf8 "V", .utf8 "LNested;", .utf8 "flag", .integer 1,
          .float 0x7fc00001]⟩ := by cbv
  have htarget : encodeAll annotations .empty =
      .ok [0, 1, 0, 1, 0, 1, 0, 2, 91, 0, 4, 101, 0, 3, 0, 4, 99, 0, 5, 64, 0, 6, 0, 1, 0, 7,
          90, 0, 8, 70, 0, 9]
        ⟨#[.unused, .utf8 "LTagged;", .utf8 "values", .utf8 "LKind;", .utf8 "PRIMARY",
          .utf8 "V", .utf8 "LNested;", .utf8 "flag", .integer 1, .float 0x7fc00001]⟩ := by cbv
  obtain ⟨-, -, -, hread, -⟩ := readAll_moved (by decide) hsource
  obtain ⟨-, -, -, -, -, hmoved⟩ := readAll_moved (by decide) htarget
  exact ⟨_, _, _, _, hsource, htarget, by decide, hmoved _ _ hread⟩

end AnnotationUse

end Reshape
