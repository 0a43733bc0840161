import Mathlib.Data.List.TakeWhile
import Mathlib.Data.String.Basic

/-!
# Texts in parts

A text is split at a character as its row of characters is.  What stands in front of a sign is found
by its first place.
-/

namespace Reshape

open String

/-! ## §1 Splitting -/

/-- The part in front of the position is `l`, the part since then is `m`, and `r` is left. -/
theorem splitOnAux_eq (c : Char) (r : List Char) : ∀ (l m : List Char) (acc : List String),
    splitOnAux (ofList (l ++ m ++ r)) (ofList [c]) ⟨utf8Len l⟩ ⟨utf8Len l + utf8Len m⟩ 0 acc =
      acc.reverse ++ (List.splitOnPPrepend (· == c) r m.reverse).map ofList := by
  induction r with
  | nil =>
      intro l m acc
      have hend : Pos.Raw.atEnd (ofList (l ++ m ++ [])) ⟨utf8Len l + utf8Len m⟩ = true := by
        rw [← utf8Len_append]
        exact (atEnd_of_valid (l ++ m) []).mpr rfl
      rw [splitOnAux, if_pos hend, extract_of_valid l m []]
      simp
  | cons d r ih =>
      intro l m acc
      have hend : ¬ Pos.Raw.atEnd (ofList (l ++ m ++ d :: r)) ⟨utf8Len l + utf8Len m⟩ = true := by
        rw [← utf8Len_append, atEnd_of_valid (l ++ m) (d :: r)]
        exact List.cons_ne_nil d r
      have hget : Pos.Raw.get (ofList (l ++ m ++ d :: r)) ⟨utf8Len l + utf8Len m⟩ = d := by
        rw [← utf8Len_append, get_of_valid (l ++ m) (d :: r)]
        rfl
      have hnext : Pos.Raw.next (ofList (l ++ m ++ d :: r)) ⟨utf8Len l + utf8Len m⟩ =
          ⟨utf8Len l + utf8Len m + d.utf8Size⟩ := by
        rw [← utf8Len_append, next_of_valid (l ++ m) d r]
      have hsign : Pos.Raw.get (ofList [c]) 0 = c := get_of_valid [] [c]
      rw [splitOnAux, if_neg hend, hget, hsign, hnext]
      by_cases hd : d = c
      · subst hd
        have hpart : Pos.Raw.extract (ofList (l ++ m ++ d :: r)) ⟨utf8Len l⟩
            ⟨utf8Len l + utf8Len m⟩ = ofList m := extract_of_valid l m (d :: r)
        have hmatched : Pos.Raw.next (ofList [d]) 0 = ⟨d.utf8Size⟩ := by
          simpa using next_of_valid [] d []
        have hback : Pos.Raw.unoffsetBy ⟨utf8Len l + utf8Len m + d.utf8Size⟩ ⟨d.utf8Size⟩ =
            ⟨utf8Len l + utf8Len m⟩ :=
          Pos.Raw.ext (Nat.add_sub_cancel _ _)
        have hover : Pos.Raw.atEnd (ofList [d]) ⟨d.utf8Size⟩ = true := by
          simpa using atEnd_of_valid [d] []
        have hnew := ih (l ++ m ++ [d]) [] (ofList m :: acc)
        rw [if_pos (beq_self_eq_true d)]
        dsimp only
        rw [hmatched, if_pos hover, hback, hpart]
        simpa [List.splitOnPPrepend_cons_eq_if, Nat.add_assoc] using hnew
      · have hstay : Pos.Raw.unoffsetBy ⟨utf8Len l + utf8Len m⟩ 0 = ⟨utf8Len l + utf8Len m⟩ :=
          Pos.Raw.ext (Nat.sub_zero _)
        have hnew := ih l (m ++ [d]) acc
        rw [if_neg (by simpa using hd), hstay, hnext]
        simpa [List.splitOnPPrepend_cons_eq_if, hd, Nat.add_assoc] using hnew

/-- **Splitting a text at a character.** -/
theorem splitOn_char (s : String) (c : Char) :
    s.splitOn (ofList [c]) = (s.toList.splitOn c).map ofList := by
  have hsign : (ofList [c] == "") = false := by
    simp
  unfold String.splitOn
  rw [hsign]
  simpa [List.splitOn] using splitOnAux_eq c s.toList [] [] []

/-! ## §2 In front of a sign -/

section Front

variable {sign : Char} {front rest cs : List Char}

theorem takeWhile_front (h : sign ∉ front) :
    (front ++ sign :: rest).takeWhile (· ≠ sign) = front := by
  have hfront : ∀ c ∈ front, decide (c ≠ sign) = true := fun c hc =>
    decide_eq_true fun heq => h (heq ▸ hc)
  rw [List.takeWhile_append_of_pos hfront, List.takeWhile_cons_of_neg (by simp), List.append_nil]

theorem dropWhile_front (h : sign ∉ front) :
    (front ++ sign :: rest).dropWhile (· ≠ sign) = sign :: rest := by
  have hfront : ∀ c ∈ front, decide (c ≠ sign) = true := fun c hc =>
    decide_eq_true fun heq => h (heq ▸ hc)
  rw [List.dropWhile_append_of_pos hfront, List.dropWhile_cons_of_neg (by simp)]

/-- If something is left from the first sign on, then the sign itself and what stands behind it. -/
theorem cut_of_dropWhile {c : Char} (h : cs.dropWhile (· ≠ sign) = c :: rest) :
    sign ∉ cs.takeWhile (· ≠ sign) ∧ cs = cs.takeWhile (· ≠ sign) ++ sign :: rest := by
  have hsign : c = sign := by
    have hhead := List.head?_dropWhile_not (fun c => decide (c ≠ sign)) cs
    rw [h] at hhead
    simpa using hhead
  subst hsign
  refine ⟨fun hmem => ?_, ?_⟩
  · simpa using List.mem_takeWhile_imp hmem
  · rw [← h, List.takeWhile_append_dropWhile]

end Front

end Reshape
