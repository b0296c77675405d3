import Mathlib.Data.List.DropRight
import PackIndex.Text.Blank

/-!
# Trimming

A trimmed text does not begin or end in a character of the class. What stands around it is of the
class, so trimming by a smaller class first makes no difference.
-/

namespace PackIndex.Text

variable {p q : Char → Bool} {c : Char} {before middle after : List Char}

theorem dropEndWhile_eq (p : Char → Bool) (cs : List Char) :
    dropEndWhile p cs = cs.rdropWhile p := rfl

theorem dropEndWhile_append (h : ∀ c ∈ after, p c = true) (cs : List Char) :
    dropEndWhile p (cs ++ after) = dropEndWhile p cs := by
  rw [dropEndWhile, List.reverse_append, List.dropWhile_append_of_pos (by simpa using h),
    dropEndWhile]

theorem dropEndWhile_append_cons (h : p c = false) (before after : List Char) :
    dropEndWhile p (before ++ c :: after) = before ++ c :: dropEndWhile p after := by
  induction after using List.reverseRecOn with
  | nil =>
    rw [dropEndWhile_eq, List.rdropWhile_concat_neg _ _ _ (by simp [h])]
    rfl
  | append_singleton after last ih =>
    rw [← List.cons_append, ← List.append_assoc]
    by_cases hlast : p last = true
    · rw [dropEndWhile_eq, dropEndWhile_eq, List.rdropWhile_concat_pos _ _ _ hlast,
        List.rdropWhile_concat_pos _ _ _ hlast]
      exact ih
    · rw [dropEndWhile_eq, dropEndWhile_eq, List.rdropWhile_concat_neg _ _ _ hlast,
        List.rdropWhile_concat_neg _ _ _ hlast, List.append_assoc, List.cons_append]

theorem trimChars_append (hbefore : ∀ c ∈ before, p c = true) (hafter : ∀ c ∈ after, p c = true)
    (middle : List Char) : trimChars p (before ++ middle ++ after) = trimChars p middle := by
  rw [trimChars, List.append_assoc, List.dropWhile_append_of_pos hbefore, List.dropWhile_append]
  split
  · next hempty =>
    rw [List.dropWhile_eq_nil_iff.mpr hafter, trimChars, List.isEmpty_iff.mp hempty]
  · rw [dropEndWhile_append hafter, trimChars]

theorem exists_around_trimChars (p : Char → Bool) (cs : List Char) :
    ∃ before after, (∀ c ∈ before, p c = true) ∧ (∀ c ∈ after, p c = true) ∧
      cs = before ++ trimChars p cs ++ after := by
  refine ⟨cs.takeWhile p, (cs.dropWhile p).rtakeWhile p, fun c hc => List.mem_takeWhile_imp hc,
    fun c hc => List.mem_rtakeWhile_imp hc, ?_⟩
  rw [trimChars, dropEndWhile_eq, List.append_assoc, List.rdropWhile_append_rtakeWhile,
    List.takeWhile_append_dropWhile]

theorem trimChars_trimChars (h : ∀ c, q c = true → p c = true) (cs : List Char) :
    trimChars p (trimChars q cs) = trimChars p cs := by
  obtain ⟨before, after, hbefore, hafter, hcs⟩ := exists_around_trimChars q cs
  conv_rhs => rw [hcs]
  exact (trimChars_append (fun c hc => h c (hbefore c hc)) (fun c hc => h c (hafter c hc)) _).symm

theorem trim_trim (h : ∀ c, q c = true → p c = true) (s : String) :
    trim p (trim q s) = trim p s := by
  rw [trim, trim, String.toList_ofList, trimChars_trimChars h, trim]

theorem isBlank_of_isWhiteSpace (h : isWhiteSpace c = true) : isBlank c = true := by
  rw [isBlank, h, Bool.true_or]

theorem head_dropWhile {cs : List Char} (h : (cs.dropWhile p).head? = some c) : p c = false := by
  have hnot := List.head?_dropWhile_not p cs
  rw [h] at hnot
  exact hnot

theorem head_trimChars {cs : List Char} (h : (trimChars p cs).head? = some c) : p c = false := by
  obtain ⟨rest, hrest⟩ := List.rdropWhile_prefix p (cs.dropWhile p)
  have hdropped : (cs.dropWhile p).head? = some c := by
    rw [← hrest, List.head?_append]
    exact Option.or_eq_some_iff.mpr (Or.inl h)
  exact head_dropWhile hdropped

theorem last_trimChars {cs : List Char} (h : (trimChars p cs).getLast? = some c) :
    p c = false := by
  rw [trimChars, dropEndWhile, List.getLast?_reverse] at h
  exact head_dropWhile h

end PackIndex.Text
