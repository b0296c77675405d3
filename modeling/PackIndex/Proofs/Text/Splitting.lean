import Mathlib.Data.List.Basic
import PackIndex.Text.Pieces

/-!
# Splitting and joining

The pieces of a text hold its characters and no separator, and joining them again gives the text;
pieces without the separator are what their join is split into.
-/

namespace PackIndex.Text

variable {sep c : Char} {cs before after piece : List Char}

theorem splitChars_ne_nil (sep : Char) (cs : List Char) : splitChars sep cs ≠ [] := by
  cases cs with
  | nil => simp [splitChars]
  | cons c rest =>
    unfold splitChars
    split
    · simp
    · split <;> simp

theorem splitChars_cons_of_ne (h : c ≠ sep) (cs : List Char) :
    ∃ piece pieces, splitChars sep cs = piece :: pieces ∧
      splitChars sep (c :: cs) = (c :: piece) :: pieces := by
  obtain ⟨piece, pieces, hcs⟩ := List.exists_cons_of_ne_nil (splitChars_ne_nil sep cs)
  exact ⟨piece, pieces, hcs, by simp [splitChars, h, hcs]⟩

theorem splitChars_of_notMem (h : sep ∉ cs) : splitChars sep cs = [cs] := by
  induction cs with
  | nil => rfl
  | cons c rest ih =>
    simp only [List.mem_cons, not_or] at h
    rw [splitChars, if_neg (Ne.symm h.1), ih h.2]

theorem splitChars_append_cons (h : sep ∉ before) (after : List Char) :
    splitChars sep (before ++ sep :: after) = before :: splitChars sep after := by
  induction before with
  | nil => simp [splitChars]
  | cons c rest ih =>
    simp only [List.mem_cons, not_or] at h
    rw [List.cons_append, splitChars, if_neg (Ne.symm h.1), ih h.2]

theorem splitChars_intercalate {pieces : List (List Char)} (hne : pieces ≠ [])
    (h : ∀ piece ∈ pieces, sep ∉ piece) : splitChars sep ([sep].intercalate pieces) = pieces := by
  induction pieces with
  | nil => exact absurd rfl hne
  | cons piece rest ih =>
    obtain ⟨hpiece, hrest⟩ := List.forall_mem_cons.mp h
    cases rest with
    | nil => rw [List.intercalate_singleton, splitChars_of_notMem hpiece]
    | cons next rest =>
      rw [List.intercalate_cons_cons, List.append_assoc, List.singleton_append,
        splitChars_append_cons hpiece, ih (List.cons_ne_nil _ _) hrest]

theorem mem_intercalate {pieces : List (List Char)} (h : c ∈ [sep].intercalate pieces) :
    c = sep ∨ ∃ piece ∈ pieces, c ∈ piece := by
  induction pieces with
  | nil => cases h
  | cons piece rest ih =>
    cases rest with
    | nil =>
      rw [List.intercalate_singleton] at h
      exact Or.inr ⟨piece, List.mem_cons_self, h⟩
    | cons next rest =>
      rw [List.intercalate_cons_cons, List.append_assoc, List.mem_append, List.singleton_append,
        List.mem_cons] at h
      rcases h with h | h | h
      · exact Or.inr ⟨piece, List.mem_cons_self, h⟩
      · exact Or.inl h
      · exact (ih h).imp_right fun ⟨other, hmem, hc⟩ => ⟨other, List.mem_cons_of_mem _ hmem, hc⟩

theorem getLast?_suffix_intercalate {α : Type} (sep : α) (parts : List (List α)) :
    parts.getLast?.getD [] <:+ [sep].intercalate parts := by
  induction parts with
  | nil => exact List.suffix_rfl
  | cons part parts ih =>
    cases parts with
    | nil =>
      rw [List.intercalate_singleton]
      exact List.suffix_rfl
    | cons next parts =>
      rw [List.intercalate_cons_cons, List.getLast?_cons_cons]
      exact ih.trans (List.suffix_append _ _)

theorem mem_of_mem_splitChars (hp : piece ∈ splitChars sep cs) (hc : c ∈ piece) :
    c ∈ cs ∧ c ≠ sep := by
  induction cs generalizing piece with
  | nil =>
    obtain rfl := List.mem_singleton.mp hp
    cases hc
  | cons d rest ih =>
    by_cases hd : d = sep
    · rw [splitChars, if_pos hd] at hp
      rcases List.mem_cons.mp hp with rfl | hp
      · cases hc
      · exact (ih hp hc).imp_left (List.mem_cons_of_mem _)
    · obtain ⟨first, pieces, hrest, hcons⟩ := splitChars_cons_of_ne hd rest
      rw [hcons] at hp
      rw [hrest] at ih
      rcases List.mem_cons.mp hp with rfl | hp
      · rcases List.mem_cons.mp hc with rfl | hc
        · exact ⟨List.mem_cons_self, hd⟩
        · exact (ih List.mem_cons_self hc).imp_left (List.mem_cons_of_mem _)
      · exact (ih (List.mem_cons_of_mem _ hp) hc).imp_left (List.mem_cons_of_mem _)

theorem mem_splitChars_of_mem (hc : c ∈ cs) (hsep : c ≠ sep) :
    ∃ piece ∈ splitChars sep cs, c ∈ piece := by
  induction cs with
  | nil => cases hc
  | cons d rest ih =>
    by_cases hd : d = sep
    · rcases List.mem_cons.mp hc with rfl | hc
      · exact absurd hd hsep
      · obtain ⟨piece, hp, hmem⟩ := ih hc
        rw [splitChars, if_pos hd]
        exact ⟨piece, List.mem_cons_of_mem _ hp, hmem⟩
    · obtain ⟨first, pieces, hrest, hcons⟩ := splitChars_cons_of_ne hd rest
      rw [hcons]
      rcases List.mem_cons.mp hc with rfl | hc
      · exact ⟨c :: first, List.mem_cons_self, List.mem_cons_self⟩
      · obtain ⟨piece, hp, hmem⟩ := ih hc
        rw [hrest] at hp
        rcases List.mem_cons.mp hp with rfl | hp
        · exact ⟨d :: piece, List.mem_cons_self, List.mem_cons_of_mem _ hmem⟩
        · exact ⟨piece, List.mem_cons_of_mem _ hp, hmem⟩

theorem cut?_eq_none_iff : cut? sep cs = none ↔ sep ∉ cs := by
  induction cs with
  | nil => simp [cut?]
  | cons c rest ih =>
    by_cases hc : c = sep
    · simp [cut?, hc]
    · simp [cut?, hc, ih, Ne.symm hc]

theorem cut?_eq_some_iff :
    cut? sep cs = some (before, after) ↔ cs = before ++ sep :: after ∧ sep ∉ before := by
  induction cs generalizing before with
  | nil => simp [cut?]
  | cons c rest ih =>
    by_cases hc : c = sep
    · subst hc
      cases before with
      | nil => simp [cut?, eq_comm]
      | cons d before =>
        simp only [cut?, if_true, Option.some.injEq, Prod.mk.injEq, List.cons_append, List.cons.injEq]
        grind
    · cases before with
      | nil => simp [cut?, hc]
      | cons d before =>
        simp only [cut?, if_neg hc, Option.map_eq_some_iff, Prod.exists, Prod.mk.injEq,
          List.cons.injEq, List.cons_append, List.mem_cons, not_or]
        grind

end PackIndex.Text
