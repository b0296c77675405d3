import Mathlib.Data.List.Basic
import PackIndex.Path.Basic

/-!
# What occurs in a path

A piece without the separator occurs in a separated text exactly if it occurs in one of the parts.
So a marker, a name followed by `!`, shows in the address of an archive member exactly if the
archive's file name ends in the name, or the marker occurs in a component of the archive's path, or
behind it.
-/

namespace PackIndex.Text

theorem occurs_iff (piece cs : List Char) : occurs piece cs = true ↔ piece <:+: cs := by
  induction cs with
  | nil => rw [occurs, List.isEmpty_iff, List.infix_nil]
  | cons c cs ih =>
    rw [occurs, Bool.or_eq_true, List.isPrefixOf_iff_prefix, ih, List.infix_cons_iff]

theorem contains_iff (s piece : String) : contains s piece = true ↔ piece.toList <:+: s.toList :=
  occurs_iff _ _

theorem endsWith_iff (s ending : String) :
    endsWith s ending = true ↔ ending.toList <:+ s.toList := List.isSuffixOf_iff_suffix

section Separator

variable {α : Type} {sep mark : α} {piece name : List α}

theorem prefix_append_cons_iff (h : sep ∉ piece) (a b : List α) :
    piece <+: a ++ sep :: b ↔ piece <+: a := by
  refine ⟨fun hp => ?_, fun hp => hp.trans (List.prefix_append _ _)⟩
  induction a generalizing piece with
  | nil =>
    rcases List.prefix_cons_iff.mp hp with rfl | ⟨t, rfl, -⟩
    · exact List.prefix_rfl
    · exact absurd List.mem_cons_self h
  | cons x a ih =>
    rcases List.prefix_cons_iff.mp hp with rfl | ⟨t, rfl, ht⟩
    · exact List.nil_prefix
    · exact (List.prefix_cons_inj x).mpr (ih (fun hs => h (List.mem_cons_of_mem _ hs)) ht)

theorem infix_append_cons_iff (h : sep ∉ piece) (a b : List α) :
    piece <:+: a ++ sep :: b ↔ piece <:+: a ∨ piece <:+: b := by
  induction a with
  | nil =>
    rw [List.nil_append, List.infix_cons_iff, List.infix_nil]
    refine or_congr_left ?_
    rw [← List.prefix_nil, ← prefix_append_cons_iff h [] b, List.nil_append]
  | cons x a ih =>
    rw [List.cons_append, List.infix_cons_iff, ih, ← List.cons_append, prefix_append_cons_iff h,
      ← or_assoc, ← List.infix_cons_iff]

theorem marked_infix_concat_iff (mark : α) (name part : List α) :
    name ++ [mark] <:+: part ++ [mark] ↔ name <:+ part ∨ name ++ [mark] <:+: part := by
  rw [List.infix_concat_iff]
  refine or_congr_left ⟨fun hs => ?_, fun hs => ?_⟩
  · obtain ⟨t, ht, hsuffix⟩ := (List.suffix_concat_iff.mp hs).resolve_left (by simp)
    rwa [List.append_cancel_right ht]
  · exact List.suffix_concat_iff.mpr (Or.inr ⟨name, rfl, hs⟩)

/-- Where a marked name occurs in a text of parts, the last of which is marked. -/
theorem marked_infix_intercalate_iff (h : sep ∉ name) (hmark : mark ≠ sep) (parts : List (List α))
    (tail : List α) : name ++ [mark] <:+: [sep].intercalate parts ++ mark :: sep :: tail ↔
      name <:+ parts.getLast?.getD [] ∨ (∃ part ∈ parts, name ++ [mark] <:+: part) ∨
        name ++ [mark] <:+: tail := by
  have hpiece : sep ∉ name ++ [mark] := by simp [h, hmark.symm]
  induction parts with
  | nil =>
    have hone := infix_append_cons_iff hpiece [mark] tail
    have hnil := marked_infix_concat_iff mark name []
    simp only [List.nil_append] at hone hnil
    simpa [hnil] using hone
  | cons part parts ih =>
    cases parts with
    | nil =>
      have hone := infix_append_cons_iff hpiece (part ++ [mark]) tail
      rw [marked_infix_concat_iff] at hone
      simpa [or_assoc] using hone
    | cons next parts =>
      rw [List.intercalate_cons_cons, List.append_assoc, List.append_assoc, List.singleton_append,
        infix_append_cons_iff hpiece, List.getLast?_cons_cons, List.exists_mem_cons_iff]
      refine (or_congr_right ih).trans ?_
      rw [or_assoc, or_left_comm]

end Separator

end PackIndex.Text
