import Mathlib.Data.List.Infix
import PackIndex.Proofs.Text.Pieces

/-!
# Replacing a piece of text by a mark

Replacing reads a text once, from the front. Where the piece stands it is taken over as the mark and
reading goes on behind it; any other character is kept. So a piece without the mark does not occur in
the result: it could only stand between two marks, where every place has been looked at.
-/

namespace PackIndex.Text

variable {old new piece cs : List Char} {mark c : Char}

theorem replaceFrom_eq_drop (old new : List Char) (skip : Nat) (cs : List Char) :
    replaceFrom old new skip cs = replaceFrom old new 0 (cs.drop skip) := by
  induction cs generalizing skip with
  | nil => rw [List.drop_nil, replaceFrom, replaceFrom]
  | cons c rest ih =>
    cases skip with
    | zero => rfl
    | succ skip => rw [replaceFrom, List.drop_succ_cons, ih]

theorem replaceFrom_append (hne : old ≠ []) (new rest : List Char) :
    replaceFrom old new 0 (old ++ rest) = new ++ replaceFrom old new 0 rest := by
  obtain ⟨c, more, rfl⟩ := List.exists_cons_of_ne_nil hne
  have hprefix : (c :: more).isPrefixOf (c :: (more ++ rest)) = true :=
    List.isPrefixOf_iff_prefix.mpr (List.prefix_append (c :: more) rest)
  rw [List.cons_append, replaceFrom, if_pos hprefix, replaceFrom_eq_drop, List.length_cons,
    Nat.add_sub_cancel, List.drop_left]

theorem replaceFrom_cons (new : List Char) {rest : List Char} (h : ¬ old <+: c :: rest) :
    replaceFrom old new 0 (c :: rest) = c :: replaceFrom old new 0 rest := by
  rw [replaceFrom, if_neg (mt List.isPrefixOf_iff_prefix.mp h)]

theorem replaceFrom_front (new : List Char) {front rest : List Char}
    (h : ∀ c more, c :: more <:+ front → ¬ old <+: c :: (more ++ rest)) :
    replaceFrom old new 0 (front ++ rest) = front ++ replaceFrom old new 0 rest := by
  induction front with
  | nil => rfl
  | cons c more ih =>
    rw [List.cons_append, replaceFrom_cons new (h c more List.suffix_rfl),
      ih fun d tail hd => h d tail (hd.trans (List.suffix_cons c more)), List.cons_append]

/-- A text is read as replacing reads it: piece by piece where `old` stands, and character by
character elsewhere. -/
theorem scan_induction {motive : List Char → Prop} (hne : old ≠ []) (nil : motive [])
    (occurrence : ∀ rest, motive rest → motive (old ++ rest))
    (other : ∀ c rest, ¬ old <+: c :: rest → motive rest → motive (c :: rest))
    (cs : List Char) : motive cs := by
  induction hlength : cs.length using Nat.strongRecOn generalizing cs with
  | ind n ih =>
    cases cs with
    | nil => exact nil
    | cons c rest =>
      by_cases h : old <+: c :: rest
      · obtain ⟨behind, hbehind⟩ := h
        have hpos := List.length_pos_of_ne_nil hne
        have hshort : behind.length < n := by
          rw [← hlength, ← hbehind, List.length_append]
          omega
        exact hbehind ▸ occurrence behind (ih _ hshort behind rfl)
      · exact other c rest h (ih _ (by rw [← hlength]; exact Nat.lt_succ_self _) rest rfl)

theorem replaceFrom_of_not_infix (new : List Char) (h : ¬ old <:+: cs) :
    replaceFrom old new 0 cs = cs := by
  induction cs with
  | nil => rw [replaceFrom]
  | cons c rest ih =>
    rw [List.infix_cons_iff, not_or] at h
    rw [replaceFrom_cons new h.1, ih h.2]

/-- What stands in front of a text from which pieces were taken stood there before. -/
theorem prefix_of_prefix_replaceFrom (hne : old ≠ []) (hmark : mark ∉ piece)
    (h : piece <+: replaceFrom old [mark] 0 cs) : piece <+: cs := by
  induction cs using scan_induction hne generalizing piece with
  | nil => rwa [replaceFrom] at h
  | occurrence rest =>
    rw [replaceFrom_append hne, List.singleton_append, List.prefix_cons_iff] at h
    rcases h with rfl | ⟨t, rfl, -⟩
    · exact List.nil_prefix
    · exact absurd List.mem_cons_self hmark
  | other c rest hnot ih =>
    rw [replaceFrom_cons _ hnot, List.prefix_cons_iff] at h
    rcases h with rfl | ⟨t, rfl, ht⟩
    · exact List.nil_prefix
    · exact (List.prefix_cons_inj c).mpr (ih (fun ht => hmark (List.mem_cons_of_mem c ht)) ht)

/-- Replacing a piece by a mark that it does not hold leaves no occurrence of it. -/
theorem not_infix_replaceFrom (hne : old ≠ []) (hmark : mark ∉ old) (cs : List Char) :
    ¬ old <:+: replaceFrom old [mark] 0 cs := by
  induction cs using scan_induction hne with
  | nil => rwa [replaceFrom, List.infix_nil]
  | occurrence rest ih =>
    rw [replaceFrom_append hne, List.singleton_append, List.infix_cons_iff, not_or]
    refine ⟨fun hfront => ?_, ih⟩
    rcases List.prefix_cons_iff.mp hfront with rfl | ⟨t, rfl, -⟩
    · exact hne rfl
    · exact hmark List.mem_cons_self
  | other c rest hnot ih =>
    have hcons := replaceFrom_cons [mark] hnot
    rw [hcons, List.infix_cons_iff, not_or]
    exact ⟨fun hfront => hnot (prefix_of_prefix_replaceFrom hne hmark (hcons ▸ hfront)), ih⟩

/-- In a text without the mark, writing the piece for every mark undoes the replacing. -/
theorem replaceFrom_replaceFrom (hne : old ≠ []) (hmark : mark ∉ cs) :
    replaceFrom [mark] old 0 (replaceFrom old [mark] 0 cs) = cs := by
  have hne' : [mark] ≠ [] := List.cons_ne_nil _ _
  induction cs using scan_induction hne with
  | nil => rw [replaceFrom, replaceFrom]
  | occurrence rest ih =>
    rw [replaceFrom_append hne, replaceFrom_append hne',
      ih fun hrest => hmark (List.mem_append_right _ hrest)]
  | other c rest hnot ih =>
    rw [List.mem_cons, not_or] at hmark
    have hfirst : ¬ [mark] <+: c :: replaceFrom old [mark] 0 rest :=
      fun hprefix => hmark.1 (List.cons_prefix_cons.mp hprefix).1
    rw [replaceFrom_cons _ hnot, replaceFrom_cons _ hfirst, ih hmark.2]

/-- A piece that does not begin with the mark is replaced without a change only where it does not
occur. -/
theorem replaceFrom_eq_self_iff (hne : old ≠ []) (hmark : old.head? ≠ some mark) :
    replaceFrom old [mark] 0 cs = cs ↔ ¬ old <:+: cs := by
  refine ⟨fun h => ?_, replaceFrom_of_not_infix [mark]⟩
  induction cs using scan_induction hne with
  | nil => rwa [List.infix_nil]
  | occurrence rest =>
    rw [replaceFrom_append hne, List.singleton_append] at h
    have hhead := congrArg List.head? h
    rw [List.head?_append_of_ne_nil _ hne, List.head?_cons] at hhead
    exact absurd hhead.symm hmark
  | other c rest hnot ih =>
    rw [replaceFrom_cons _ hnot, List.cons.injEq] at h
    rw [List.infix_cons_iff, not_or]
    exact ⟨hnot, ih h.2⟩

end PackIndex.Text
