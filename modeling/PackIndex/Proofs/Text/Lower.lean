import PackIndex.Text.Lower

/-!
# Lower-casing

Every character has at least one lower-case character, so only the empty text becomes empty. The
lower-case characters of each run lie outside all runs, so lower-casing twice is lower-casing once.
-/

namespace PackIndex.Text

theorem lowerAt_ne_nil (before : List Char) (c : Char) (after : List Char) :
    lowerAt before c after ≠ [] := by
  unfold lowerAt
  split
  · split <;> simp
  · split <;> simp

theorem lowerFrom_eq_nil_iff (before cs : List Char) : lowerFrom before cs = [] ↔ cs = [] := by
  cases cs with
  | nil => simp [lowerFrom]
  | cons c rest => simp [lowerFrom, lowerAt_ne_nil]

theorem lower_eq_empty_iff (s : String) : lower s = "" ↔ s = "" := by
  rw [lower, ← String.toList_eq_nil_iff, String.toList_ofList, lowerFrom_eq_nil_iff,
    String.toList_eq_nil_iff]

/-! ### Characters that stay -/

abbrev LowerRun := Nat × Nat × Nat × Int

def InRun (n : Nat) : LowerRun → Prop
  | (first, last, step, _) => first ≤ n ∧ n ≤ last ∧ (n - first) % step = 0

instance (n : Nat) : (r : LowerRun) → Decidable (InRun n r)
  | (first, last, step, _) => inferInstanceAs
    (Decidable (first ≤ n ∧ n ≤ last ∧ (n - first) % step = 0))

/-- The characters that have lower-case ones, in runs; the dotted capital is a run of its own. -/
def liftedRuns : List LowerRun := (0x130, 0x130, 1, 0) :: lowerRuns

/-- Lower-casing leaves the character alone. -/
def Settled (c : Char) : Prop := ∀ r ∈ liftedRuns, ¬ InRun c.toNat r

instance (c : Char) : Decidable (Settled c) :=
  inferInstanceAs (Decidable (∀ r ∈ liftedRuns, ¬ InRun c.toNat r))

def hasParity : LowerRun → Bool
  | (first, last, step, _) => Nat.beq step 2 || Nat.beq first last

/-- Whether the lower-case characters of one run are not in another, because they lie before it,
behind it, or between its characters. -/
def runsApart : LowerRun → LowerRun → Bool
  | (first, last, step, distance), (first', last', step', distance') =>
    Nat.blt (last + distance : Int).toNat first' || Nat.blt last' (first + distance : Int).toNat ||
      hasParity (first, last, step, distance) && hasParity (first', last', step', distance') &&
        !Nat.beq ((first + distance : Int).toNat % 2) (first' % 2)

/-- A run steps by one or two, and its lower-case characters are characters. -/
def isSoundRun : LowerRun → Bool
  | (first, last, step, distance) =>
    (step == 1 || step == 2) && decide (0 ≤ (first + distance : Int)) &&
      (decide (last + distance < (0xD800 : Int)) ||
        decide ((0xDFFF : Int) < first + distance) && decide (last + distance < (0x110000 : Int)))

theorem lowerRuns_sound : lowerRuns.all isSoundRun = true := by decide +kernel

theorem lowerRuns_apart : (lowerRuns.all fun r => liftedRuns.all (runsApart r)) = true := by
  decide +kernel

/-- A character of a run has a lower-case character, and that one is in no run. -/
theorem settled_of_inRun {n : Nat} {first last step : Nat} {distance : Int}
    (hr : (first, last, step, distance) ∈ lowerRuns) (hn : InRun n (first, last, step, distance)) :
    Settled (Char.ofNat ((n : Int) + distance).toNat) := by
  have hsound := List.all_eq_true.mp lowerRuns_sound _ hr
  obtain ⟨hfirst, hlast, hstep⟩ : first ≤ n ∧ n ≤ last ∧ (n - first) % step = 0 := hn
  simp only [isSoundRun, Bool.and_eq_true, Bool.or_eq_true, beq_iff_eq, decide_eq_true_eq] at hsound
  obtain ⟨⟨hsteps, hnonneg⟩, hchar⟩ := hsound
  have hvalid : ((n : Int) + distance).toNat.isValidChar := by
    unfold Nat.isValidChar
    omega
  have hcode : (Char.ofNat ((n : Int) + distance).toNat).toNat = ((n : Int) + distance).toNat := by
    rw [Char.ofNat, dif_pos hvalid]
    rfl
  intro r' hr' hin
  obtain ⟨first', last', step', distance'⟩ := r'
  rw [hcode] at hin
  obtain ⟨hfirst', hlast', hstep'⟩ := hin
  have hapart := List.all_eq_true.mp (List.all_eq_true.mp lowerRuns_apart _ hr) _ hr'
  simp only [runsApart, hasParity, Bool.or_eq_true, Bool.and_eq_true,
    Bool.not_eq_true', Nat.blt_eq] at hapart
  rcases hapart with (hbefore | hbehind) | ⟨⟨hparity, hparity'⟩, hdiffer⟩
  · omega
  · omega
  · -- the lower-case characters are even where those of the other run are odd, or the reverse
    have hne : (first + distance : Int).toNat % 2 ≠ first' % 2 := fun he => by
      rw [he, Nat.beq_refl] at hdiffer
      cases hdiffer
    have hmod : (n - first) % 2 = 0 := by
      rcases hparity with htwo | hone
      · exact Nat.eq_of_beq_eq_true htwo ▸ hstep
      · have hone := Nat.eq_of_beq_eq_true hone
        omega
    have hmod' : (((n : Int) + distance).toNat - first') % 2 = 0 := by
      rcases hparity' with htwo | hone
      · exact Nat.eq_of_beq_eq_true htwo ▸ hstep'
      · have hone := Nat.eq_of_beq_eq_true hone
        omega
    omega

theorem first_le_of_mem_tail : ∀ r ∈ lowerRuns.tail, 0x80 ≤ r.1 := by decide +kernel

/-- A character is in a run, and the run tells its lower-case character, or it is its own. -/
theorem lowerChar_cases (c : Char) :
    (∃ first last step distance, (first, last, step, distance) ∈ lowerRuns ∧
      InRun c.toNat (first, last, step, distance) ∧
      lowerChar c = Char.ofNat ((c.toNat : Int) + distance).toNat) ∨
    (∀ r ∈ lowerRuns, ¬ InRun c.toNat r) ∧ lowerChar c = c := by
  unfold lowerChar
  by_cases hascii : c.toNat < 0x80
  · rw [if_pos hascii]
    by_cases hupper : 'A' ≤ c ∧ c ≤ 'Z'
    · rw [if_pos hupper]
      refine Or.inl ⟨0x41, 0x5A, 1, 32, List.mem_cons_self, ⟨hupper.1, hupper.2, Nat.mod_one _⟩, rfl⟩
    · rw [if_neg hupper]
      refine Or.inr ⟨?_, rfl⟩
      intro r hr hin
      have hr : r = (0x41, 0x5A, 1, 32) ∨ r ∈ lowerRuns.tail := List.mem_cons.mp hr
      rcases hr with rfl | hr
      · exact hupper ⟨hin.1, hin.2.1⟩
      · have hfirst := first_le_of_mem_tail r hr
        have hle : r.1 ≤ c.toNat := hin.1
        omega
  · rw [if_neg hascii]
    split
    · next first last step distance hfound =>
      have hin := List.find?_some hfound
      simp only [Bool.and_eq_true, decide_eq_true_eq, beq_iff_eq] at hin
      exact Or.inl ⟨first, last, step, distance, List.mem_of_find?_eq_some hfound,
        ⟨hin.1.1, hin.1.2, hin.2⟩, rfl⟩
    · next hfound =>
      refine Or.inr ⟨?_, rfl⟩
      intro r hr hin
      have hnot := List.find?_eq_none.mp hfound r hr
      obtain ⟨hfirst, hlast, hstep⟩ := hin
      simp [hfirst, hlast, hstep] at hnot

theorem settled_of_mem_lowerAt {before after : List Char} {c d : Char}
    (h : d ∈ lowerAt before c after) : Settled d := by
  unfold lowerAt at h
  by_cases hsigma : c = 'Σ'
  · rw [if_pos hsigma] at h
    split at h
    · obtain rfl := List.mem_singleton.mp h
      decide +kernel
    · obtain rfl := List.mem_singleton.mp h
      decide +kernel
  · rw [if_neg hsigma] at h
    by_cases hdotted : c = 'İ'
    · rw [if_pos hdotted] at h
      rcases List.mem_cons.mp h with rfl | h
      · decide +kernel
      · obtain rfl := List.mem_singleton.mp h
        decide +kernel
    · rw [if_neg hdotted, List.mem_singleton] at h
      subst h
      rcases lowerChar_cases c with ⟨first, last, step, distance, hr, hin, heq⟩ | ⟨hnone, heq⟩
      · rw [heq]
        exact settled_of_inRun hr hin
      · rw [heq]
        intro r hr
        rcases List.mem_cons.mp hr with rfl | hr
        · rintro ⟨hfirst, hlast, -⟩
          have hcode : c.toNat = 'İ'.toNat := Nat.le_antisymm hlast hfirst
          exact hdotted (Char.toNat_inj.mp hcode)
        · exact hnone r hr

theorem lowerAt_of_settled {c : Char} (h : Settled c) (before after : List Char) :
    lowerAt before c after = [c] := by
  have hsigma : c ≠ 'Σ' := by
    rintro rfl
    exact absurd h (by decide +kernel)
  have hdotted : c ≠ 'İ' := by
    rintro rfl
    exact absurd h (by decide +kernel)
  rw [lowerAt, if_neg hsigma, if_neg hdotted]
  rcases lowerChar_cases c with ⟨first, last, step, distance, hr, hin, -⟩ | ⟨-, heq⟩
  · exact absurd hin (h _ (List.mem_cons_of_mem _ hr))
  · rw [heq]

theorem settled_of_mem_lowerFrom {before cs : List Char} {d : Char}
    (h : d ∈ lowerFrom before cs) : Settled d := by
  induction cs generalizing before with
  | nil => cases h
  | cons c rest ih =>
    rw [lowerFrom, List.mem_append] at h
    rcases h with h | h
    · exact settled_of_mem_lowerAt h
    · exact ih h

theorem lowerFrom_of_settled {before cs : List Char} (h : ∀ c ∈ cs, Settled c) :
    lowerFrom before cs = cs := by
  induction cs generalizing before with
  | nil => rfl
  | cons c rest ih =>
    rw [lowerFrom, lowerAt_of_settled (h c List.mem_cons_self),
      ih fun d hd => h d (List.mem_cons_of_mem _ hd)]
    rfl

@[simp] theorem lower_lower (s : String) : lower (lower s) = lower s := by
  rw [lower, lower, String.toList_ofList,
    lowerFrom_of_settled fun _ hd => settled_of_mem_lowerFrom hd]

end PackIndex.Text
