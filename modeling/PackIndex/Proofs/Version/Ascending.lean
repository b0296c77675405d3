import PackIndex.Proofs.Version.Selection
import PackIndex.Proofs.Version.Selector

/-!
# Versions in ascending order

`ascending` sorts: the same versions, each less than the next when no two are equal. So the newest
of several things has the last version and the oldest the first, and asking for a positive version
succeeds exactly if it is among them.
-/

namespace PackIndex

theorem Binary64.eq_of_same {x y : Binary64} (hx : x.isPositive = true) (h : x.same y = true) :
    x = y := by
  obtain ⟨i, hxi, hyi⟩ := same_iff.mp h
  obtain ⟨z, j, hz, hxj, hlt⟩ := lt_iff.mp hx
  obtain rfl : i = j := Option.some.inj (hxi.symm.trans hxj)
  obtain rfl : z = 0 := (Option.some.inj hz).symm
  cases x with
  | nan => cases hxi
  | signed negative rank hrank =>
    cases y with
    | nan => cases hyi
    | signed negative' rank' hrank' =>
      simp only [place?, Option.some.injEq] at hxi hyi
      obtain rfl : negative = false := by
        cases negative with
        | false => rfl
        | true => simp only [if_true] at hxi; omega
      obtain rfl : negative' = false := by
        cases negative' with
        | false => rfl
        | true => simp only [if_true] at hyi; omega
      obtain rfl : rank = rank' := by
        simp only [Bool.false_eq_true, if_false] at hxi hyi
        omega
      rfl

namespace Selection

variable {α : Type} {version : α → Version} {things : List α} {v : Version}

/-! ### Sorting -/

theorem insertDescending_perm (v : Version) (sorted : List Version) :
    (insertDescending v sorted).Perm (v :: sorted) := by
  induction sorted with
  | nil => exact List.Perm.refl _
  | cons w rest ih =>
    rw [insertDescending]
    by_cases hvw : v.lt w = true
    · rw [if_pos hvw]
      exact (ih.cons w).trans (List.Perm.swap v w rest)
    · rw [if_neg hvw]

/-- Versions that are numbers, each greater than the next. -/
def Descending (sorted : List Version) : Prop :=
  (∀ v ∈ sorted, v.isNaN = false) ∧ sorted.Pairwise fun v w => w.lt v = true

theorem Descending.insertDescending {sorted : List Version} (h : Descending sorted)
    (hv : v.isNaN = false) (hnew : ∀ w ∈ sorted, w.same v = false) :
    Descending (insertDescending v sorted) := by
  have hmem (w : Version) : w ∈ Selection.insertDescending v sorted ↔ w = v ∨ w ∈ sorted := by
    rw [(insertDescending_perm v sorted).mem_iff, List.mem_cons]
  refine ⟨fun w hw => ?_, ?_⟩
  · rcases (hmem w).mp hw with rfl | hw
    · exact hv
    · exact h.1 w hw
  · induction sorted with
    | nil => exact List.pairwise_singleton _ _
    | cons w rest ih =>
      obtain ⟨hnumbers, hsorted⟩ := h
      obtain ⟨hw, hrest⟩ := List.pairwise_cons.mp hsorted
      have hnumbers' : ∀ x ∈ rest, x.isNaN = false :=
        fun x hx => hnumbers x (List.mem_cons_of_mem _ hx)
      rw [Selection.insertDescending]
      by_cases hvw : v.lt w = true
      · rw [if_pos hvw]
        refine List.pairwise_cons.mpr ⟨fun x hx => ?_, ?_⟩
        · rcases List.mem_cons.mp ((insertDescending_perm v rest).mem_iff.mp hx) with rfl | hx
          · exact hvw
          · exact hw x hx
        · refine ih ⟨hnumbers', hrest⟩ (fun x hx => hnew x (List.mem_cons_of_mem _ hx)) fun x => ?_
          rw [(insertDescending_perm v rest).mem_iff, List.mem_cons]
      · rw [if_neg hvw]
        have hwv : w.lt v = true := by
          by_contra hwv
          have hsame := Binary64.same_of_not_lt (hnumbers w List.mem_cons_self) hv
            (Bool.eq_false_iff.mpr hwv) (Bool.eq_false_iff.mpr hvw)
          rw [hnew w List.mem_cons_self] at hsame
          cases hsame
        refine List.pairwise_cons.mpr ⟨fun x hx => ?_, hsorted⟩
        rcases List.mem_cons.mp hx with rfl | hx
        · exact hwv
        · exact Binary64.lt_trans (hw x hx) hwv

theorem foldl_insertDescending_perm (versions sorted : List Version) :
    (versions.foldl (fun sorted v => insertDescending v sorted) sorted).Perm
      (versions ++ sorted) := by
  induction versions generalizing sorted with
  | nil => exact List.Perm.refl _
  | cons v rest ih =>
    rw [List.foldl_cons]
    have hinsert : (rest ++ insertDescending v sorted).Perm (rest ++ v :: sorted) :=
      (insertDescending_perm v sorted).append_left rest
    exact (ih _).trans (hinsert.trans List.perm_middle)

theorem ascending_perm (versions : List Version) : (ascending versions).Perm versions := by
  have hfold := foldl_insertDescending_perm versions []
  rw [List.append_nil] at hfold
  exact (List.reverse_perm _).trans hfold

theorem foldl_insertDescending {versions sorted : List Version} (h : Descending sorted)
    (hn : ∀ v ∈ versions, v.isNaN = false)
    (hd : versions.Pairwise fun v w => v.same w = false)
    (hnew : ∀ v ∈ versions, ∀ w ∈ sorted, w.same v = false) :
    Descending (versions.foldl (fun sorted v => insertDescending v sorted) sorted) := by
  induction versions generalizing sorted with
  | nil => exact h
  | cons v rest ih =>
    obtain ⟨hv, hrest⟩ := List.pairwise_cons.mp hd
    rw [List.foldl_cons]
    refine ih (h.insertDescending (hn v List.mem_cons_self) (hnew v List.mem_cons_self))
      (fun w hw => hn w (List.mem_cons_of_mem _ hw)) hrest ?_
    intro w hw x hx
    rcases List.mem_cons.mp ((insertDescending_perm v sorted).mem_iff.mp hx) with rfl | hx
    · exact hv w hw
    · exact hnew w (List.mem_cons_of_mem _ hw) x hx

theorem ascending_pairwise {versions : List Version} (hn : ∀ v ∈ versions, v.isNaN = false)
    (hd : versions.Pairwise fun v w => v.same w = false) :
    (ascending versions).Pairwise fun v w => v.lt w = true := by
  have hempty : Descending [] := ⟨nofun, List.Pairwise.nil⟩
  have hsorted := foldl_insertDescending hempty hn hd fun v _ w hw => absurd hw List.not_mem_nil
  exact List.pairwise_reverse.mpr hsorted.2

/-! ### Things by their versions -/

def versionsOf (version : α → Version) (things : List α) : List Version :=
  ascending (things.map version)

theorem mem_versionsOf : v ∈ versionsOf version things ↔ ∃ x ∈ things, version x = v := by
  rw [versionsOf, (ascending_perm _).mem_iff, List.mem_map]

theorem forall_mem_versionsOf {P : Version → Prop} :
    (∀ v ∈ versionsOf version things, P v) ↔ ∀ x ∈ things, P (version x) := by
  simp only [mem_versionsOf, forall_exists_index, and_imp, forall_apply_eq_imp_iff₂]

theorem length_versionsOf (version : α → Version) (things : List α) :
    (versionsOf version things).length = things.length := by
  rw [versionsOf, (ascending_perm _).length_eq, List.length_map]

theorem versionsOf_eq_nil_iff : versionsOf version things = [] ↔ newest? version things = none := by
  have hnewest := newest?_isSome version things
  rw [← List.length_eq_zero_iff, length_versionsOf, List.length_eq_zero_iff,
    ← Option.not_isSome_iff_eq_none, hnewest, not_not]

section Comparable

variable (h : Comparable version things)
include h

theorem versionsOf_pairwise :
    (versionsOf version things).Pairwise fun v w => v.lt w = true := by
  apply ascending_pairwise
  · intro v hv
    obtain ⟨x, hx, rfl⟩ := List.mem_map.mp hv
    exact h.numbers x hx
  · exact List.pairwise_map.mpr h.differ

theorem newest?_version :
    (newest? version things).map version = (versionsOf version things).getLast? := by
  have hsorted := versionsOf_pairwise h
  cases hlast : (versionsOf version things).getLast? with
  | none =>
    have hnil : things = [] := by
      rw [List.getLast?_eq_none_iff, ← List.length_eq_zero_iff, length_versionsOf] at hlast
      exact List.length_eq_zero_iff.mp hlast
    rw [hnil]
    rfl
  | some last =>
    obtain ⟨before, hbefore⟩ := List.getLast?_eq_some_iff.mp hlast
    obtain ⟨x, hx, rfl⟩ := mem_versionsOf.mp (List.mem_of_getLast? hlast)
    rw [hbefore, List.pairwise_append] at hsorted
    have hnewest : newest? version things = some x := by
      refine (newest?_eq_some_iff h x).mpr ⟨hx, fun y hy => ?_⟩
      have hy : version y ∈ versionsOf version things := mem_versionsOf.mpr ⟨y, hy, rfl⟩
      rw [hbefore, List.mem_append, List.mem_singleton] at hy
      rcases hy with hy | hy
      · exact Binary64.lt_asymm (hsorted.2.2 _ hy _ (List.mem_singleton_self _))
      · rw [hy, Binary64.lt_irrefl]
    rw [hnewest]
    rfl

theorem oldest?_version :
    (oldest? version things).map version = (versionsOf version things).head? := by
  have hsorted := versionsOf_pairwise h
  cases hversions : versionsOf version things with
  | nil =>
    have hnil : things = [] := by
      rw [← List.length_eq_zero_iff, length_versionsOf] at hversions
      exact List.length_eq_zero_iff.mp hversions
    rw [hnil]
    rfl
  | cons first rest =>
    have hmem : first ∈ versionsOf version things := hversions ▸ List.mem_cons_self
    obtain ⟨x, hx, rfl⟩ := mem_versionsOf.mp hmem
    rw [hversions, List.pairwise_cons] at hsorted
    have holdest : oldest? version things = some x := by
      refine (oldest?_eq_some_iff h x).mpr ⟨hx, fun y hy => ?_⟩
      have hy : version y ∈ versionsOf version things := mem_versionsOf.mpr ⟨y, hy, rfl⟩
      rw [hversions] at hy
      rcases List.mem_cons.mp hy with hy | hy
      · rw [hy, Binary64.lt_irrefl]
      · exact Binary64.lt_asymm (hsorted.1 _ hy)
    rw [holdest]
    rfl

theorem find?_of_mem (hv : v ∈ versionsOf version things) :
    ∃ x ∈ things, version x = v ∧ find? version v things = some x := by
  obtain ⟨x, hx, rfl⟩ := mem_versionsOf.mp hv
  have hself := (Binary64.same_self_iff _).mpr (h.numbers x hx)
  exact ⟨x, hx, rfl, (find?_eq_some_iff h.differ _ _).mpr ⟨hx, hself⟩⟩

theorem find?_of_not_mem (hpos : v.isPositive = true) (hv : v ∉ versionsOf version things) :
    find? version v things = none := by
  rw [Option.eq_none_iff_forall_ne_some]
  intro x hx
  obtain ⟨hmem, hsame⟩ := (find?_eq_some_iff h.differ _ _).mp hx
  have heq : v = version x := Binary64.eq_of_same hpos (Binary64.same_symm hsame)
  exact hv (mem_versionsOf.mpr ⟨x, hmem, heq.symm⟩)

/-- Things, if there are any, have a newest and an oldest one, of the last and the first version. -/
theorem exists_ends (hne : versionsOf version things ≠ []) :
    ∃ newest oldest, newest? version things = some newest ∧ oldest? version things = some oldest ∧
      (versionsOf version things).getLast? = some (version newest) ∧
      (versionsOf version things).head? = some (version oldest) := by
  have hlast := newest?_version h
  have hhead := oldest?_version h
  have hthings : things ≠ [] := fun hnil => hne (by rw [hnil]; rfl)
  obtain ⟨newest, hnewest⟩ := Option.isSome_iff_exists.mp ((newest?_isSome version _).mpr hthings)
  obtain ⟨oldest, holdest⟩ := Option.isSome_iff_exists.mp ((oldest?_isSome version _).mpr hthings)
  rw [hnewest] at hlast
  rw [holdest] at hhead
  exact ⟨newest, oldest, hnewest, holdest, hlast.symm, hhead.symm⟩

theorem pick?_of_mem (hv : v ∈ versionsOf version things) (strict : Bool) :
    ∃ x ∈ things, version x = v ∧ (∀ y ∈ things, version y = v → y = x) ∧
      pick? version strict things (.exactly v) = some x := by
  obtain ⟨x, hx, hversion, hfind⟩ := find?_of_mem h hv
  refine ⟨x, hx, hversion, fun y hy hsame => ?_, by rw [pick?, hfind]⟩
  apply eq_of_same h.differ hy hx
  rw [hsame, ← hversion]
  exact (Binary64.same_self_iff _).mpr (h.numbers x hx)

/-- A positive version that is not there picks the newest thing, or nothing if the request is
strict. -/
theorem pick?_of_not_mem (hpos : v.isPositive = true) (hv : v ∉ versionsOf version things)
    (strict : Bool) : pick? version strict things (.exactly v) =
      if strict then none else newest? version things := by
  rw [pick?, find?_of_not_mem h hpos hv]

end Comparable

end Selection

end PackIndex
