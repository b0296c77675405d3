import Mathlib.Data.List.Induction
import Mathlib.Data.List.Perm.Subperm
import PackIndex.Proofs.Registry.Listing

/-!
# What a listing remembers

A table lists what it remembers for as long as it holds as many groups as it remembers items. Groups
only come until the table is cleared, and clearing forgets everything, so what is listed has one
item for each name. But a version that joins an old group goes unnoticed: what is listed is the
newest item of its name as of the last listing that was made anew.
-/

namespace PackIndex.ItemTable

variable {t u : ItemTable} {s : Submission} {steps : List TableStep}

/-! ### What a submission adds -/

theorem itemsOf_latest (t : ItemTable) (name : String) :
    t.latest.2.itemsOf name = t.itemsOf name :=
  itemsOf_of_groups (by rw [latest_snd_eq]) name

/-- The name of a submission is no alias, and its version is new. -/
def HasRoomFor (t : ItemTable) (s : Submission) : Prop :=
  t.aliasOwner? s.key = none ∧
    Selection.find? Item.version s.entry.version (t.itemsOf s.key) = none

/-- A submission adds its item to the groups if there is room for it, and otherwise leaves them
alone. -/
theorem WellFormed.groups_submit (h : t.WellFormed) (s : Submission) :
    t.HasRoomFor s ∧ (t.submit s).2.groups = (t.putGroup (t.grown s)).groups ∨
    ¬ t.HasRoomFor s ∧ (t.submit s).2.groups = t.groups := by
  cases ha : t.aliasOwner? s.key with
  | some other => exact Or.inr ⟨by simp [HasRoomFor, ha], by rw [submit_of_alias ha]⟩
  | none =>
    cases hv : Selection.find? Item.version s.entry.version (t.itemsOf s.key) with
    | some existing =>
      refine Or.inr ⟨by simp [HasRoomFor, hv], ?_⟩
      rw [submit_of_taken h.names_nodup ha hv]
      split <;> rfl
    | none =>
      refine Or.inl ⟨⟨ha, hv⟩, ?_⟩
      rw [submit_of_new ha hv]
      by_cases hallow : t.allowAliases = true
      · have hallow' : (t.putGroup (t.grown s)).allowAliases = true := by simpa using hallow
        obtain ⟨-, more, hmore⟩ := mapAliases_wellFormed (h.putGrown ha hv)
          (name_mem_putGrown t s) hallow' s.entry.aliases
        rw [if_pos hallow]
        split <;> next hu => rw [hu] at hmore; rw [hmore]
      · rw [if_neg hallow]

/-- The item of a submission joins its group, whether or not its aliases are refused afterwards. -/
def Joins (t : ItemTable) (s : Submission) : Prop :=
  (t.submit s).2.itemsOf s.key = t.itemsOf s.key ++ [s.item t.kind]

theorem itemsOf_of_put (h : u.groups = (t.putGroup (t.grown s)).groups) (name : String) :
    u.itemsOf name =
      if name = s.key then t.itemsOf s.key ++ [s.item t.kind] else t.itemsOf name :=
  (itemsOf_of_groups h name).trans (itemsOf_putGroup t (t.grown s) name)

theorem not_joins_of_same (h : (t.submit s).2.groups = t.groups) : ¬ t.Joins s := by
  intro hjoins
  rw [Joins, itemsOf_of_groups h] at hjoins
  simpa using congrArg List.length hjoins

theorem WellFormed.joins_iff (h : t.WellFormed) : t.Joins s ↔ t.HasRoomFor s := by
  rcases h.groups_submit s with ⟨hroom, hput⟩ | ⟨hfull, hsame⟩
  · exact iff_of_true ((itemsOf_of_put hput s.key).trans (if_pos rfl)) hroom
  · exact iff_of_false (not_joins_of_same hsame) hfull

/-- What stands under a name after a submission: what stood there, and the item that joined. -/
theorem WellFormed.mem_itemsOf_submit (h : t.WellFormed) {name : String} {i : Item} :
    i ∈ (t.submit s).2.itemsOf name ↔
      i ∈ t.itemsOf name ∨ t.Joins s ∧ s.key = name ∧ s.item t.kind = i := by
  rcases h.groups_submit s with ⟨hroom, hput⟩ | ⟨-, hsame⟩
  · have hjoins : t.Joins s := h.joins_iff.mpr hroom
    rw [itemsOf_of_put hput]
    by_cases hname : name = s.key
    · simp [hname, hjoins, eq_comm]
    · simp [hname, Ne.symm hname]
  · rw [itemsOf_of_groups hsame]
    simp [not_joins_of_same hsame]

theorem WellFormed.mem_itemsOf_after (h : t.WellFormed) {step : TableStep} (hstep : step ≠ .clear)
    {name : String} {i : Item} : i ∈ (t.after step).itemsOf name ↔ i ∈ t.itemsOf name ∨
      ∃ s, step = .submit s ∧ t.Joins s ∧ s.key = name ∧ s.item t.kind = i := by
  cases step with
  | submit s =>
    rw [ItemTable.after, h.mem_itemsOf_submit]
    simp
  | clear => exact absurd rfl hstep
  | latest =>
    rw [ItemTable.after, itemsOf_latest]
    simp

theorem concat_prefix_cons_iff {α : Type} {a b : α} {l m : List α} :
    l ++ [a] <+: b :: m ↔ l = [] ∧ b = a ∨ ∃ l', l = b :: l' ∧ l' ++ [a] <+: m := by
  cases l with
  | nil => simp [List.cons_prefix_cons, eq_comm]
  | cons c l => simp [List.cons_prefix_cons, and_assoc]

/-- Until a table is cleared it holds what it held, and what joined on the way. -/
theorem WellFormed.mem_itemsOf_run (h : t.WellFormed) (hclear : .clear ∉ steps) {name : String}
    {i : Item} : i ∈ (t.run steps).itemsOf name ↔ i ∈ t.itemsOf name ∨ ∃ middle s,
      middle ++ [.submit s] <+: steps ∧ (t.run middle).Joins s ∧ s.key = name ∧
      s.item t.kind = i := by
  induction steps generalizing t with
  | nil =>
    rw [ItemTable.run, List.foldl_nil]
    simp
  | cons step rest ih =>
    have hstep : step ≠ .clear := fun hstep => hclear (hstep ▸ List.mem_cons_self)
    have hrest : .clear ∉ rest := fun hrest => hclear (List.mem_cons_of_mem step hrest)
    have hcons := ih (h.after step) hrest
    rw [kind_after h, h.mem_itemsOf_after hstep, or_assoc] at hcons
    refine hcons.trans (or_congr_right ?_)
    simp only [concat_prefix_cons_iff]
    constructor
    · rintro (⟨s, hs, hjoins⟩ | ⟨middle, s, hmiddle, hjoins⟩)
      · exact ⟨[], s, Or.inl ⟨rfl, hs⟩, hjoins⟩
      · exact ⟨step :: middle, s, Or.inr ⟨middle, rfl, hmiddle⟩, hjoins⟩
    · rintro ⟨_, s, ⟨rfl, hs⟩ | ⟨middle, rfl, hmiddle⟩, hjoins⟩
      · exact Or.inl ⟨s, hs, hjoins⟩
      · exact Or.inr ⟨middle, s, hmiddle, hjoins⟩

/-! ### What is remembered -/

/-- There are not as many groups as items remembered, so the next listing is made anew. -/
def Stale (t : ItemTable) : Prop := t.snapshot.length ≠ t.groups.length

instance : Decidable t.Stale := inferInstanceAs (Decidable (_ ≠ _))

theorem latest_of_not_stale (h : ¬ t.Stale) : t.latest = (.ok t.snapshot, t) :=
  if_pos (not_not.mp h)

theorem WellFormed.latest_of_stale (h : t.WellFormed) (hs : t.Stale) : ∃ listing,
    t.latest = (.ok listing, { t with snapshot := listing }) ∧ t.IsListing listing := by
  obtain ⟨items, hitems, -⟩ := h.newestItems
  refine ⟨byName items, ?_, h.isListing hitems⟩
  rw [ItemTable.latest, if_neg hs, hitems]
  rfl

theorem WellFormed.snapshot_submit (h : t.WellFormed) (s : Submission) :
    (t.submit s).2.snapshot = t.snapshot := by
  obtain ⟨groups, more, skipped, hs⟩ := h.submit_eq s
  rw [hs]

/-- Only listing anew and clearing change what is remembered. So while no listing is made anew, it
stays, or the table was cleared and nothing is remembered. -/
theorem WellFormed.snapshot_run (h : t.WellFormed)
    (hkept : ∀ middle, middle ++ [.latest] <+: steps → ¬ (t.run middle).Stale) :
    (t.run steps).snapshot = [] ∨
      .clear ∉ steps ∧ (t.run steps).snapshot = t.snapshot := by
  induction steps generalizing t with
  | nil => exact Or.inr ⟨List.not_mem_nil, rfl⟩
  | cons step rest ih =>
    have hrest : ∀ middle, middle ++ [.latest] <+: rest → ¬ ((t.after step).run middle).Stale :=
      fun middle hmiddle =>
        hkept (step :: middle) (concat_prefix_cons_iff.mpr (Or.inr ⟨middle, rfl, hmiddle⟩))
    have hrun := ih (h.after step) hrest
    cases step with
    | submit s =>
      have hsnapshot : (t.after (.submit s)).snapshot = t.snapshot := h.snapshot_submit s
      rw [hsnapshot] at hrun
      exact hrun.imp_right fun hrun => ⟨by simpa using hrun.1, hrun.2⟩
    -- a cleared table remembers nothing, and without a new listing that stays so
    | clear => exact Or.inl (hrun.elim id And.right)
    | latest =>
      have hfresh := hkept [] (concat_prefix_cons_iff.mpr (Or.inl ⟨rfl, rfl⟩))
      have hsame : t.after .latest = t := congrArg Prod.snd (latest_of_not_stale hfresh)
      have hsnapshot : (t.after .latest).snapshot = t.snapshot := by rw [hsame]
      rw [hsnapshot] at hrun
      exact hrun.imp_right fun hrun => ⟨by simpa using hrun.1, hrun.2⟩

/-- Versions are numbers, and the items remembered are held, in the order of their names. -/
structure Consistent (t : ItemTable) : Prop where
  wellFormed : t.WellFormed
  numbers : ∀ name, ∀ i ∈ t.itemsOf name, i.version.isNaN = false
  ascending : t.snapshot.Pairwise fun x y => x.name < y.name
  held : ∀ x ∈ t.snapshot, x ∈ t.itemsOf x.name

theorem consistent_fresh (kind : PackKind) (allowAliases tolerateDuplicates : Bool) :
    (fresh kind allowAliases tolerateDuplicates).Consistent where
  wellFormed := wellFormed_fresh kind allowAliases tolerateDuplicates
  numbers name i hi := by simp [fresh, empty, itemsOf, groupNamed?] at hi
  ascending := List.Pairwise.nil
  held x hx := by simp [fresh, empty] at hx

namespace Consistent

variable (h : t.Consistent)
include h

theorem comparable (name : String) : Selection.Comparable Item.version (t.itemsOf name) :=
  ⟨h.numbers name, h.wellFormed.differ_itemsOf name⟩

theorem after {step : TableStep} (hstep : ∀ s, step = .submit s → s.entry.version.isNaN = false) :
    (t.after step).Consistent := by
  have hw := h.wellFormed.after step
  cases step with
  | submit s =>
    have hsnapshot : (t.after (.submit s)).snapshot = t.snapshot := h.wellFormed.snapshot_submit s
    refine ⟨hw, fun name i hi => ?_, hsnapshot ▸ h.ascending, fun x hx => ?_⟩
    · rcases h.wellFormed.mem_itemsOf_submit.mp hi with hi | ⟨-, -, rfl⟩
      · exact h.numbers name i hi
      · exact hstep s rfl
    · rw [hsnapshot] at hx
      exact h.wellFormed.mem_itemsOf_submit.mpr (Or.inl (h.held x hx))
  | clear =>
    refine ⟨hw, fun name i hi => ?_, List.Pairwise.nil, fun x hx => absurd hx List.not_mem_nil⟩
    simp [ItemTable.after, clear, itemsOf, groupNamed?] at hi
  | latest =>
    have hitems (name : String) : (t.after .latest).itemsOf name = t.itemsOf name :=
      itemsOf_latest t name
    by_cases hs : t.Stale
    · obtain ⟨listing, hlatest, hl⟩ := h.wellFormed.latest_of_stale hs
      have hsnapshot : (t.after .latest).snapshot = listing := by rw [ItemTable.after, hlatest]
      refine ⟨hw, fun name i hi => h.numbers name i (hitems name ▸ hi),
        hsnapshot ▸ hl.ascending, fun x hx => ?_⟩
      rw [hitems]
      exact Selection.newest?_mem (hl.newest x (hsnapshot ▸ hx))
    · rw [ItemTable.after, latest_of_not_stale hs]
      exact h

theorem run (hn : ∀ s, .submit s ∈ steps → s.entry.version.isNaN = false) :
    (t.run steps).Consistent := by
  induction steps generalizing t with
  | nil => exact h
  | cons step rest ih =>
    refine ih (h.after fun s hs => hn s (hs ▸ List.mem_cons_self)) fun s hs => ?_
    exact hn s (List.mem_cons_of_mem step hs)

theorem latest : ∃ listing, t.latest.1 = .ok listing ∧ t.latest.2.snapshot = listing ∧
    (listing.map Item.name).Perm t.names := by
  by_cases hs : t.Stale
  · obtain ⟨listing, hlatest, hl⟩ := h.wellFormed.latest_of_stale hs
    exact ⟨listing, by rw [hlatest], by rw [hlatest], hl.names⟩
  · rw [latest_of_not_stale hs]
    refine ⟨t.snapshot, rfl, rfl, ?_⟩
    -- different names that are all there, and as many as there are
    have hsub : t.snapshot.map Item.name ⊆ t.names := by
      intro name hname
      obtain ⟨x, hx, rfl⟩ := List.mem_map.mp hname
      exact (h.wellFormed.itemsOf_ne_nil_iff x.name).mp (List.ne_nil_of_mem (h.held x hx))
    have hlength : t.snapshot.length = t.groups.length := not_not.mp hs
    have hnodup := nodup_names_of_ascending h.ascending
    refine (List.subperm_of_subset hnodup hsub).perm_of_length_le (Nat.le_of_eq ?_)
    rw [names, List.length_map, List.length_map, hlength]

end Consistent

/-! ### The last listing that was made anew -/

/-- Of the listings that a run asks for, the last one that is made anew follows on `before`. -/
structure LastMade (start : ItemTable) (steps before after : List TableStep) : Prop where
  split : steps = before ++ .latest :: after
  made : (start.run before).Stale
  kept : ∀ middle, middle ++ [.latest] <+: after →
    ¬ (start.run (before ++ .latest :: middle)).Stale

variable {before after : List TableStep}

theorem LastMade.concat (h : t.LastMade steps before after) {step : TableStep}
    (hstep : step = .latest → ¬ (t.run steps).Stale) :
    t.LastMade (steps ++ [step]) before (after ++ [step]) := by
  refine ⟨by rw [h.split, List.append_assoc, List.cons_append], h.made, fun middle hmiddle => ?_⟩
  rcases List.prefix_concat_iff.mp hmiddle with heq | hmiddle
  · obtain ⟨rfl, hlast⟩ := List.append_inj' heq rfl
    rw [← h.split]
    exact hstep (List.singleton_inj.mp hlast).symm
  · exact h.kept middle hmiddle

theorem WellFormed.exists_lastMade (h : t.WellFormed) (hempty : t.snapshot = [])
    (hne : (t.run steps).snapshot ≠ []) : ∃ before after, t.LastMade steps before after := by
  -- the last step decides: either it is the listing looked for, or that lies before it
  induction steps using List.reverseRecOn with
  | nil => exact absurd hempty hne
  | append_singleton steps step ih =>
    rw [run_append] at hne
    have hw := h.run steps
    cases step with
    | submit s =>
      have hsnapshot : ((t.run steps).run [.submit s]).snapshot = (t.run steps).snapshot :=
        hw.snapshot_submit s
      obtain ⟨before, after, hlast⟩ := ih (hsnapshot ▸ hne)
      exact ⟨before, after ++ [.submit s], hlast.concat (by rintro ⟨⟩)⟩
    | clear => exact absurd rfl hne
    | latest =>
      by_cases hs : (t.run steps).Stale
      · refine ⟨steps, [], rfl, hs, fun middle hmiddle => ?_⟩
        simp at hmiddle
      · have hsame : (t.run steps).run [.latest] = t.run steps :=
          congrArg Prod.snd (latest_of_not_stale hs)
        obtain ⟨before, after, hlast⟩ := ih (hsame ▸ hne)
        exact ⟨before, after ++ [.latest], hlast.concat fun _ => hs⟩

theorem run_latest_cons (t : ItemTable) (before after : List TableStep) :
    t.run (before ++ .latest :: after) = (t.run before).latest.2.run after := by
  rw [run_append]
  rfl

section LastMade

variable (hlast : t.LastMade steps before after) (h : t.Consistent)
  (hn : ∀ s, .submit s ∈ steps → s.entry.version.isNaN = false) {x : Item}
  (hx : x ∈ (t.run steps).snapshot)
include hlast h hn hx

/-- What is remembered at the end is what was listed then, and the table was not cleared. -/
theorem LastMade.newest : .clear ∉ after ∧
    Selection.IsNewest Item.version ((t.run before).itemsOf x.name) x := by
  have hbefore : (t.run before).Consistent :=
    h.run fun s hs => hn s (hlast.split ▸ List.mem_append_left _ hs)
  obtain ⟨listing, hlatest, hl⟩ := hbefore.wellFormed.latest_of_stale hlast.made
  have hsnapshot : (t.run before).latest.2.snapshot = listing := by rw [hlatest]
  have hkept := hbefore.wellFormed.latest.1.snapshot_run fun middle hmiddle =>
    run_latest_cons t before middle ▸ hlast.kept middle hmiddle
  rw [hlast.split, run_latest_cons] at hx
  rcases hkept with hnil | ⟨hclear, hsame⟩
  · rw [hnil] at hx
    cases hx
  · rw [hsame, hsnapshot] at hx
    exact ⟨hclear,
      (Selection.newest?_iff_isNewest (hbefore.comparable x.name) x).mp (hl.newest x hx)⟩

theorem LastMade.newest_now_iff :
    Selection.IsNewest Item.version ((t.run steps).itemsOf x.name) x ↔
      ∀ middle s, middle ++ [.submit s] <+: after →
        (t.run (before ++ .latest :: middle)).Joins s → s.key = x.name →
        x.version.lt s.entry.version = false := by
  obtain ⟨hclear, hnewest⟩ := hlast.newest h hn hx
  have hitems (y : Item) : y ∈ (t.run steps).itemsOf x.name ↔
      y ∈ (t.run before).itemsOf x.name ∨ ∃ middle s, middle ++ [.submit s] <+: after ∧
        (t.run (before ++ .latest :: middle)).Joins s ∧ s.key = x.name ∧
        s.item (t.run before).latest.2.kind = y := by
    rw [hlast.split, run_latest_cons, (h.wellFormed.run before).latest.1.mem_itemsOf_run hclear,
      itemsOf_latest]
    simp only [run_latest_cons]
  rw [hnewest.grown_iff ((h.run hn).comparable x.name) hitems]
  constructor
  · intro hcame middle s hmiddle hjoins hkey
    exact hcame _ ⟨middle, s, hmiddle, hjoins, hkey, rfl⟩
  · rintro hjoined _ ⟨middle, s, hmiddle, hjoins, hkey, rfl⟩
    exact hjoined middle s hmiddle hjoins hkey

end LastMade

/-- What is listed after a run: one item for each name, in the order of names, each held by the
table. They are the newest of their names as of the last listing that was made anew, and still are
unless an item of a higher version joined afterwards. -/
structure Listed (start : ItemTable) (steps : List TableStep) (listing : List Item) : Prop where
  ascending : listing.Pairwise fun x y => x.name < y.name
  one_each : ∀ key, key ∈ (start.run steps).names ↔ ∃! x, x ∈ listing ∧ x.name = key
  held : ∀ x ∈ listing, x ∈ (start.run steps).itemsOf x.name
  made : listing ≠ [] → ∃ before after, LastMade start (steps ++ [.latest]) before after
  newest : ∀ before after, LastMade start (steps ++ [.latest]) before after → ∀ x ∈ listing,
    Selection.IsNewest Item.version ((start.run before).itemsOf x.name) x
  newest_now : ∀ before after, LastMade start (steps ++ [.latest]) before after → ∀ x ∈ listing,
    (Selection.IsNewest Item.version ((start.run steps).itemsOf x.name) x ↔
      ∀ middle s, middle ++ [.submit s] <+: after →
        (start.run (before ++ .latest :: middle)).Joins s → s.key = x.name →
        x.version.lt s.entry.version = false)

theorem Consistent.listed {start : ItemTable} (h : start.Consistent) (hempty : start.snapshot = [])
    (hn : ∀ s, .submit s ∈ steps → s.entry.version.isNaN = false) :
    ∃ listing, (start.run steps).latest.1 = .ok listing ∧ Listed start steps listing := by
  have hrun := h.run hn
  obtain ⟨listing, hlatest, rfl, hnames⟩ := hrun.latest
  -- the listing is what is remembered after one more step
  have hsteps : (start.run steps).latest.2 = start.run (steps ++ [.latest]) :=
    (run_latest_cons start steps []).symm
  have hn' : ∀ s, .submit s ∈ steps ++ [.latest] → s.entry.version.isNaN = false :=
    fun s hs => hn s (by simpa using hs)
  have hend : (start.run (steps ++ [.latest])).Consistent := h.run hn'
  have hitems (name : String) :
      (start.run (steps ++ [.latest])).itemsOf name = (start.run steps).itemsOf name := by
    rw [← hsteps, itemsOf_latest]
  rw [hsteps] at hlatest hnames
  refine ⟨_, hlatest, hend.ascending, mem_names_iff_of_ascending hend.ascending hnames,
    fun x hx => hitems x.name ▸ hend.held x hx, h.wellFormed.exists_lastMade hempty,
    fun before after hlast x hx => (hlast.newest h hn' hx).2, fun before after hlast x hx => ?_⟩
  rw [← hitems]
  exact hlast.newest_now_iff h hn' hx

/-- Every listing of every run, from a table without entries and over versions that are numbers,
has exactly one item for each name; it is the newest of its name as of the last listing that was
made anew, and whether it still is depends on what joined since. -/
theorem latest_run (kind : PackKind) (allowAliases tolerateDuplicates : Bool)
    (steps : List TableStep) (hn : ∀ s, .submit s ∈ steps → s.entry.version.isNaN = false) :
    ∃ listing,
      ((fresh kind allowAliases tolerateDuplicates).run steps).latest.1 = .ok listing ∧
      Listed (fresh kind allowAliases tolerateDuplicates) steps listing :=
  (consistent_fresh kind allowAliases tolerateDuplicates).listed rfl hn

def river (version : Int) : Submission :=
  ⟨⟨"River", .ofInt version, [], none⟩, "River.zip", .ofParts ["River.zip"]⟩

def riverSteps : List TableStep := [.submit (river 1), .latest, .submit (river 2)]

/-- A second version that comes between two listings is not noticed. -/
theorem latest_run_river :
    (∀ s, .submit s ∈ riverSteps → s.entry.version.isNaN = false) ∧
    ∃ listing, ((fresh .variants true false).run riverSteps).latest.1 = .ok listing ∧
      ∃ x ∈ listing, x.name = "river" ∧ ¬ Selection.IsNewest Item.version
        (((fresh .variants true false).run riverSteps).itemsOf x.name) x := by
  have hn : ∀ s, .submit s ∈ riverSteps → s.entry.version.isNaN = false := by
    intro s hs
    simp only [riverSteps, List.mem_cons, TableStep.submit.injEq, reduceCtorEq, List.not_mem_nil,
      or_false, false_or] at hs
    rcases hs with rfl | rfl <;> decide +kernel
  obtain ⟨listing, hlatest, hl⟩ := latest_run .variants true false riverSteps hn
  have hlast : LastMade (fresh .variants true false) (riverSteps ++ [.latest])
      [.submit (river 1)] [.submit (river 2), .latest] := by
    refine ⟨rfl, by decide +kernel, fun middle hmiddle => ?_⟩
    simp only [concat_prefix_cons_iff, reduceCtorEq, and_false, false_or] at hmiddle
    obtain ⟨_, rfl, ⟨rfl, -⟩ | ⟨_, -, hnil⟩⟩ := hmiddle
    · decide +kernel
    · simp at hnil
  have hriver : "river" ∈ ((fresh .variants true false).run riverSteps).names := by decide +kernel
  obtain ⟨x, ⟨hx, hname⟩, -⟩ := (hl.one_each "river").mp hriver
  have hfirst : (((fresh .variants true false).run [.submit (river 1)]).itemsOf "river").map
      Item.version = [.ofInt 1] := by decide +kernel
  have hversion : x.version = .ofInt 1 := by
    have hmem := List.mem_map_of_mem (f := Item.version) (hl.newest _ _ hlast x hx).1
    rw [hname, hfirst] at hmem
    exact List.mem_singleton.mp hmem
  refine ⟨hn, listing, hlatest, x, hx, hname, fun hnewest => ?_⟩
  have hjoins :
      ((fresh .variants true false).run [.submit (river 1), .latest]).Joins (river 2) := by
    refine ((wellFormed_fresh .variants true false).run _).joins_iff.mpr ⟨?_, ?_⟩
    · decide +kernel
    · rw [← Option.isNone_iff_eq_none]
      decide +kernel
  have hbelow := (hl.newest_now _ _ hlast x hx).mp hnewest [] (river 2) (by simp) hjoins
    (by rw [hname]; decide +kernel)
  rw [hversion] at hbelow
  revert hbelow
  decide +kernel

end PackIndex.ItemTable
