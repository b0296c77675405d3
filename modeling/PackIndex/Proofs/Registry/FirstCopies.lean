import Mathlib.Algebra.BigOperators.Group.List.Lemmas
import PackIndex.Proofs.Registry.Conflict
import PackIndex.Proofs.Registry.Listing

/-!
# Tolerated copies

A copy is an entry of the version and the name of another one. A table that tolerates duplicates
holds the first of several copies and counts the others; nothing else is left of them, not even the
aliases that they declare. So the table is the one made of the first copies, but for the count, and
only aliases can be refused.
-/

namespace PackIndex

namespace RegistryError

/-- Whether a name and an alias, or the aliases of two names, are in conflict. -/
def isAliasConflict : RegistryError → Bool
  | nameIsAlias _ _ => true
  | aliasTaken _ _ _ _ => true
  | _ => false

end RegistryError

namespace Submission

/-- The same version of the same name, in whatever case the names are written. -/
def IsCopy (a b : Submission) : Prop :=
  a.key = b.key ∧ a.entry.version.same b.entry.version = true

instance (a b : Submission) : Decidable (a.IsCopy b) := inferInstanceAs (Decidable (_ ∧ _))

theorem IsCopy.trans {a b c : Submission} (hab : a.IsCopy b) (hbc : b.IsCopy c) : a.IsCopy c :=
  ⟨hab.1.trans hbc.1, Binary64.same_trans hab.2 hbc.2⟩

end Submission

/-- The submissions that are no copies of any before them, be it in this list or `earlier`. -/
def firstCopies (earlier : List Submission) : List Submission → List Submission
  | [] => []
  | s :: rest =>
    if ∃ a ∈ earlier, a.IsCopy s then firstCopies (earlier ++ [s]) rest
    else s :: firstCopies (earlier ++ [s]) rest

/-- The same submissions are copies of the ones and of the others. -/
def SameCopies (kept earlier : List Submission) : Prop :=
  ∀ s : Submission, (∃ a ∈ kept, a.IsCopy s) ↔ ∃ a ∈ earlier, a.IsCopy s

namespace SameCopies

variable {kept earlier : List Submission} {s : Submission} (h : SameCopies kept earlier)
include h

theorem keep (s : Submission) : SameCopies (kept ++ [s]) (earlier ++ [s]) := by
  intro x
  simp only [List.mem_append, or_and_right, exists_or, h x]

theorem pass (hs : ∃ a ∈ earlier, a.IsCopy s) : SameCopies kept (earlier ++ [s]) := by
  intro x
  simp only [List.mem_append, or_and_right, exists_or, List.mem_singleton, exists_eq_left, h x]
  obtain ⟨a, ha, hcopy⟩ := hs
  exact ⟨Or.inl, fun hx => hx.elim id fun hsx => ⟨a, ha, hcopy.trans hsx⟩⟩

theorem firstCopies (subs : List Submission) :
    SameCopies (kept ++ firstCopies earlier subs) (earlier ++ subs) := by
  induction subs generalizing kept earlier with
  | nil => simpa [PackIndex.firstCopies] using h
  | cons s rest ih =>
    rw [PackIndex.firstCopies]
    by_cases hs : ∃ a ∈ earlier, a.IsCopy s
    · have hrest := ih (h.pass hs)
      rw [List.append_assoc, List.singleton_append] at hrest
      rwa [if_pos hs]
    · have hrest := ih (h.keep s)
      rw [List.append_assoc, List.append_assoc, List.singleton_append, List.singleton_append]
        at hrest
      rwa [if_neg hs]

end SameCopies

namespace ItemTable

variable {t u v : ItemTable} {s : Submission} {kept earlier subs : List Submission}

/-! ### One submission -/

theorem WellFormed.isAliasConflict_of_refused (h : t.WellFormed)
    (htol : t.tolerateDuplicates = true) {e : RegistryError} (hs : t.submit s = (.refused e, u)) :
    e.isAliasConflict = true := by
  cases ha : t.aliasOwner? s.key with
  | some other =>
    rw [submit_of_alias ha] at hs
    cases hs
    rfl
  | none =>
    cases hv : Selection.find? Item.version s.entry.version (t.itemsOf s.key) with
    | some existing =>
      rw [submit_of_taken h.names_nodup ha hv, if_pos htol] at hs
      cases hs
    | none =>
      rw [submit_of_new ha hv] at hs
      by_cases hallow : t.allowAliases = true
      · have hallow' : (t.putGroup (t.grown s)).allowAliases = true := by simpa using hallow
        rw [if_pos hallow] at hs
        rcases hmap : mapAliases (s.item t.kind) (t.putGroup (t.grown s)) s.entry.aliases
          with ⟨_ | refused, w⟩
        · rw [hmap] at hs
          cases hs
        · rw [hmap] at hs
          obtain ⟨key, other, hrefused⟩ := mapAliases_error (h.putGrown ha hv)
            (name_mem_putGrown t s) hallow' s.entry.aliases (by rw [hmap])
          cases hs
          rw [hrefused]
          rfl
      · rw [if_neg hallow] at hs
        cases hs

theorem Holds.skipped_iff (h : t.Holds kept) (htol : t.tolerateDuplicates = true) :
    (∃ i, (t.submit s).1 = .skipped i) ↔ ∃ a ∈ kept, a.IsCopy s := by
  constructor
  · rintro ⟨i, hi⟩
    exact (h.skipped (Prod.ext hi rfl)).2.1
  · rintro ⟨a, ha, hcopy⟩
    have hname : s.key ∈ t.names := h.mem_names_iff.mpr ⟨a, ha, hcopy.1⟩
    have halias := h.wellFormed.aliasOwner?_of_name hname
    cases hv : Selection.find? Item.version s.entry.version (t.itemsOf s.key) with
    | some existing =>
      rw [submit_of_taken h.wellFormed.names_nodup halias hv, if_pos htol]
      exact ⟨_, rfl⟩
    | none =>
      have hdiffers := h.find?_eq_none_iff.mp hv a ha hcopy.1
      rw [hcopy.2] at hdiffers
      cases hdiffers

/-! ### The table but for the count -/

/-- The table with another number of duplicates passed over. -/
def counting (t : ItemTable) (n : Nat) : ItemTable := { t with duplicatesSkipped := n }

theorem putGroup_counting (t : ItemTable) (g : VersionGroup) (n : Nat) :
    (t.counting n).putGroup g = (t.putGroup g).counting n := by
  have hput := apply_ite (counting · n) ((t.groups.any fun h => decide (h.name = g.name)) = true)
    { t with groups := t.groups.map fun h => if h.name = g.name then g else h }
    { t with groups := t.groups ++ [g] }
  exact hput.symm

theorem mapAlias_counting (t : ItemTable) (item : Item) (word : String) (n : Nat) :
    (t.counting n).mapAlias item word = (t.mapAlias item word).map (counting · n) := by
  have howner : (t.counting n).owner? = t.owner? := rfl
  simp only [mapAlias, howner]
  split
  · rfl
  · split
    · rfl
    · split
      · rfl
      · split <;> rfl

theorem mapAliases_counting (item : Item) (t : ItemTable) (words : List String) (n : Nat) :
    mapAliases item (t.counting n) words =
      ((mapAliases item t words).1, (mapAliases item t words).2.counting n) := by
  induction words generalizing t with
  | nil => rfl
  | cons word words ih =>
    simp only [mapAliases, mapAlias_counting]
    cases t.mapAlias item word with
    | error e => rfl
    | ok u => exact ih u

theorem WellFormed.counting (h : t.WellFormed) (n : Nat) : (t.counting n).WellFormed :=
  ⟨h.1, h.2, h.3, h.4, h.5, h.6, h.7⟩

theorem WellFormed.submit_counting (h : t.WellFormed) {i : Item}
    (hs : t.submit s = (.admitted i, u)) (n : Nat) :
    (t.counting n).submit s = (.admitted i, u.counting n) := by
  obtain ⟨ha, hv, hi, hu⟩ := (submit_eq_admitted_iff h).mp hs
  refine (submit_eq_admitted_iff (h.counting n)).mpr ⟨ha, hv, hi, ?_⟩
  have hgrown : (t.counting n).putGroup ((t.counting n).grown s) =
      (t.putGroup (t.grown s)).counting n := putGroup_counting t (t.grown s) n
  have hitem : s.item (t.counting n).kind = s.item t.kind := rfl
  by_cases hallow : t.allowAliases = true
  · rw [if_pos hallow] at hu
    rw [if_pos (show (t.counting n).allowAliases = true from hallow), hgrown, hitem,
      mapAliases_counting, hu]
  · rw [if_neg hallow] at hu
    rw [if_neg (show ¬ (t.counting n).allowAliases = true from hallow), hgrown, hu]

/-- What a run admits makes the same table without the rest, but for the count. -/
theorem Holds.submitAll_admittedFrom (h : t.Holds kept) (hu : t.submitAll subs = .ok u) (n : Nat) :
    (t.counting n).submitAll (t.admittedFrom subs) = .ok (u.counting n) := by
  induction subs generalizing t kept with
  | nil =>
    obtain rfl := Except.ok.inj hu
    rfl
  | cons s rest ih =>
    obtain ⟨i, v, hu, ⟨hs, heq⟩ | ⟨hs, heq⟩⟩ := submitAll_cons_cases hu
    · obtain ⟨-, hv, -⟩ := h.admitted hs
      rw [heq, ItemTable.submitAll, h.wellFormed.submit_counting hs n]
      exact ih hv hu
    · obtain ⟨-, -, hv, -⟩ := h.skipped hs
      obtain ⟨-, -, -, -, hcounted⟩ := (submit_eq_skipped_iff h.wellFormed).mp hs
      have hsame : v.counting n = t.counting n := by rw [hcounted]; rfl
      rw [heq, ← hsame]
      exact ih hv hu

/-! ### Runs -/

theorem length_admittedFrom_add (hu : t.submitAll subs = .ok u) :
    (t.admittedFrom subs).length + (t.skippedFrom subs).length = subs.length := by
  induction subs generalizing t with
  | nil => rfl
  | cons s rest ih =>
    obtain ⟨i, v, hu, ⟨hs, heq⟩ | ⟨hs, heq⟩⟩ := submitAll_cons_cases hu
    · have hskipped : t.skippedFrom (s :: rest) = v.skippedFrom rest := by rw [skippedFrom, hs]
      rw [heq, hskipped, List.length_cons, List.length_cons, ← ih hu]
      omega
    · have hskipped : t.skippedFrom (s :: rest) = s :: v.skippedFrom rest := by rw [skippedFrom, hs]
      rw [heq, hskipped, List.length_cons, List.length_cons, ← ih hu]
      omega

theorem Holds.itemCount_eq (h : t.Holds kept) : t.itemCount = kept.length := by
  have hnames : t.names.Perm (kept.map Submission.key).dedup := by
    refine (List.perm_ext_iff_of_nodup h.wellFormed.names_nodup (List.nodup_dedup _)).mpr ?_
    intro name
    rw [List.mem_dedup, List.mem_map, h.mem_names_iff]
  have hcount (name : String) :
      (t.itemsOf name).length = (kept.map Submission.key).count name := by
    rw [h.items, List.length_map, List.count, List.countP_map, List.countP_eq_length_filter]
    rfl
  calc t.itemCount = (t.names.map fun name => (t.itemsOf name).length).sum :=
        h.wellFormed.itemCount_eq
    _ = ((kept.map Submission.key).dedup.map fun name => (t.itemsOf name).length).sum :=
        (hnames.map _).sum_nat
    _ = (kept.map Submission.key).length := by
        simp only [hcount, List.sum_map_count_dedup_eq_length]
    _ = kept.length := List.length_map _

/-- A run admits the first copies, where copies of what is held are copies of `earlier` ones. -/
theorem Holds.admittedFrom_eq_firstCopies (h : t.Holds kept) (htol : t.tolerateDuplicates = true)
    (hearlier : SameCopies kept earlier) (hu : t.submitAll subs = .ok u) :
    t.admittedFrom subs = firstCopies earlier subs := by
  induction subs generalizing t kept earlier with
  | nil => rfl
  | cons s rest ih =>
    have hskipped := (h.skipped_iff htol (s := s)).trans (hearlier s)
    obtain ⟨i, v, hu, ⟨hs, heq⟩ | ⟨hs, heq⟩⟩ := submitAll_cons_cases hu
    · obtain ⟨-, hv, hset⟩ := h.admitted hs
      have hfirst : ¬ ∃ a ∈ earlier, a.IsCopy s := by
        rw [← hskipped, hs]
        simp
      rw [heq, firstCopies, if_neg hfirst,
        ih hv (hset.tolerateDuplicates.trans htol) (hearlier.keep s) hu]
    · obtain ⟨-, -, hv, hset⟩ := h.skipped hs
      have hcopy : ∃ a ∈ earlier, a.IsCopy s := hskipped.mp ⟨i, by rw [hs]⟩
      rw [heq, firstCopies, if_pos hcopy,
        ih hv (hset.tolerateDuplicates.trans htol) (hearlier.pass hcopy) hu]

theorem Holds.isAliasConflict_of_error (h : t.Holds kept) (htol : t.tolerateDuplicates = true)
    {e : RegistryError} (he : t.submitAll subs = .error e) : e.isAliasConflict = true := by
  induction subs generalizing t kept with
  | nil => cases he
  | cons s rest ih =>
    rcases hs : t.submit s with ⟨admission, v⟩
    rw [ItemTable.submitAll, hs] at he
    cases admission with
    | refused e' =>
      obtain rfl := Except.error.inj he
      exact h.wellFormed.isAliasConflict_of_refused htol hs
    | admitted i =>
      obtain ⟨-, hv, hset⟩ := h.admitted hs
      exact ih hv (hset.tolerateDuplicates.trans htol) he
    | skipped i =>
      obtain ⟨-, -, hv, hset⟩ := h.skipped hs
      exact ih hv (hset.tolerateDuplicates.trans htol) he

/-- The table that a list of submissions makes out of `start`: it holds the first copies and counts
the others, and it is the table that the first copies make, aliases included, but for the count. -/
structure KeepsFirst (start : ItemTable) (subs : List Submission) (u : ItemTable) : Prop where
  items : ∀ name, u.itemsOf name =
    ((firstCopies [] subs).filter fun s => s.key = name).map (Submission.item start.kind)
  counted : u.itemCount + u.duplicatesSkipped = subs.length
  aliases : ∀ key name, u.aliasOwner? key = some name ↔
    start.allowAliases = true ∧ ∃ s ∈ firstCopies [] subs, s.key = name ∧ key ∈ s.aliasKeys
  same : start.submitAll (firstCopies [] subs) = .ok (u.counting 0)

theorem Holds.keepsFirst (h : t.Holds []) (htol : t.tolerateDuplicates = true)
    (hnone : t.duplicatesSkipped = 0) (hu : t.submitAll subs = .ok u) : t.KeepsFirst subs u := by
  have hfirst : t.admittedFrom subs = firstCopies [] subs :=
    h.admittedFrom_eq_firstCopies htol (fun _ => Iff.rfl) hu
  obtain ⟨hholds, hset⟩ := h.submitAll hu
  have hsame := h.submitAll_admittedFrom hu 0
  have hlength := length_admittedFrom_add hu
  rw [hfirst] at hholds hsame hlength
  rw [List.nil_append] at hholds
  have hcounting : t.counting 0 = t := by rw [← hnone]; rfl
  refine ⟨fun name => ?_, ?_, fun key name => ?_, hcounting ▸ hsame⟩
  · rw [hholds.items, hset.kind]
  · rw [hholds.itemCount_eq, h.duplicatesSkipped_submitAll hu, hnone, Nat.zero_add, hlength]
  · rw [hholds.aliases, hset.allowAliases]

/-- After a run that comes to its end, what is passed over next are the copies of what came. -/
theorem Holds.skipped_after_iff (h : t.Holds []) (htol : t.tolerateDuplicates = true)
    (hu : t.submitAll subs = .ok u) :
    (∃ i, (u.submit s).1 = .skipped i) ↔ ∃ a ∈ subs, a.IsCopy s := by
  have hcopies : SameCopies [] [] := fun _ => Iff.rfl
  obtain ⟨hholds, hset⟩ := h.submitAll hu
  rw [h.admittedFrom_eq_firstCopies htol hcopies hu] at hholds
  rw [hholds.skipped_iff (hset.tolerateDuplicates.trans htol), hcopies.firstCopies subs s]
  rfl

/-- Tolerated copies leave nothing but their number. Of any entries submitted one after the other to
a table without entries, only aliases can be refused, exactly the copies of earlier entries are
passed over, and the table at the end keeps the first copies. -/
theorem submitAll_tolerant (kind : PackKind) (allowAliases : Bool) (subs : List Submission) :
    (∀ e, (fresh kind allowAliases true).submitAll subs = .error e → e.isAliasConflict = true) ∧
    (∀ before s after v, subs = before ++ s :: after →
      (fresh kind allowAliases true).submitAll before = .ok v →
      ((∃ i, (v.submit s).1 = .skipped i) ↔ ∃ a ∈ before, a.IsCopy s)) ∧
    ∀ u, (fresh kind allowAliases true).submitAll subs = .ok u →
      KeepsFirst (fresh kind allowAliases true) subs u := by
  have h := holds_fresh kind allowAliases true
  refine ⟨fun e he => h.isAliasConflict_of_error rfl he, ?_, fun u hu => h.keepsFirst rfl rfl hu⟩
  rintro before s after v - hv
  exact h.skipped_after_iff rfl hv

def classicCopy : Submission :=
  ⟨⟨"CLASSIC", .ofInt 1, ["Antique"], none⟩, "Copy.zip", .ofParts ["Copy.zip"]⟩

/-- A copy is counted, and its alias is not mapped. -/
theorem submitAll_tolerant_classic : ∃ u,
    (fresh .variants true true).submitAll [classicVariant, classicCopy] = .ok u ∧
    KeepsFirst (fresh .variants true true) [classicVariant, classicCopy] u ∧
    u.duplicatesSkipped = 1 ∧ u.aliasOwner? "antique" = none := by
  have hcount : ((fresh .variants true true).submitAll [classicVariant, classicCopy]).toOption.map
      ItemTable.duplicatesSkipped = some 1 := by decide +kernel
  cases hu : (fresh .variants true true).submitAll [classicVariant, classicCopy] with
  | error e =>
    rw [hu] at hcount
    cases hcount
  | ok u =>
    rw [hu] at hcount
    have hkeeps := (submitAll_tolerant .variants true [classicVariant, classicCopy]).2.2 u hu
    have hfirst : firstCopies [] [classicVariant, classicCopy] = [classicVariant] := by
      have hcopy : ∃ a ∈ [] ++ [classicVariant], a.IsCopy classicCopy := by decide +kernel
      simp only [firstCopies, List.not_mem_nil, false_and, exists_false, if_false, if_pos hcopy]
    refine ⟨u, rfl, hkeeps, Option.some.inj hcount, ?_⟩
    rw [Option.eq_none_iff_forall_ne_some]
    intro name hname
    have halias : "antique" ∉ classicVariant.aliasKeys := by decide +kernel
    obtain ⟨-, s, hs, -, hmem⟩ := (hkeeps.aliases "antique" name).mp hname
    rw [hfirst, List.mem_singleton] at hs
    exact halias (hs ▸ hmem)

end ItemTable

end PackIndex
